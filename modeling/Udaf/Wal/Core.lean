import Udaf.Core.ErrorCode
import Udaf.Lib.Posix

/-!
The write-ahead log of `platform/fs/wal.cpp`. A `Wal` is the object together with
the descriptor it owns; every member function returns its result and the object
it leaves behind. Loops take their bound from the bytes and the pending outcomes
of the file; `Bounds.lean` shows that the bound is never what ends them.
-/

namespace Udaf

open ByteString Posix

/-- `WalEntryType`, an enumeration over `uint8_t`: a byte read from a file need not be named. -/
structure WalEntryType where
  value : UInt8
  deriving DecidableEq, Repr

namespace WalEntryType

def addNode : WalEntryType := ⟨1⟩
def removeNode : WalEntryType := ⟨2⟩
def connect : WalEntryType := ⟨3⟩
def disconnect : WalEntryType := ⟨4⟩
def lifecycleState : WalEntryType := ⟨5⟩
def custom : WalEntryType := ⟨100⟩

end WalEntryType

def kSchemaVersion : UInt32 := 1
def kFileMagic : UInt32 := 0xDA1F00D5
def kFileHeaderSize : Nat := 16
def kEntryHeaderSize : Nat := 40

structure WalEntry where
  schemaVersion : UInt32 := kSchemaVersion
  seq : UInt64
  timestampNs : Int64
  type : WalEntryType
  action : Bytes
  payload : Bytes
  deriving DecidableEq, Repr

structure WalConfig where
  path : Bytes
  maxSizeBytes : UInt64 := 0
  maxEntries : UInt32 := 0
  fsyncOnAppend : Bool := true
  deriving DecidableEq, Repr

/-! The wrappers of the anonymous namespace. -/

def writeAtLoop : Nat → Bytes → Nat → Nat → File → Option Nat × File
  | 0, _, _, total, fd => (some total, fd)
  | fuel + 1, data, offset, total, fd =>
      if data.isEmpty then (some total, fd)
      else
        match fd.pwrite data offset with
        | (.error .eintr, fd) => writeAtLoop fuel data offset total fd
        | (.error .other, fd) => (none, fd)
        | (.ok 0, fd) => (some total, fd)
        | (.ok moved, fd) => writeAtLoop fuel (data.drop moved) (offset + moved) (total + moved) fd

/-- The number of bytes written, or `none` for the `-1` of an error. -/
def writeAt (fd : File) (data : Bytes) (offset : Nat) : Option Nat × File :=
  writeAtLoop (fd.faults.length + 1) data offset 0 fd

def readAtLoop : Nat → Nat → Nat → Bytes → File → Option Bytes × File
  | 0, _, _, read, fd => (some read, fd)
  | fuel + 1, count, offset, read, fd =>
      if count = 0 then (some read, fd)
      else
        match fd.pread count offset with
        | (.error .eintr, fd) => readAtLoop fuel count offset read fd
        | (.error .other, fd) => (none, fd)
        | (.ok [], fd) => (some read, fd)
        | (.ok chunk, fd) =>
            readAtLoop fuel (count - chunk.length) (offset + chunk.length) (read ++ chunk) fd

/-- The bytes read, fewer than `count` at the end of the file, or `none` for an error. -/
def readAt (fd : File) (count offset : Nat) : Option Bytes × File :=
  readAtLoop (fd.faults.length + 2) count offset [] fd

def seekEnd (fd : File) : Option Nat × File := fd.lseekEnd

def seekSet (fd : File) (offset : Nat) : Option Nat × File := fd.lseekSet offset

def fnv1a (bytes : Bytes) : UInt32 :=
  bytes.foldl (fun hash byte => (hash ^^^ byte.toUInt32) * 0x01000193) 0x811C9DC5

def ftruncateLoop : Nat → Nat → File → Option Unit × File
  | 0, _, fd => (none, fd)
  | fuel + 1, length, fd =>
      match fd.ftruncate length with
      | (.error .eintr, fd) => ftruncateLoop fuel length fd
      | (.error .other, fd) => (none, fd)
      | (.ok _, fd) => (some (), fd)

def ftruncateWrapped (fd : File) (length : Nat) : Option Unit × File :=
  ftruncateLoop (fd.faults.length + 1) length fd

def openLoop : Nat → Bool → Disk → Option File × Disk
  | 0, _, disk => (none, disk)
  | fuel + 1, create, disk =>
      match disk.openFile create with
      | (.error .eintr, disk) => openLoop fuel create disk
      | (.error .other, disk) => (none, disk)
      | (.ok fd, disk) => (some fd, disk)

def openWalFile (disk : Disk) (create : Bool) : Option File × Disk :=
  openLoop (disk.faults.length + 1) create disk

/-! The object and its members. -/

structure Wal where
  config : WalConfig
  fd : File
  nextSeq : UInt64 := 1
  sizeBytes : UInt64 := 0
  entryCount : UInt64 := 0
  deriving DecidableEq, Repr

def Wal.currentSequence (wal : Wal) : UInt64 := wal.nextSeq

/-- The 16 bytes of `write_file_header`; the `next_seq` field is always zero. -/
def fileHeader : Bytes :=
  leBytes 4 kFileMagic.toNat ++ leBytes 4 kSchemaVersion.toNat ++ leBytes 8 0

def Wal.writeFileHeader (wal : Wal) : Except ErrorCode Unit × Wal :=
  match writeAt wal.fd fileHeader 0 with
  | (written, fd) =>
      if written = some kFileHeaderSize then
        (.ok (), { wal with fd := fd, sizeBytes := UInt64.ofNat kFileHeaderSize })
      else (.error .internal, { wal with fd := fd })

def field (header : Bytes) (start width : Nat) : Nat := leNat ((header.drop start).take width)

def scanLoop : Nat → UInt64 → UInt64 → File → (UInt64 × UInt64) × File
  | 0, maxSeq, count, fd => ((maxSeq, count), fd)
  | fuel + 1, maxSeq, count, fd =>
      match fd.lseekCur with
      | (none, fd) =>
          -- `cur` is -1: below every size, and no valid offset for the read
          ((maxSeq, count), fd.fstat.2)
      | (some cur, fd) =>
          match fd.fstat with
          | (none, fd) => ((maxSeq, count), fd)
          | (some size, fd) =>
              if size ≤ cur then ((maxSeq, count), fd)
              else
                match readAt fd kEntryHeaderSize cur with
                | (none, fd) => ((maxSeq, count), fd)
                | (some header, fd) =>
                    if header.length < kEntryHeaderSize then ((maxSeq, count), fd)
                    else if field header 0 4 ≠ kFileMagic.toNat ∨
                        field header 4 4 ≠ kSchemaVersion.toNat then ((maxSeq, count), fd)
                    else
                      let seq := UInt64.ofNat (field header 8 8)
                      let maxSeq := if maxSeq < seq then seq else maxSeq
                      let next := cur + (kEntryHeaderSize + field header 25 4 + field header 29 4)
                      match fd.lseekSet next with
                      | (none, fd) => ((maxSeq, count + 1), fd)
                      | (some _, fd) => scanLoop fuel maxSeq (count + 1) fd

def scanEntriesForMaxSeq (fd : File) : (UInt64 × UInt64) × File :=
  match seekSet fd kFileHeaderSize with
  | (none, fd) => ((0, 0), fd)
  | (some _, fd) => scanLoop (fd.bytes.length + 1) 0 0 fd

def Wal.readFileHeader (wal : Wal) : Except ErrorCode UInt64 × Wal :=
  match readAt wal.fd kFileHeaderSize 0 with
  | (none, fd) => (.error .internal, { wal with fd := fd })
  | (some header, fd) =>
      if header.length < kFileHeaderSize then (.ok 1, { wal with fd := fd, nextSeq := 1 })
      else if field header 0 4 ≠ kFileMagic.toNat then
        (.error .serializeVersionMismatch, { wal with fd := fd })
      else if field header 4 4 ≠ kSchemaVersion.toNat then
        (.error .serializeVersionMismatch, { wal with fd := fd })
      else
        match fd.fstat with
        | (size, fd) =>
            let sizeBytes := match size with
              | some size => UInt64.ofNat size
              | none => wal.sizeBytes
            match scanEntriesForMaxSeq fd with
            | ((maxSeq, count), fd) =>
                let cur := maxSeq + 1
                let next := if cur = 0 then 1 else cur
                (.ok next, { wal with
                  fd := (fd.lseekSet kFileHeaderSize).2
                  sizeBytes := sizeBytes
                  entryCount := count
                  nextSeq := next })

def hasParentPath (path : Bytes) : Bool := path.contains (UInt8.ofNat '/'.toNat)

/-- `create_directories` on the parent; it fails when the parent is still missing afterwards. -/
def makeParent (config : WalConfig) (disk : Disk) : Bool × Disk :=
  if hasParentPath config.path then
    match disk.faults with
    | [] => (true, disk)
    | outcome :: rest => (decide (outcome ≠ .fail), { disk with faults := rest })
  else (true, disk)

def Wal.create (config : WalConfig) (disk : Disk) : Except ErrorCode Wal × Disk :=
  match makeParent config disk with
  | (false, disk) => (.error .bizFileNotFound, disk)
  | (true, disk) =>
      let present := disk.bytes.isSome
      match openWalFile disk (!present) with
      | (none, disk) => (.error .bizFileNotFound, disk)
      | (some fd, _) =>
          let wal : Wal := { config := config, fd := fd }
          if present then
            match wal.readFileHeader with
            | (.error code, wal) => (.error code, wal.fd.disk)
            | (.ok _, wal) => (.ok wal, wal.fd.disk)
          else
            match wal.writeFileHeader with
            | (.error code, wal) => (.error code, wal.fd.disk)
            | (.ok _, wal) => (.ok { wal with nextSeq := 1 }, wal.fd.disk)

def length32 (bytes : Bytes) : Nat := bytes.length % 2 ^ 32

def headerPrefix (entry : WalEntry) : Bytes :=
  leBytes 4 kFileMagic.toNat ++ leBytes 4 entry.schemaVersion.toNat ++ leBytes 8 entry.seq.toNat ++
    leBytes 8 entry.timestampNs.toUInt64.toNat ++ [entry.type.value] ++
    leBytes 4 (length32 entry.action) ++ leBytes 4 (length32 entry.payload) ++ [0, 0, 0]

def checksum (covered action payload : Bytes) : UInt32 :=
  let hash := fnv1a covered
  let hash := if action.isEmpty then hash else hash ^^^ fnv1a action
  if payload.isEmpty then hash else hash ^^^ fnv1a payload

def storedAction (entry : WalEntry) : Bytes := entry.action.take (length32 entry.action)

def storedPayload (entry : WalEntry) : Bytes := entry.payload.take (length32 entry.payload)

def entryHeader (entry : WalEntry) : Bytes :=
  headerPrefix entry ++
    leBytes 4 (checksum (headerPrefix entry) (storedAction entry) (storedPayload entry)).toNat

/-- `if (len > 0)` around a write; without bytes to write nothing is called. -/
def writeField (fd : File) (data : Bytes) (offset : Nat) : Option Nat × File :=
  if data.isEmpty then (some 0, fd) else writeAt fd data offset

def Wal.writeEntry (entry : WalEntry) (wal : Wal) : Except ErrorCode UInt64 × Wal :=
  match seekEnd wal.fd with
  | (none, fd) => (.error .internal, { wal with fd := fd })
  | (some endOff, fd) =>
      match writeAt fd (entryHeader entry) endOff with
      | (n1, fd) =>
          if n1 ≠ some kEntryHeaderSize then (.error .internal, { wal with fd := fd })
          else
            -- the header is read back for a debug message only
            let fd := (readAt fd kEntryHeaderSize endOff).2
            let action := storedAction entry
            match writeField fd action (endOff + kEntryHeaderSize) with
            | (n2, fd) =>
                if n2 ≠ some action.length then (.error .internal, { wal with fd := fd })
                else
                  let payload := storedPayload entry
                  match writeField fd payload (endOff + kEntryHeaderSize + action.length) with
                  | (n3, fd) =>
                      if n3 ≠ some payload.length then (.error .internal, { wal with fd := fd })
                      else
                        let written := kEntryHeaderSize + action.length + payload.length
                        (.ok entry.seq, { wal with
                          fd := fd
                          sizeBytes := wal.sizeBytes + UInt64.ofNat written
                          entryCount := wal.entryCount + 1 })

def readExact (fd : File) (size offset : Nat) : Option Bytes × File :=
  if size = 0 then (some [], fd)
  else
    match readAt fd size offset with
    | (some read, fd) => (if read.length = size then some read else none, fd)
    | (none, fd) => (none, fd)

def entryOf (header action payload : Bytes) : WalEntry where
  schemaVersion := UInt32.ofNat (field header 4 4)
  seq := UInt64.ofNat (field header 8 8)
  timestampNs := (UInt64.ofNat (field header 16 8)).toInt64
  type := ⟨UInt8.ofNat (field header 24 1)⟩
  action := action
  payload := payload

def readEntry (fd : File) : Except ErrorCode WalEntry × File :=
  match fd.lseekCur with
  | (none, fd) => (.error .protocolTruncatedBuffer, fd)
  | (some cur, fd) =>
      if cur < kFileHeaderSize then (.error .protocolTruncatedBuffer, fd)
      else
        match seekSet fd cur with
        | (none, fd) => (.error .internal, fd)
        | (some _, fd) =>
            match readAt fd kEntryHeaderSize cur with
            | (none, fd) => (.error .internal, fd)
            | (some header, fd) =>
                if header.length < kEntryHeaderSize then (.error .protocolTruncatedBuffer, fd)
                else if field header 0 4 ≠ kFileMagic.toNat then
                  (.error .serializeVersionMismatch, fd)
                else if field header 4 4 ≠ kSchemaVersion.toNat then
                  (.error .serializeVersionMismatch, fd)
                else
                  let actLen := field header 25 4
                  let payLen := field header 29 4
                  match readExact fd actLen (cur + kEntryHeaderSize) with
                  | (none, fd) => (.error .protocolTruncatedBuffer, fd)
                  | (some action, fd) =>
                      match readExact fd payLen (cur + kEntryHeaderSize + actLen) with
                      | (none, fd) => (.error .protocolTruncatedBuffer, fd)
                      | (some payload, fd) =>
                          if (checksum (header.take 36) action payload).toNat ≠
                              field header 36 4 then
                            (.error .serializeDecodeFailed, fd)
                          else
                            -- the result of this `lseek` is not looked at
                            let fd := (fd.lseekSet (cur + (kEntryHeaderSize + actLen + payLen))).2
                            (.ok (entryOf header action payload), fd)

def Wal.append (timestamp : Int64) (type : WalEntryType) (action payload : Bytes) (wal : Wal) :
    Except ErrorCode UInt64 × Wal :=
  let entry : WalEntry := {
    seq := wal.nextSeq
    timestampNs := timestamp
    type := type
    action := action
    payload := payload }
  let taken := { wal with nextSeq := wal.nextSeq + 1 }
  if 0 < wal.config.maxEntries ∧ wal.config.maxEntries.toUInt64 ≤ wal.entryCount then
    (.error .resDiskFull, { taken with nextSeq := taken.nextSeq - 1 })
  else if 0 < wal.config.maxSizeBytes ∧
      wal.config.maxSizeBytes < wal.sizeBytes + UInt64.ofNat kEntryHeaderSize +
        UInt64.ofNat action.length + UInt64.ofNat payload.length then
    (.error .resDiskFull, { taken with nextSeq := taken.nextSeq - 1 })
  else
    match taken.writeEntry entry with
    | (.error code, after) => (.error code, { after with nextSeq := after.nextSeq - 1 })
    | (.ok _, after) =>
        (.ok entry.seq,
          if after.config.fsyncOnAppend then { after with fd := after.fd.fsync.2 } else after)

def Wal.fsync (wal : Wal) : Except ErrorCode Unit × Wal :=
  match wal.fd.fsync with
  | (.error .other, fd) => (.error .internal, { wal with fd := fd })
  | (_, fd) => (.ok (), { wal with fd := fd })

/-- The reading loop shared by `replay`, `replay_stream` and `truncate`: `visit` is the loop's
body, and its flag says whether the loop goes on. -/
def readEntries {σ : Type} (visit : σ → WalEntry → σ × Bool) :
    Nat → σ → File → (Except ErrorCode Unit × σ) × File
  | 0, acc, fd => ((.ok (), acc), fd)
  | fuel + 1, acc, fd =>
      match fd.lseekCur with
      | (cur, fd) =>
          match fd.fstat with
          | (none, fd) => ((.error .internal, acc), fd)
          | (some size, fd) =>
              if cur.any (size ≤ ·) then ((.ok (), acc), fd)
              else
                match readEntry fd with
                | (.error code, fd) => ((.error code, acc), fd)
                | (.ok entry, fd) =>
                    match visit acc entry with
                    | (acc, true) => readEntries visit fuel acc fd
                    | (acc, false) => ((.ok (), acc), fd)

def loopBound (fd : File) : Nat := fd.faults.length + fd.bytes.length + 1

def Wal.replay (wal : Wal) : Except ErrorCode (List WalEntry) × Wal :=
  match seekSet wal.fd kFileHeaderSize with
  | (none, fd) => (.error .internal, { wal with fd := fd })
  | (some _, fd) =>
      match readEntries (fun out entry => (out ++ [entry], true)) (loopBound fd) [] fd with
      | ((.error code, _), fd) => (.error code, { wal with fd := fd })
      | ((.ok _, out), fd) =>
          (.ok out, { wal with fd := fd, entryCount := UInt64.ofNat out.length })

/-- A callback sees the entries delivered before and the entry at hand, so it may keep state. -/
abbrev WalCallback := List WalEntry → WalEntry → Bool

def deliver (callback : WalCallback) (seen : List WalEntry) (entry : WalEntry) :
    List WalEntry × Bool :=
  (seen ++ [entry], callback seen entry)

def Wal.replayStream (callback : Option WalCallback) (wal : Wal) :
    (Except ErrorCode Unit × List WalEntry) × Wal :=
  match callback with
  | none => ((.error .invalidArg, []), wal)
  | some callback =>
      match seekSet wal.fd kFileHeaderSize with
      | (none, fd) => ((.error .internal, []), { wal with fd := fd })
      | (some _, fd) =>
          match readEntries (deliver callback) (loopBound fd) [] fd with
          | (outcome, fd) => (outcome, { wal with fd := fd })

def keepEntry (keepSequence : UInt64) (kept : List WalEntry × UInt64) (entry : WalEntry) :
    List WalEntry × UInt64 :=
  if keepSequence ≤ entry.seq then
    (kept.1 ++ [entry], kept.2 + (UInt64.ofNat kEntryHeaderSize +
      UInt64.ofNat entry.action.length + UInt64.ofNat entry.payload.length))
  else kept

def Wal.writeEntries : List WalEntry → Wal → Except ErrorCode Unit × Wal
  | [], wal => (.ok (), wal)
  | entry :: rest, wal =>
      match wal.writeEntry entry with
      | (.error code, wal) => (.error code, wal)
      | (.ok _, wal) => Wal.writeEntries rest wal

def Wal.truncate (keepSequence : UInt64) (wal : Wal) : Except ErrorCode Unit × Wal :=
  match seekSet wal.fd kFileHeaderSize with
  | (none, fd) => (.error .internal, { wal with fd := fd })
  | (some _, fd) =>
      match readEntries (fun kept entry => (keepEntry keepSequence kept entry, true))
          (loopBound fd) ([], UInt64.ofNat kFileHeaderSize) fd with
      | ((.error code, _), fd) => (.error code, { wal with fd := fd })
      | ((.ok _, (kept, keptBytes)), fd) =>
          match ftruncateWrapped fd kFileHeaderSize with
          | (none, fd) => (.error .internal, { wal with fd := fd })
          | (some _, fd) =>
              if kept.isEmpty then
                (.ok (), { wal with
                  fd := fd
                  entryCount := 0
                  sizeBytes := UInt64.ofNat kFileHeaderSize })
              else
                match seekSet fd kFileHeaderSize with
                | (none, fd) => (.error .internal, { wal with fd := fd })
                | (some _, fd) =>
                    match Wal.writeEntries kept { wal with fd := fd } with
                    | (.error code, wal) => (.error code, wal)
                    | (.ok _, wal) =>
                        (.ok (), { wal with
                          entryCount := UInt64.ofNat kept.length
                          sizeBytes := keptBytes })

def Wal.truncateAll (wal : Wal) : Except ErrorCode Unit × Wal :=
  match ftruncateWrapped wal.fd kFileHeaderSize with
  | (none, fd) => (.error .internal, { wal with fd := fd })
  | (some _, fd) =>
      match seekSet fd kFileHeaderSize with
      | (none, fd) => (.error .internal, { wal with fd := fd })
      | (some _, fd) =>
          (.ok (), { wal with
            fd := fd
            entryCount := 0
            sizeBytes := UInt64.ofNat kFileHeaderSize })

end Udaf
