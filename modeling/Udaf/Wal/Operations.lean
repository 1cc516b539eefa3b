import Udaf.Wal.Traversal

/-!
`Holds wal log` ties the raw bytes of the file, the counters of the object and a
list of entries together. Each operation is described once, by what it does to
an object that holds a log while every call completes.
-/

namespace Udaf

open ByteString Posix FrameLog

def walBytes (log : List WalEntry) : Bytes := fileHeader ++ encodeAll entryCodec log

structure Holds (wal : Wal) (log : List WalEntry) : Prop where
  quiet : wal.fd.faults = []
  bytes : wal.fd.bytes = walBytes log
  storable : ∀ entry ∈ log, Storable entry
  size : wal.sizeBytes.toNat = wal.fd.bytes.length
  count : wal.entryCount.toNat = log.length
  offsets : wal.fd.bytes.length < 2 ^ 63

@[simp] theorem fileHeader_length : fileHeader.length = 16 := by
  simp [fileHeader]

theorem walBytes_length (log : List WalEntry) :
    (walBytes log).length = 16 + (encodeAll entryCodec log).length := by
  simp [walBytes]

theorem walBytes_drop (log : List WalEntry) :
    (walBytes log).drop kFileHeaderSize = encodeAll entryCodec log :=
  List.drop_left' fileHeader_length

theorem walBytes_append (log more : List WalEntry) :
    walBytes (log ++ more) = walBytes log ++ encodeAll entryCodec more := by
  simp [walBytes]

theorem length_le_encodeAll (log : List WalEntry) :
    40 * log.length ≤ (encodeAll entryCodec log).length := by
  induction log with
  | nil => simp
  | cons entry log ih =>
      have entrySize : 40 ≤ (entryCodec.encode entry).length := by
        simp only [entryCodec, encodeEntry_length]
        omega
      simp only [encodeAll_cons, List.length_append, List.length_cons]
      omega

theorem Holds.scan_entries {wal : Wal} {log : List WalEntry} (holds : Holds wal log) :
    scan entryCodec (wal.fd.bytes.drop kFileHeaderSize) = (log, none) := by
  rw [holds.bytes, walBytes_drop]
  exact scan_encodeAll entryCodec holds.storable

theorem Holds.length_lt {wal : Wal} {log : List WalEntry} (holds : Holds wal log) :
    log.length < 2 ^ 63 := by
  have bound := holds.offsets
  have entries := length_le_encodeAll log
  rw [holds.bytes, walBytes_length] at bound
  omega

theorem Holds.entryCount_eq {wal : Wal} {log : List WalEntry} (holds : Holds wal log) :
    wal.entryCount = UInt64.ofNat log.length := by
  apply UInt64.toNat_inj.mp
  have bound := holds.length_lt
  rw [holds.count, UInt64.toNat_ofNat']
  omega

theorem Holds.sizeBytes_eq {wal : Wal} {log : List WalEntry} (holds : Holds wal log) :
    wal.sizeBytes = UInt64.ofNat wal.fd.bytes.length := by
  apply UInt64.toNat_inj.mp
  have bound := holds.offsets
  rw [holds.size, UInt64.toNat_ofNat']
  omega

theorem Holds.seek {wal : Wal} {log : List WalEntry} (holds : Holds wal log) (pos : Nat) :
    Holds { wal with fd := { wal.fd with pos := pos } } log :=
  ⟨holds.quiet, holds.bytes, holds.storable, holds.size, holds.count, holds.offsets⟩

theorem holds_of_bytes {wal : Wal} {log : List WalEntry} (quiet : wal.fd.faults = [])
    (bytes : wal.fd.bytes = walBytes log) (storable : ∀ entry ∈ log, Storable entry)
    (size : wal.sizeBytes = UInt64.ofNat (walBytes log).length)
    (count : wal.entryCount = UInt64.ofNat log.length)
    (offsets : (walBytes log).length < 2 ^ 63) : Holds wal log := by
  have entries := length_le_encodeAll log
  have total := walBytes_length log
  refine ⟨quiet, bytes, storable, ?_, ?_, by rw [bytes]; exact offsets⟩
  · rw [size, bytes, UInt64.toNat_ofNat']
    omega
  · rw [count, UInt64.toNat_ofNat']
    omega

/-! Reading. -/

theorem readEntries_start {σ : Type} (visit : σ → WalEntry → σ × Bool) (acc : σ) {fd : File}
    (quiet : fd.faults = []) :
    ∃ pos, readEntries visit (loopBound { fd with pos := kFileHeaderSize }) acc
        { fd with pos := kFileHeaderSize } =
      (visitAll visit acc (scan entryCodec (fd.bytes.drop kFileHeaderSize)),
        { fd with pos := pos }) := by
  have enough : fd.bytes.length - kFileHeaderSize < loopBound { fd with pos := kFileHeaderSize } := by
    simp only [loopBound]
    omega
  obtain ⟨pos, -, loop⟩ := @readEntries_quiet σ visit _ acc { fd with pos := kFileHeaderSize }
    quiet (Nat.le_refl _) enough
  exact ⟨pos, loop⟩

theorem foldl_snoc (seen entries : List WalEntry) :
    entries.foldl (fun out entry => out ++ [entry]) seen = seen ++ entries := by
  induction entries generalizing seen with
  | nil => simp
  | cons entry entries ih => simp [ih]

theorem replay_holds {wal : Wal} {log : List WalEntry} (holds : Holds wal log) :
    ∃ pos, wal.replay = (.ok log, { wal with fd := { wal.fd with pos := pos } }) := by
  obtain ⟨pos, loop⟩ := readEntries_start (fun out entry => (out ++ [entry], true)) [] holds.quiet
  refine ⟨pos, ?_⟩
  simp only [Wal.replay, seekSet_quiet holds.quiet, loop, holds.scan_entries, visitAll_fold,
    foldl_snoc, List.nil_append, ended, ← holds.entryCount_eq]

theorem replay_scan {wal : Wal} (quiet : wal.fd.faults = []) {entries : List WalEntry}
    {stop : Option ErrorCode}
    (scanned : scan entryCodec (wal.fd.bytes.drop kFileHeaderSize) = (entries, stop)) :
    wal.replay.1 = (ended stop).map fun _ => entries := by
  obtain ⟨pos, loop⟩ := readEntries_start (fun out entry => (out ++ [entry], true)) [] quiet
  rw [scanned, visitAll_fold, foldl_snoc, List.nil_append] at loop
  simp only [Wal.replay, seekSet_quiet quiet, loop]
  cases stop with
  | none => rfl
  | some code => rfl

theorem replay_ok {wal : Wal} (quiet : wal.fd.faults = []) {entries : List WalEntry} :
    wal.replay.1 = .ok entries ↔
      scan entryCodec (wal.fd.bytes.drop kFileHeaderSize) = (entries, none) := by
  cases scanned : scan entryCodec (wal.fd.bytes.drop kFileHeaderSize) with
  | mk met stop =>
      rw [replay_scan quiet scanned]
      cases stop with
      | none => simp [ended, Except.map]
      | some code => simp [ended, Except.map]

theorem replay_error {wal : Wal} (quiet : wal.fd.faults = []) {code : ErrorCode} :
    wal.replay.1 = .error code ↔
      ∃ entries, scan entryCodec (wal.fd.bytes.drop kFileHeaderSize) = (entries, some code) := by
  cases scanned : scan entryCodec (wal.fd.bytes.drop kFileHeaderSize) with
  | mk met stop =>
      rw [replay_scan quiet scanned]
      cases stop with
      | none => simp [ended, Except.map]
      | some code => simp [ended, Except.map]

theorem replayStream_quiet {wal : Wal} (quiet : wal.fd.faults = []) (callback : WalCallback) :
    ∃ pos, wal.replayStream (some callback) =
      (visitAll (deliver callback) [] (scan entryCodec (wal.fd.bytes.drop kFileHeaderSize)),
        { wal with fd := { wal.fd with pos := pos } }) := by
  obtain ⟨pos, loop⟩ := readEntries_start (deliver callback) [] quiet
  exact ⟨pos, by simp only [Wal.replayStream, seekSet_quiet quiet, loop]⟩

def always : WalCallback := fun _ _ => true

theorem replayStream_always {wal : Wal} (quiet : wal.fd.faults = []) {entries : List WalEntry}
    {stop : Option ErrorCode}
    (scanned : scan entryCodec (wal.fd.bytes.drop kFileHeaderSize) = (entries, stop)) :
    (wal.replayStream (some always)).1 = (ended stop, entries) := by
  obtain ⟨pos, stream⟩ := replayStream_quiet quiet always
  rw [stream, scanned]
  have fold := visitAll_fold (fun out entry => out ++ [entry]) [] entries stop
  rw [foldl_snoc] at fold
  exact fold

/-! Writing. -/

def Wal.nextEntry (wal : Wal) (timestamp : Int64) (type : WalEntryType) (action payload : Bytes) :
    WalEntry where
  seq := wal.nextSeq
  timestampNs := timestamp
  type := type
  action := action
  payload := payload

def Wal.Refuses (wal : Wal) (action payload : Bytes) : Prop :=
  (0 < wal.config.maxEntries ∧ wal.config.maxEntries.toUInt64 ≤ wal.entryCount) ∨
    (0 < wal.config.maxSizeBytes ∧
      wal.config.maxSizeBytes < wal.sizeBytes + UInt64.ofNat kEntryHeaderSize +
        UInt64.ofNat action.length + UInt64.ofNat payload.length)

theorem append_refused {wal : Wal} {action payload : Bytes} (refused : wal.Refuses action payload)
    (timestamp : Int64) (type : WalEntryType) :
    wal.append timestamp type action payload = (.error .resDiskFull, wal) := by
  have restored : wal.nextSeq + 1 - 1 = wal.nextSeq := by simp
  simp only [Wal.append, restored]
  by_cases full : 0 < wal.config.maxEntries ∧ wal.config.maxEntries.toUInt64 ≤ wal.entryCount
  · rw [if_pos full]
  · rw [if_neg full, if_pos (refused.resolve_left full)]

theorem append_accepted {wal : Wal} {action payload : Bytes} (quiet : wal.fd.faults = [])
    (accepted : ¬ wal.Refuses action payload) (timestamp : Int64) (type : WalEntryType) :
    wal.append timestamp type action payload = (.ok wal.nextSeq, { wal with
      fd := { wal.fd with
        bytes := wal.fd.bytes ++ encodeEntry (wal.nextEntry timestamp type action payload)
        pos := wal.fd.bytes.length }
      nextSeq := wal.nextSeq + 1
      sizeBytes := wal.sizeBytes +
        UInt64.ofNat (encodeEntry (wal.nextEntry timestamp type action payload)).length
      entryCount := wal.entryCount + 1 }) := by
  have written := @writeEntry_quiet { wal with nextSeq := wal.nextSeq + 1 } quiet
    (wal.nextEntry timestamp type action payload)
  simp only [Wal.nextEntry] at written
  simp only [Wal.append, if_neg (fun full => accepted (.inl full)),
    if_neg (fun large => accepted (.inr large)), written, Wal.nextEntry]
  cases wal.config.fsyncOnAppend with
  | true => simp only [if_true, fsync_quiet, quiet]
  | false => rfl

def storedEntry (entry : WalEntry) : WalEntry :=
  { entry with action := storedAction entry, payload := storedPayload entry }

theorem storedEntry_storable {entry : WalEntry} (schema : entry.schemaVersion = kSchemaVersion) :
    Storable (storedEntry entry) := by
  have action := length32_lt entry.action
  have payload := length32_lt entry.payload
  exact ⟨schema, by simpa [storedEntry] using action, by simpa [storedEntry] using payload⟩

theorem encodeEntry_stored {entry : WalEntry} (schema : entry.schemaVersion = kSchemaVersion) :
    encodeEntry (storedEntry entry) = encodeEntry entry := by
  have storable := storedEntry_storable schema
  have action : length32 (storedEntry entry).action = length32 entry.action := by
    simp [storedEntry, length32]
  have payload : length32 (storedEntry entry).payload = length32 entry.payload := by
    simp [storedEntry, length32]
  have front : headerPrefix (storedEntry entry) = headerPrefix entry := by
    simp only [headerPrefix, action, payload]
    rfl
  simp only [encodeEntry, entryHeader, front, storedAction_of_storable storable,
    storedPayload_of_storable storable]
  rfl

theorem storedEntry_of_storable {entry : WalEntry} (storable : Storable entry) :
    storedEntry entry = entry := by
  simp [storedEntry, storedAction_of_storable storable, storedPayload_of_storable storable]

theorem append_holds {wal : Wal} {log : List WalEntry} (holds : Holds wal log)
    {action payload : Bytes} (accepted : ¬ wal.Refuses action payload) (timestamp : Int64)
    (type : WalEntryType)
    (offsets : (wal.append timestamp type action payload).2.fd.bytes.length < 2 ^ 63) :
    Holds (wal.append timestamp type action payload).2
      (log ++ [storedEntry (wal.nextEntry timestamp type action payload)]) := by
  rw [append_accepted holds.quiet accepted] at offsets ⊢
  generalize entryIs : wal.nextEntry timestamp type action payload = entry at offsets ⊢
  have schema : entry.schemaVersion = kSchemaVersion := by rw [← entryIs]; rfl
  have bytes : wal.fd.bytes ++ encodeEntry entry = walBytes (log ++ [storedEntry entry]) := by
    rw [walBytes_append, holds.bytes]
    simp [entryCodec, encodeEntry_stored schema]
  refine holds_of_bytes holds.quiet bytes ?_ ?_ ?_ (by rw [← bytes]; exact offsets)
  · intro other member
    rcases List.mem_append.mp member with old | new
    · exact holds.storable other old
    · rw [List.mem_singleton.mp new]
      exact storedEntry_storable schema
  · simp only [← bytes, List.length_append, UInt64.ofNat_add, holds.sizeBytes_eq]
  · simp only [List.length_append, List.length_singleton, UInt64.ofNat_add, holds.entryCount_eq]
    rfl

/-! Cutting. -/

def keeps (keepSequence : UInt64) (entry : WalEntry) : Bool := keepSequence ≤ entry.seq

theorem storable_length {entry : WalEntry} (storable : Storable entry) :
    UInt64.ofNat (encodeEntry entry).length = UInt64.ofNat kEntryHeaderSize +
      UInt64.ofNat entry.action.length + UInt64.ofNat entry.payload.length := by
  rw [encodeEntry_length, length32, length32, Nat.mod_eq_of_lt storable.action,
    Nat.mod_eq_of_lt storable.payload, UInt64.ofNat_add, UInt64.ofNat_add]
  rfl

theorem foldl_keepEntry (keepSequence : UInt64) {log : List WalEntry}
    (storable : ∀ entry ∈ log, Storable entry) (kept : List WalEntry) (keptBytes : UInt64) :
    log.foldl (keepEntry keepSequence) (kept, keptBytes) =
      (kept ++ log.filter (keeps keepSequence), keptBytes + UInt64.ofNat
        (encodeAll entryCodec (log.filter (keeps keepSequence))).length) := by
  induction log generalizing kept keptBytes with
  | nil => simp
  | cons entry log ih =>
      have rest : ∀ other ∈ log, Storable other := fun other member => storable other (by simp [member])
      have length := storable_length (storable entry (by simp))
      by_cases keep : keepSequence ≤ entry.seq
      · rw [List.foldl_cons, keepEntry, if_pos keep, ih rest, List.filter_cons_of_pos (by simpa [keeps]),
          encodeAll_cons, List.length_append, UInt64.ofNat_add, ← UInt64.add_assoc,
          show entryCodec.encode entry = encodeEntry entry from rfl, length]
        simp [UInt64.add_assoc]
      · rw [List.foldl_cons, keepEntry, if_neg keep, ih rest,
          List.filter_cons_of_neg (by simpa [keeps] using keep)]

theorem resize_walBytes (log : List WalEntry) : resize (walBytes log) kFileHeaderSize = walBytes [] := by
  have cut := resize_append_left fileHeader (encodeAll entryCodec log)
  rw [fileHeader_length] at cut
  simpa [walBytes, kFileHeaderSize] using cut

theorem filter_length_le (keepSequence : UInt64) (log : List WalEntry) :
    (walBytes (log.filter (keeps keepSequence))).length ≤ (walBytes log).length := by
  rw [walBytes_length, walBytes_length]
  have shorter : (encodeAll entryCodec (log.filter (keeps keepSequence))).length ≤
      (encodeAll entryCodec log).length := by
    induction log with
    | nil => simp
    | cons entry log ih =>
        by_cases keep : keeps keepSequence entry
        · rw [List.filter_cons_of_pos keep, encodeAll_cons, encodeAll_cons, List.length_append,
            List.length_append]
          omega
        · rw [List.filter_cons_of_neg keep, encodeAll_cons, List.length_append]
          omega
  omega

theorem walBytes_nil_length : UInt64.ofNat (walBytes []).length = UInt64.ofNat kFileHeaderSize := by
  simp [walBytes, kFileHeaderSize]

theorem truncate_holds {wal : Wal} {log : List WalEntry} (holds : Holds wal log)
    (keepSequence : UInt64) :
    (wal.truncate keepSequence).1 = .ok () ∧
      Holds (wal.truncate keepSequence).2 (log.filter (keeps keepSequence)) ∧
      (wal.truncate keepSequence).2.nextSeq = wal.nextSeq ∧
      (wal.truncate keepSequence).2.config = wal.config := by
  obtain ⟨pos, loop⟩ := readEntries_start
    (fun kept entry => (keepEntry keepSequence kept entry, true))
    ([], UInt64.ofNat kFileHeaderSize) holds.quiet
  rw [holds.scan_entries, visitAll_fold, foldl_keepEntry keepSequence holds.storable,
    List.nil_append] at loop
  have storable : ∀ entry ∈ log.filter (keeps keepSequence), Storable entry :=
    fun entry member => holds.storable entry (List.mem_filter.mp member).1
  have offsets : (walBytes (log.filter (keeps keepSequence))).length < 2 ^ 63 := by
    have bound := holds.offsets
    have shorter := filter_length_le keepSequence log
    rw [holds.bytes] at bound
    omega
  have cut : resize wal.fd.bytes kFileHeaderSize = walBytes [] := by
    rw [holds.bytes, resize_walBytes]
  have shrunk := @ftruncateWrapped_quiet { wal.fd with pos := pos } holds.quiet kFileHeaderSize
  simp only [cut] at shrunk
  by_cases nothing : log.filter (keeps keepSequence) = []
  · simp only [Wal.truncate, seekSet_quiet holds.quiet, loop, ended, shrunk, nothing,
      List.isEmpty_nil, if_true]
    refine ⟨trivial, ?_, trivial, trivial⟩
    exact holds_of_bytes holds.quiet rfl (by simp) walBytes_nil_length.symm rfl
      (by simp [walBytes])
  · have back := @seekSet_quiet { wal.fd with bytes := walBytes [], pos := pos } holds.quiet
      kFileHeaderSize
    obtain ⟨final, size, count, rewritten⟩ := @writeEntries_quiet
      { wal with fd := { wal.fd with bytes := walBytes [], pos := kFileHeaderSize } } holds.quiet
      (log.filter (keeps keepSequence))
    simp only [Wal.truncate, seekSet_quiet holds.quiet, loop, ended, shrunk,
      List.isEmpty_iff, nothing, if_false, back, rewritten]
    refine ⟨trivial, ?_, trivial, trivial⟩
    refine holds_of_bytes holds.quiet (walBytes_append [] _).symm storable ?_ rfl offsets
    simp only [walBytes_length, UInt64.ofNat_add]
    rfl

theorem truncateAll_holds {wal : Wal} {log : List WalEntry} (holds : Holds wal log) :
    wal.truncateAll.1 = .ok () ∧ Holds wal.truncateAll.2 [] ∧
      wal.truncateAll.2.nextSeq = wal.nextSeq ∧ wal.truncateAll.2.config = wal.config := by
  have cut : resize wal.fd.bytes kFileHeaderSize = walBytes [] := by
    rw [holds.bytes, resize_walBytes]
  simp only [Wal.truncateAll, ftruncateWrapped_quiet holds.quiet, seekSet_quiet, holds.quiet, cut]
  refine ⟨trivial, ?_, trivial, trivial⟩
  exact holds_of_bytes rfl rfl (by simp) walBytes_nil_length.symm rfl (by simp [walBytes])

theorem fsync_holds {wal : Wal} {log : List WalEntry} (holds : Holds wal log) :
    wal.fsync = (.ok (), wal) := by
  simp only [Wal.fsync, fsync_quiet holds.quiet]

/-! Opening. -/

theorem makeParent_quiet (config : WalConfig) {disk : Disk} (quiet : disk.faults = []) :
    makeParent config disk = (true, disk) := by
  simp [makeParent, quiet]

def freshWal (config : WalConfig) (appendMode : Bool) : Wal where
  config := config
  fd := ⟨fileHeader, 0, appendMode, []⟩
  sizeBytes := UInt64.ofNat kFileHeaderSize

theorem create_fresh (config : WalConfig) (appendMode : Bool) :
    (Wal.create config ⟨none, appendMode, []⟩).1 = .ok (freshWal config appendMode) := by
  have opened : openWalFile ⟨none, appendMode, []⟩ true =
      (some ⟨[], 0, appendMode, []⟩, ⟨some [], appendMode, []⟩) := rfl
  have written := @writeAt_quiet ⟨[], 0, appendMode, []⟩ 0 rfl fileHeader rfl
  simp only [Wal.create, makeParent_quiet, Option.isSome_none, Bool.not_false, opened,
    Wal.writeFileHeader, written, fileHeader_length, kFileHeaderSize, List.nil_append,
    Bool.false_eq_true, if_false, if_true]
  rfl

theorem holds_fresh (config : WalConfig) (appendMode : Bool) :
    Holds (freshWal config appendMode) [] :=
  holds_of_bytes rfl (by simp [freshWal, walBytes]) (by simp) walBytes_nil_length.symm rfl
    (by simp [walBytes])

theorem fileHeader_fields : field fileHeader 0 4 = kFileMagic.toNat ∧
    field fileHeader 4 4 = kSchemaVersion.toNat := by
  decide

def scanFrom (fd : File) : UInt64 × UInt64 :=
  (scanLoop (fd.bytes.length + 1) 0 0 { fd with pos := kFileHeaderSize }).1

def seqAfter (maxSeq : UInt64) : UInt64 := if maxSeq + 1 = 0 then 1 else maxSeq + 1

/-- Sixteen bytes that `read_file_header` takes for its own, whatever the last eight are. -/
structure ValidHeader (file : Bytes) : Prop where
  whole : kFileHeaderSize ≤ file.length
  magic : field (file.take kFileHeaderSize) 0 4 = kFileMagic.toNat
  schema : field (file.take kFileHeaderSize) 4 4 = kSchemaVersion.toNat

def openedWal (config : WalConfig) (file : Bytes) (appendMode : Bool) : Wal where
  config := config
  fd := ⟨file, kFileHeaderSize, appendMode, []⟩
  nextSeq := seqAfter (scanFrom ⟨file, 0, appendMode, []⟩).1
  sizeBytes := UInt64.ofNat file.length
  entryCount := (scanFrom ⟨file, 0, appendMode, []⟩).2

theorem create_valid (config : WalConfig) {file : Bytes} (valid : ValidHeader file)
    (appendMode : Bool) : (Wal.create config ⟨some file, appendMode, []⟩).1 =
      .ok (openedWal config file appendMode) := by
  have opened : openWalFile ⟨some file, appendMode, []⟩ false =
      (some ⟨file, 0, appendMode, []⟩, ⟨some file, appendMode, []⟩) := rfl
  have length : (file.take kFileHeaderSize).length = kFileHeaderSize := by
    rw [List.length_take, Nat.min_eq_left valid.whole]
  obtain ⟨found, pos, scanned⟩ := @scanLoop_frame (file.length + 1) 0 0
    ⟨file, kFileHeaderSize, appendMode, []⟩ rfl
  simp only [Wal.create, makeParent_quiet, Option.isSome_some, Bool.not_true, opened, if_true,
    Wal.readFileHeader, readAt_quiet, List.drop_zero, length, valid.magic, valid.schema, fstat_quiet,
    scanEntriesForMaxSeq, seekSet_quiet, scanned, scanFrom, lseekSet_quiet, seqAfter, openedWal,
    Nat.lt_irrefl, ne_eq, not_true_eq_false, if_false]

theorem fileHeader_valid (tail : Bytes) : ValidHeader (fileHeader ++ tail) := by
  have header : (fileHeader ++ tail).take kFileHeaderSize = fileHeader :=
    List.take_left' fileHeader_length
  refine ⟨?_, ?_, ?_⟩
  · rw [List.length_append, fileHeader_length, kFileHeaderSize]
    omega
  · rw [header]
    exact fileHeader_fields.1
  · rw [header]
    exact fileHeader_fields.2

theorem create_existing (config : WalConfig) (tail : Bytes) (appendMode : Bool) :
    (Wal.create config ⟨some (fileHeader ++ tail), appendMode, []⟩).1 = .ok {
      config := config
      fd := ⟨fileHeader ++ tail, kFileHeaderSize, appendMode, []⟩
      nextSeq := seqAfter (scanFrom ⟨fileHeader ++ tail, 0, appendMode, []⟩).1
      sizeBytes := UInt64.ofNat (fileHeader ++ tail).length
      entryCount := (scanFrom ⟨fileHeader ++ tail, 0, appendMode, []⟩).2 } :=
  create_valid config (fileHeader_valid tail) appendMode

theorem create_holds (config : WalConfig) {log : List WalEntry} (appendMode : Bool)
    (storable : ∀ entry ∈ log, Storable entry) (offsets : (walBytes log).length < 2 ^ 63) :
    ∃ wal, (Wal.create config ⟨some (walBytes log), appendMode, []⟩).1 = .ok wal ∧
      Holds wal log ∧ wal.nextSeq = seqAfter (maxSeqOf log) ∧ wal.config = config := by
  have enough : log.length < (walBytes log).length + 1 := by
    have entries := length_le_encodeAll log
    rw [walBytes_length]
    omega
  have scanned : scanFrom ⟨walBytes log, 0, appendMode, []⟩ =
      (maxSeqOf log, UInt64.ofNat log.length) := by
    have loop := @scanLoop_log log storable _ 0 0
      ⟨walBytes log, kFileHeaderSize, appendMode, []⟩ rfl (walBytes_drop log) enough
    simpa [scanFrom, maxSeqOf] using loop
  refine ⟨_, create_existing config (encodeAll entryCodec log) appendMode, ?_, ?_, rfl⟩
  · refine holds_of_bytes rfl rfl storable rfl ?_ offsets
    simp only
    rw [← walBytes, scanned]
  · simp only
    rw [← walBytes, scanned]

end Udaf
