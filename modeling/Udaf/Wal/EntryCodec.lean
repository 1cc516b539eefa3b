import Udaf.Lib.FrameLog
import Udaf.Wal.FileOps

/-!
The bytes of one entry as a frame. `decodeEntry` is what `read_entry` computes from
the bytes at its position when no read fails.
-/

namespace Udaf

open ByteString Posix FrameLog

def takeExact (size : Nat) (bytes : Bytes) : Option Bytes :=
  if (bytes.take size).length = size then some (bytes.take size) else none

def decodeEntry (bytes : Bytes) : Except ErrorCode (WalEntry × Nat) :=
  let header := bytes.take kEntryHeaderSize
  if header.length < kEntryHeaderSize then .error .protocolTruncatedBuffer
  else if field header 0 4 ≠ kFileMagic.toNat then .error .serializeVersionMismatch
  else if field header 4 4 ≠ kSchemaVersion.toNat then .error .serializeVersionMismatch
  else
    let actLen := field header 25 4
    let payLen := field header 29 4
    match takeExact actLen (bytes.drop kEntryHeaderSize) with
    | none => .error .protocolTruncatedBuffer
    | some action =>
        match takeExact payLen (bytes.drop (kEntryHeaderSize + actLen)) with
        | none => .error .protocolTruncatedBuffer
        | some payload =>
            if (checksum (header.take 36) action payload).toNat ≠ field header 36 4 then
              .error .serializeDecodeFailed
            else .ok (entryOf header action payload, kEntryHeaderSize + actLen + payLen)

structure Storable (entry : WalEntry) : Prop where
  schema : entry.schemaVersion = kSchemaVersion
  action : entry.action.length < 2 ^ 32
  payload : entry.payload.length < 2 ^ 32

def encodeEntry (entry : WalEntry) : Bytes :=
  entryHeader entry ++ storedAction entry ++ storedPayload entry

theorem field_here {width value : Nat} (rest : Bytes) (bound : value < 256 ^ width) :
    field (leBytes width value ++ rest) 0 width = value := by
  simp only [field, List.drop_zero, List.take_left' (leBytes_length width value)]
  exact leNat_leBytes width value bound

theorem field_skip {front : Bytes} {start : Nat} (rest : Bytes) (width : Nat)
    (before : front.length ≤ start) :
    field (front ++ rest) start width = field rest (start - front.length) width := by
  simp [field, List.drop_append, List.drop_eq_nil_of_le before]

@[simp] theorem headerPrefix_length (entry : WalEntry) : (headerPrefix entry).length = 36 := by
  simp [headerPrefix]

@[simp] theorem entryHeader_length (entry : WalEntry) : (entryHeader entry).length = 40 := by
  simp [entryHeader]

theorem length32_lt (bytes : Bytes) : length32 bytes < 256 ^ 4 := by
  simp only [length32]
  omega

@[simp] theorem storedAction_length (entry : WalEntry) :
    (storedAction entry).length = length32 entry.action := by
  simp only [storedAction, List.length_take, length32]
  exact Nat.min_eq_left (Nat.mod_le _ _)

@[simp] theorem storedPayload_length (entry : WalEntry) :
    (storedPayload entry).length = length32 entry.payload := by
  simp only [storedPayload, List.length_take, length32]
  exact Nat.min_eq_left (Nat.mod_le _ _)

theorem encodeEntry_length (entry : WalEntry) :
    (encodeEntry entry).length = 40 + length32 entry.action + length32 entry.payload := by
  simp only [encodeEntry, List.length_append, entryHeader_length, storedAction_length,
    storedPayload_length]

theorem entryHeader_fields (entry : WalEntry) :
    field (entryHeader entry) 0 4 = kFileMagic.toNat ∧
      field (entryHeader entry) 4 4 = entry.schemaVersion.toNat ∧
      field (entryHeader entry) 8 8 = entry.seq.toNat ∧
      field (entryHeader entry) 16 8 = entry.timestampNs.toUInt64.toNat ∧
      field (entryHeader entry) 24 1 = entry.type.value.toNat ∧
      field (entryHeader entry) 25 4 = length32 entry.action ∧
      field (entryHeader entry) 29 4 = length32 entry.payload ∧
      field (entryHeader entry) 36 4 =
        (checksum (headerPrefix entry) (storedAction entry) (storedPayload entry)).toNat := by
  have word (value : UInt32) : value.toNat < 256 ^ 4 := value.toNat_lt
  have long (value : UInt64) : value.toNat < 256 ^ 8 := value.toNat_lt
  -- the checksum mentions the prefix again, so it is put away while the prefix is laid out
  obtain ⟨tail, layout⟩ : ∃ tail, entryHeader entry = leBytes 4 kFileMagic.toNat ++
      (leBytes 4 entry.schemaVersion.toNat ++ (leBytes 8 entry.seq.toNat ++
      (leBytes 8 entry.timestampNs.toUInt64.toNat ++ ([entry.type.value] ++
      (leBytes 4 (length32 entry.action) ++ (leBytes 4 (length32 entry.payload) ++ tail)))))) :=
    ⟨_, by simp only [entryHeader, headerPrefix, List.append_assoc]; rfl⟩
  refine ⟨?_, ?_, ?_, ?_, ?_, ?_, ?_, ?_⟩
  · rw [layout]
    exact field_here _ (word kFileMagic)
  · rw [layout]
    simpa [field_skip] using field_here _ (word entry.schemaVersion)
  · rw [layout]
    simpa [field_skip] using field_here _ (long entry.seq)
  · rw [layout]
    simpa [field_skip] using field_here _ (long entry.timestampNs.toUInt64)
  · rw [layout, field_skip _ _ (by simp), field_skip _ _ (by simp), field_skip _ _ (by simp),
      field_skip _ _ (by simp)]
    simp [field, leNat]
  · rw [layout, field_skip _ _ (by simp), field_skip _ _ (by simp), field_skip _ _ (by simp),
      field_skip _ _ (by simp), field_skip _ _ (by simp)]
    simpa using field_here _ (length32_lt entry.action)
  · rw [layout, field_skip _ _ (by simp), field_skip _ _ (by simp), field_skip _ _ (by simp),
      field_skip _ _ (by simp), field_skip _ _ (by simp), field_skip _ _ (by simp)]
    simpa using field_here _ (length32_lt entry.payload)
  · rw [entryHeader, field_skip _ _ (by simp)]
    simpa using field_here [] (word (checksum (headerPrefix entry) (storedAction entry)
      (storedPayload entry)))

theorem decodeEntry_header {entry : WalEntry} (schema : entry.schemaVersion = kSchemaVersion)
    (rest : Bytes) :
    decodeEntry (entryHeader entry ++ rest) =
      match takeExact (length32 entry.action) rest with
      | none => .error .protocolTruncatedBuffer
      | some action =>
          match takeExact (length32 entry.payload) (rest.drop (length32 entry.action)) with
          | none => .error .protocolTruncatedBuffer
          | some payload =>
              if checksum (headerPrefix entry) action payload ≠
                  checksum (headerPrefix entry) (storedAction entry) (storedPayload entry) then
                .error .serializeDecodeFailed
              else .ok ({ entry with action := action, payload := payload },
                kEntryHeaderSize + length32 entry.action + length32 entry.payload) := by
  obtain ⟨magic, version, seq, time, type, actLen, payLen, sum⟩ := entryHeader_fields entry
  have header : (entryHeader entry ++ rest).take kEntryHeaderSize = entryHeader entry :=
    List.take_left' (entryHeader_length entry)
  have covered : (entryHeader entry).take 36 = headerPrefix entry := by
    rw [entryHeader]
    exact List.take_left' (headerPrefix_length entry)
  have behind : (entryHeader entry ++ rest).drop kEntryHeaderSize = rest :=
    List.drop_left' (entryHeader_length entry)
  have further : (entryHeader entry ++ rest).drop (kEntryHeaderSize + length32 entry.action) =
      rest.drop (length32 entry.action) := by
    rw [← List.drop_drop, behind]
  have rebuilt (action payload : Bytes) : entryOf (entryHeader entry) action payload =
      { entry with action := action, payload := payload } := by
    simp [entryOf, version, seq, time, type]
  simp only [decodeEntry, header, entryHeader_length, magic, version, schema, actLen, payLen,
    covered, behind, further, sum, rebuilt, ne_eq, not_true_eq_false, if_false, UInt32.toNat_inj,
    show ¬ 40 < kEntryHeaderSize by decide]

theorem takeExact_front {front : Bytes} {size : Nat} (rest : Bytes) (length : front.length = size) :
    takeExact size (front ++ rest) = some front := by
  simp [takeExact, List.take_left' length, length]

theorem takeExact_short {bytes : Bytes} {size : Nat} (short : bytes.length < size) :
    takeExact size bytes = none := by
  simp only [takeExact, List.length_take]
  exact if_neg (by omega)

theorem storedAction_of_storable {entry : WalEntry} (storable : Storable entry) :
    storedAction entry = entry.action := by
  simp only [storedAction, length32, Nat.mod_eq_of_lt storable.action, List.take_length]

theorem storedPayload_of_storable {entry : WalEntry} (storable : Storable entry) :
    storedPayload entry = entry.payload := by
  simp only [storedPayload, length32, Nat.mod_eq_of_lt storable.payload, List.take_length]

theorem decodeEntry_encodeEntry {entry : WalEntry} (rest : Bytes) (storable : Storable entry) :
    decodeEntry (encodeEntry entry ++ rest) = .ok (entry, (encodeEntry entry).length) := by
  have action := takeExact_front (storedPayload entry ++ rest) (storedAction_length entry)
  have payload := takeExact_front rest (storedPayload_length entry)
  rw [encodeEntry_length, encodeEntry, List.append_assoc, List.append_assoc,
    decodeEntry_header storable.schema, List.drop_left' (storedAction_length entry), action, payload]
  simp only [ne_eq, not_true_eq_false, if_false, storedAction_of_storable storable,
    storedPayload_of_storable storable]
  rfl

theorem decodeEntry_torn {entry : WalEntry} {count : Nat} (storable : Storable entry)
    (short : count < (encodeEntry entry).length) :
    decodeEntry ((encodeEntry entry).take count) = .error .protocolTruncatedBuffer := by
  rw [encodeEntry_length] at short
  by_cases inHeader : count < 40
  · have header : (((encodeEntry entry).take count).take kEntryHeaderSize).length <
        kEntryHeaderSize := by
      simp only [List.length_take, encodeEntry_length, kEntryHeaderSize]
      omega
    simp only [decodeEntry, header, if_true]
  · have cut : (encodeEntry entry).take count = entryHeader entry ++
        (storedAction entry ++ storedPayload entry).take (count - 40) := by
      rw [encodeEntry, List.append_assoc, List.take_append, entryHeader_length,
        List.take_of_length_le (by simp only [entryHeader_length]; omega)]
    rw [cut, decodeEntry_header storable.schema]
    by_cases inAction : count - 40 < length32 entry.action
    · rw [takeExact_short (by simp only [List.length_take]; omega)]
    · have tail : (storedAction entry ++ storedPayload entry).take (count - 40) =
          storedAction entry ++ (storedPayload entry).take (count - 40 - length32 entry.action) := by
        rw [List.take_append, storedAction_length,
          List.take_of_length_le (by simp only [storedAction_length]; omega)]
      rw [tail, takeExact_front _ (storedAction_length entry),
        List.drop_left' (storedAction_length entry),
        takeExact_short (by simp only [List.length_take]; omega)]

theorem takeExact_some {bytes front : Bytes} {size : Nat} (found : takeExact size bytes = some front) :
    bytes.take size = front ∧ front.length = size := by
  simp only [takeExact] at found
  split at found
  · rename_i whole
    cases found
    exact ⟨rfl, whole⟩
  · cases found

structure Laid (bytes header action payload : Bytes) : Prop where
  front : bytes.take kEntryHeaderSize = header
  whole : header.length = kEntryHeaderSize
  actionAt : (bytes.drop kEntryHeaderSize).take (field header 25 4) = action
  actionWhole : action.length = field header 25 4
  payloadAt : (bytes.drop (kEntryHeaderSize + field header 25 4)).take (field header 29 4) = payload
  payloadWhole : payload.length = field header 29 4

theorem Laid.decode {bytes header action payload : Bytes} (laid : Laid bytes header action payload) :
    decodeEntry bytes =
      if field header 0 4 ≠ kFileMagic.toNat then .error .serializeVersionMismatch
      else if field header 4 4 ≠ kSchemaVersion.toNat then .error .serializeVersionMismatch
      else if (checksum (header.take 36) action payload).toNat ≠ field header 36 4 then
        .error .serializeDecodeFailed
      else .ok (entryOf header action payload,
        kEntryHeaderSize + field header 25 4 + field header 29 4) := by
  have actionRead : takeExact (field header 25 4) (bytes.drop kEntryHeaderSize) = some action := by
    rw [takeExact, laid.actionAt, if_pos laid.actionWhole]
  have payloadRead : takeExact (field header 29 4)
      (bytes.drop (kEntryHeaderSize + field header 25 4)) = some payload := by
    rw [takeExact, laid.payloadAt, if_pos laid.payloadWhole]
  have whole : ¬ header.length < kEntryHeaderSize := by
    rw [laid.whole]
    exact Nat.lt_irrefl _
  simp only [decodeEntry, laid.front, if_neg whole, actionRead, payloadRead]

structure Decoded (bytes header : Bytes) (entry : WalEntry) (size : Nat) : Prop
    extends Laid bytes header entry.action entry.payload where
  magic : field header 0 4 = kFileMagic.toNat
  schema : field header 4 4 = kSchemaVersion.toNat
  sum : (checksum (header.take 36) entry.action entry.payload).toNat = field header 36 4
  parts : entry = entryOf header entry.action entry.payload
  length : size = kEntryHeaderSize + field header 25 4 + field header 29 4

theorem decodeEntry_ok {bytes : Bytes} {entry : WalEntry} {size : Nat}
    (found : decodeEntry bytes = .ok (entry, size)) :
    Decoded bytes (bytes.take kEntryHeaderSize) entry size := by
  simp only [decodeEntry] at found
  split at found
  · cases found
  rename_i whole
  split at found
  · cases found
  rename_i magic
  split at found
  · cases found
  rename_i schema
  split at found
  · cases found
  rename_i action actionRead
  split at found
  · cases found
  rename_i payload payloadRead
  split at found
  · cases found
  rename_i sum
  cases found
  obtain ⟨actionAt, actionWhole⟩ := takeExact_some actionRead
  obtain ⟨payloadAt, payloadWhole⟩ := takeExact_some payloadRead
  have length := List.length_take_le kEntryHeaderSize bytes
  exact ⟨⟨rfl, Nat.le_antisymm length (Nat.not_lt.mp whole), actionAt, actionWhole, payloadAt,
    payloadWhole⟩, not_not.mp magic, not_not.mp schema, not_not.mp sum, rfl, rfl⟩

theorem Decoded.inside {bytes header : Bytes} {entry : WalEntry} {size : Nat}
    (decoded : Decoded bytes header entry size) : size ≤ bytes.length := by
  have whole := decoded.whole
  have action := decoded.actionWhole
  have payload := decoded.payloadWhole
  rw [← decoded.front, List.length_take] at whole
  rw [← decoded.actionAt, List.length_take, List.length_drop] at action
  rw [← decoded.payloadAt, List.length_take, List.length_drop] at payload
  rw [decoded.length]
  omega

theorem decodeEntry_bound {bytes : Bytes} {entry : WalEntry} {size : Nat}
    (found : decodeEntry bytes = .ok (entry, size)) : 0 < size ∧ size ≤ bytes.length := by
  have decoded := decodeEntry_ok found
  refine ⟨?_, decoded.inside⟩
  rw [decoded.length, kEntryHeaderSize]
  omega

def entryCodec : Codec WalEntry ErrorCode where
  decode := decodeEntry
  encode := encodeEntry
  Valid := Storable
  torn := .protocolTruncatedBuffer
  decode_bound := decodeEntry_bound
  decode_encode := decodeEntry_encodeEntry
  decode_torn := decodeEntry_torn

end Udaf
