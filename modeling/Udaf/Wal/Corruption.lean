import Udaf.Lib.Damage
import Udaf.Wal.History

/-!
One byte of an entry replaced by another. The header's own fields show it, or the checksum
does: every step of FNV-1a is injective, since its multiplier is odd.
-/

namespace Udaf

open ByteString Posix FrameLog Runs Damage

def fnvStep (hash : UInt32) (byte : UInt8) : UInt32 := (hash ^^^ byte.toUInt32) * 0x01000193

theorem fnvPrime_cancel {value other : UInt32} (same : value * 0x01000193 = other * 0x01000193) :
    value = other := by
  have inverse : (0x01000193 : UInt32) * 0x359C449B = 1 := by decide
  have product := congrArg (· * 0x359C449B) same
  simpa only [UInt32.mul_assoc, inverse, UInt32.mul_one] using product

theorem fnvStep_sensitive : Sensitive fnvStep := by
  refine ⟨?_, ?_⟩
  · intro byte hash other same
    exact (UInt32.xor_left_inj byte.toUInt32).mp (fnvPrime_cancel same)
  · intro hash byte other same
    exact UInt8.toUInt32_inj.mp ((UInt32.xor_right_inj hash).mp (fnvPrime_cancel same))

theorem fnv1a_differs {place : Nat} {bytes damaged : Bytes} (differs : Differs place bytes damaged) :
    fnv1a damaged ≠ fnv1a bytes :=
  foldl_differs fnvStep_sensitive differs _

def hashPart (bytes : Bytes) : UInt32 := if bytes.isEmpty then 0 else fnv1a bytes

theorem checksum_eq (covered action payload : Bytes) :
    checksum covered action payload = fnv1a covered ^^^ hashPart action ^^^ hashPart payload := by
  simp only [checksum, hashPart]
  cases action.isEmpty <;> cases payload.isEmpty <;>
    simp only [Bool.false_eq_true, if_false, if_true, UInt32.xor_zero]

theorem hashPart_differs {place : Nat} {bytes damaged : Bytes}
    (differs : Differs place bytes damaged) : hashPart damaged ≠ hashPart bytes := by
  have inside := differs.inside
  have length := differs.length
  have filled : bytes.isEmpty = false := by
    rw [List.isEmpty_eq_false_iff_exists_mem]
    exact List.exists_mem_of_length_pos (by omega)
  have still : damaged.isEmpty = false := by
    rw [List.isEmpty_eq_false_iff_exists_mem]
    exact List.exists_mem_of_length_pos (by omega)
  simp only [hashPart, filled, still, Bool.false_eq_true, if_false]
  exact fnv1a_differs differs

section Field

variable {place start width : Nat} {bytes damaged : Bytes}

theorem field_outside (differs : Differs place bytes damaged)
    (outside : place < start ∨ start + width ≤ place) :
    field damaged start width = field bytes start width := by
  rw [field, field]
  rcases outside with before | behind
  · rw [differs.drop_behind before]
  · rw [List.take_drop, List.take_drop, differs.take_before behind]

theorem field_inside (differs : Differs place bytes damaged) (after_start : start ≤ place)
    (within : place < start + width) : field damaged start width ≠ field bytes start width := by
  have part := (differs.drop after_start).take (show place - start < width by omega)
  intro same
  exact part.ne (leNat_inj part.length same).symm

end Field

def InLengths (place : Nat) : Prop := 25 ≤ place ∧ place < 33

def damageCode (place : Nat) : ErrorCode :=
  if place < 8 then .serializeVersionMismatch else .serializeDecodeFailed

section Entry

variable {bytes damaged header : Bytes} {entry : WalEntry} {size place : Nat}

theorem header_damaged (decoded : Decoded bytes header entry size)
    (differs : Differs place bytes damaged) (inHeader : place < kEntryHeaderSize)
    (outside : ¬ InLengths place) :
    Differs place header (damaged.take kEntryHeaderSize) ∧
      Laid damaged (damaged.take kEntryHeaderSize) entry.action entry.payload := by
  have changed : Differs place header (damaged.take kEntryHeaderSize) := by
    rw [← decoded.front]
    exact differs.take inHeader
  rw [InLengths, not_and_or, Nat.not_le, Nat.not_lt] at outside
  have actionField : field (damaged.take kEntryHeaderSize) 25 4 = field header 25 4 :=
    field_outside changed (by omega)
  have payloadField : field (damaged.take kEntryHeaderSize) 29 4 = field header 29 4 :=
    field_outside changed (by omega)
  refine ⟨changed, rfl, changed.length.trans decoded.whole, ?_, ?_, ?_, ?_⟩
  · rw [actionField, differs.drop_behind inHeader, decoded.actionAt]
  · rw [actionField, decoded.actionWhole]
  · rw [actionField, payloadField, differs.drop_behind (by omega), decoded.payloadAt]
  · rw [payloadField, decoded.payloadWhole]

theorem Laid.decode_unsound {action payload : Bytes} (laid : Laid bytes header action payload)
    (magic : field header 0 4 = kFileMagic.toNat) (schema : field header 4 4 = kSchemaVersion.toNat)
    (unsound : (checksum (header.take 36) action payload).toNat ≠ field header 36 4) :
    decodeEntry bytes = .error .serializeDecodeFailed := by
  rw [laid.decode, if_neg (not_not.mpr magic), if_neg (not_not.mpr schema), if_pos unsound]

theorem decode_header_damaged (decoded : Decoded bytes header entry size)
    (differs : Differs place bytes damaged) (inHeader : place < kEntryHeaderSize)
    (outside : ¬ InLengths place) : decodeEntry damaged = .error (damageCode place) := by
  obtain ⟨changed, laid⟩ := header_damaged decoded differs inHeader outside
  rw [damageCode]
  generalize damaged.take kEntryHeaderSize = broken at changed laid
  rw [kEntryHeaderSize] at inHeader
  rw [InLengths, not_and_or, Nat.not_le, Nat.not_lt] at outside
  by_cases inMagic : place < 4
  · have magic := field_inside changed (Nat.zero_le _) (show place < 0 + 4 by omega)
    rw [decoded.magic] at magic
    rw [laid.decode, if_pos magic, if_pos (by omega)]
  have magic := field_outside changed (show place < 0 ∨ 0 + 4 ≤ place by omega)
  rw [decoded.magic] at magic
  by_cases inSchema : place < 8
  · have schema := field_inside changed (show 4 ≤ place by omega) (show place < 4 + 4 by omega)
    rw [decoded.schema] at schema
    rw [laid.decode, if_neg (not_not.mpr magic), if_pos schema, if_pos inSchema]
  have schema := field_outside changed (show place < 4 ∨ 4 + 4 ≤ place by omega)
  rw [decoded.schema] at schema
  rw [if_neg inSchema]
  refine laid.decode_unsound magic schema ?_
  by_cases covered : place < 36
  · have stored := field_outside changed (show place < 36 ∨ 36 + 4 ≤ place by omega)
    rw [stored, ← decoded.sum, ne_eq, UInt32.toNat_inj, checksum_eq, checksum_eq,
      UInt32.xor_left_inj, UInt32.xor_left_inj]
    exact fnv1a_differs (changed.take covered)
  · have stored := field_inside changed (show 36 ≤ place by omega) (show place < 36 + 4 by omega)
    rw [changed.take_before (by omega), decoded.sum]
    exact stored.symm

theorem decode_action_damaged (decoded : Decoded bytes header entry size)
    (differs : Differs place bytes damaged) (behind : kEntryHeaderSize ≤ place)
    (inAction : place < kEntryHeaderSize + field header 25 4) :
    decodeEntry damaged = .error .serializeDecodeFailed := by
  have part := (differs.drop behind).take
    (show place - kEntryHeaderSize < field header 25 4 by omega)
  have laid : Laid damaged header ((damaged.drop kEntryHeaderSize).take (field header 25 4))
      entry.payload := by
    refine ⟨(differs.take_before behind).trans decoded.front, decoded.whole, rfl, ?_, ?_,
      decoded.payloadWhole⟩
    · rw [part.length, decoded.actionAt, decoded.actionWhole]
    · rw [differs.drop_behind inAction, decoded.payloadAt]
  refine laid.decode_unsound decoded.magic decoded.schema ?_
  rw [← decoded.sum, ne_eq, UInt32.toNat_inj, checksum_eq, checksum_eq, UInt32.xor_left_inj,
    UInt32.xor_right_inj]
  rw [decoded.actionAt] at part
  exact hashPart_differs part

theorem decode_payload_damaged (decoded : Decoded bytes header entry size)
    (differs : Differs place bytes damaged) (behind : kEntryHeaderSize + field header 25 4 ≤ place)
    (inside : place < size) : decodeEntry damaged = .error .serializeDecodeFailed := by
  rw [decoded.length] at inside
  have part := (differs.drop behind).take
    (show place - (kEntryHeaderSize + field header 25 4) < field header 29 4 by omega)
  have laid : Laid damaged header entry.action
      ((damaged.drop (kEntryHeaderSize + field header 25 4)).take (field header 29 4)) := by
    refine ⟨(differs.take_before (by omega)).trans decoded.front, decoded.whole, ?_,
      decoded.actionWhole, rfl, ?_⟩
    · rw [List.take_drop, differs.take_before behind, ← List.take_drop, decoded.actionAt]
    · rw [part.length, decoded.payloadAt, decoded.payloadWhole]
  refine laid.decode_unsound decoded.magic decoded.schema ?_
  rw [← decoded.sum, ne_eq, UInt32.toNat_inj, checksum_eq, checksum_eq, UInt32.xor_right_inj]
  rw [decoded.payloadAt] at part
  exact hashPart_differs part

theorem decodeEntry_damaged (found : decodeEntry bytes = .ok (entry, size))
    (differs : Differs place bytes damaged) (inside : place < size)
    (outside : ¬ InLengths place) : decodeEntry damaged = .error (damageCode place) := by
  have decoded := decodeEntry_ok found
  by_cases inHeader : place < kEntryHeaderSize
  · exact decode_header_damaged decoded differs inHeader outside
  rw [Nat.not_lt] at inHeader
  have code : damageCode place = .serializeDecodeFailed := by
    rw [kEntryHeaderSize] at inHeader
    exact if_neg (by omega)
  rw [code]
  by_cases inAction : place < kEntryHeaderSize + field (bytes.take kEntryHeaderSize) 25 4
  · exact decode_action_damaged decoded differs inHeader inAction
  · exact decode_payload_damaged decoded differs (Nat.not_lt.mp inAction) inside

end Entry

/-- Opened afresh or by an object that is still open, `file` is read up to `before` only. -/
structure Detected (file : Bytes) (code : ErrorCode) (before : List WalEntry) : Prop where
  opens (config : WalConfig) (appendMode : Bool) :
    ∃ wal, (Wal.create config ⟨some file, appendMode, []⟩).1 = .ok wal ∧ wal.fd.faults = [] ∧
      wal.fd.bytes = file
  replay {wal : Wal} : wal.fd.faults = [] → wal.fd.bytes = file → wal.replay.1 = .error code
  streams {wal : Wal} : wal.fd.faults = [] → wal.fd.bytes = file →
    (wal.replayStream (some always)).1 = (.error code, before)

theorem detected_scan {tail : Bytes} {before : List WalEntry} {code : ErrorCode}
    (scanned : scan entryCodec tail = (before, some code)) :
    Detected (fileHeader ++ tail) code before := by
  have behind : (fileHeader ++ tail).drop kFileHeaderSize = tail := List.drop_left' fileHeader_length
  refine ⟨?_, ?_, ?_⟩
  · intro config appendMode
    exact ⟨_, create_existing config tail appendMode, rfl, rfl⟩
  · intro wal quiet bytes
    exact (replay_error quiet).mpr ⟨before, by rw [bytes, behind, scanned]⟩
  · intro wal quiet bytes
    exact replayStream_always quiet (by rw [bytes, behind, scanned])

def placeInFile (front : List WalEntry) (place : Nat) : Nat := (walBytes front).length + place

theorem storable_of_split {log : List WalEntry} (storable : ∀ entry ∈ log, Storable entry)
    {front back : List WalEntry} {entry : WalEntry} (split : log = front ++ entry :: back) :
    (∀ other ∈ front, Storable other) ∧ Storable entry := by
  subst split
  exact ⟨fun other member => storable other (List.mem_append_left _ member),
    storable entry (List.mem_append_right _ List.mem_cons_self)⟩

/-- In the file of a run, any byte of any entry but the length bytes may be replaced: reading
stops at that entry. -/
theorem damage_detected {events : List WalEvent} {final : Wal}
    (reached : Reached WalStep events final) {front back : List WalEntry} {entry : WalEntry}
    (split : logOf events = front ++ entry :: back) {place : Nat}
    (inside : place < (encodeEntry entry).length) (outside : ¬ InLengths place) {byte : UInt8}
    (different : final.fd.bytes[placeInFile front place]? ≠ some byte) :
    Detected (final.fd.bytes.set (placeInFile front place) byte) (damageCode place) front := by
  have holds := reached.holds
  obtain ⟨frontStorable, storable⟩ := storable_of_split holds.storable split
  have file : final.fd.bytes = walBytes front ++ (encodeEntry entry ++ encodeAll entryCodec back) := by
    rw [holds.bytes, split, walBytes_append, encodeAll_cons]
    rfl
  rw [file, placeInFile] at different ⊢
  rw [List.getElem?_append_right (Nat.le_add_right _ _), Nat.add_sub_cancel_left] at different
  rw [List.set_append_right _ _ (Nat.le_add_right _ _), Nat.add_sub_cancel_left, walBytes,
    List.append_assoc]
  have length : place < (encodeEntry entry ++ encodeAll entryCodec back).length := by
    rw [List.length_append]
    omega
  have differs := differs_set length different
  have broken := decodeEntry_damaged (decodeEntry_encodeEntry (encodeAll entryCodec back) storable)
    differs inside outside
  generalize (encodeEntry entry ++ encodeAll entryCodec back).set place byte = damaged at differs broken
  have something : damaged ≠ [] := by
    intro empty
    have same := differs.length
    rw [empty, List.length_nil] at same
    omega
  apply detected_scan
  rw [scan_encodeAll_append entryCodec frontStorable, scan_entry_error something broken,
    List.append_nil]

def writtenFirst : WalEntry where
  seq := 1
  timestampNs := 0
  type := .addNode
  action := []
  payload := [1, 2]

def writtenSecond : WalEntry where
  seq := 2
  timestampNs := 0
  type := .custom
  action := ascii "act"
  payload := [3]

theorem damage_detected_action : ∃ events final,
    (freshWal plainConfig true).execAll
        [.append 0 .addNode [] [1, 2], .append 0 .custom (ascii "act") [3]] = some (events, final) ∧
      Detected (final.fd.bytes.set 99 32) .serializeDecodeFailed [writtenFirst] := by
  have facts : ((freshWal plainConfig true).execAll
      [.append 0 .addNode [] [1, 2], .append 0 .custom (ascii "act") [3]]).map
        (fun outcome => (logOf outcome.1, outcome.2.fd.bytes[99]?)) =
      some ([writtenFirst] ++ writtenSecond :: [], some 99) := by
    decide +kernel
  obtain ⟨⟨events, final⟩, executed, found⟩ := Option.map_eq_some_iff.mp facts
  obtain ⟨log, byte⟩ := Prod.mk.inj found
  have reached : Reached WalStep events final :=
    ⟨plainConfig, true, _, create_fresh plainConfig true, execAll_run executed⟩
  have place : placeInFile [writtenFirst] 41 = 99 := by decide +kernel
  have detected := @damage_detected events final reached [writtenFirst] [] writtenSecond log 41
    (by decide +kernel) (by simp [InLengths]) 32 (by rw [place, byte]; decide)
  rw [place] at detected
  exact ⟨events, final, executed, detected⟩

end Udaf
