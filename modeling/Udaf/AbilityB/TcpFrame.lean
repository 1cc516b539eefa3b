import Udaf.Lib.ShiftLoop
import Udaf.AbilityB.InprocChannel

/-!
`encode_frame` and `decode_frame` of `ability_b/transport/tcp_channel.cpp`: one priority
byte, eight bytes of `seq`, four of the payload length, and the payload.
-/

namespace Udaf

open ByteString

def encodeFrame (m : MessageFrame) : Bytes :=
  let plen : BitVec 32 := .ofNat 32 m.payload.length
  [m.priority.value] ++ shiftOut 8 m.seq.toBitVec ++ shiftOutAt plen 4 0 ++ m.payload

/-- What the call returns and leaves in `m`; `none` when it reads outside `data`. -/
def decodeFrame (data : Bytes) (m : MessageFrame) : Option (Bool × MessageFrame) :=
  if data.length < 1 + 8 + 4 then some (false, m)
  else do
    let priority ← data[0]?
    let seq : BitVec 64 ← shiftIn data 1 8 0 0#64
    let m := { m with priority := ⟨priority⟩, seq := .ofBitVec seq }
    let plen : BitVec 32 ← shiftIn data 9 4 0 0#32
    if data.length - (1 + 8 + 4) < plen.toNat then some (false, m)
    else
      let payload ← readRange data 13 plen.toNat
      some (true, { m with payload := payload })

def frameBytes (priority : UInt8) (seq plen rest : Bytes) : Bytes :=
  priority :: (seq ++ (plen ++ rest))

theorem encodeFrame_eq (m : MessageFrame) :
    encodeFrame m = frameBytes m.priority.value (leBytes 8 m.seq.toNat)
      (leBytes 4 (m.payload.length % 2 ^ 32)) m.payload := by
  have seq := shiftOut_eq 8 m.seq.toBitVec (by decide)
  have plen := shiftOutAt_eq (BitVec.ofNat 32 m.payload.length) 4 0 (by decide)
  rw [Nat.pow_zero, Nat.div_one, BitVec.toNat_ofNat] at plen
  rw [encodeFrame, seq, plen, frameBytes, List.append_assoc, List.append_assoc, UInt64.toNat_toBitVec]
  rfl

theorem frameBytes_of_length {data : Bytes} (long : 1 + 8 + 4 ≤ data.length) :
    ∃ priority seq plen rest, data = frameBytes priority seq plen rest ∧
      seq.length = 8 ∧ plen.length = 4 := by
  cases data with
  | nil => simp at long
  | cons priority tail =>
      rw [List.length_cons] at long
      refine ⟨priority, tail.take 8, (tail.drop 8).take 4, (tail.drop 8).drop 4, ?_, ?_, ?_⟩
      · rw [frameBytes, List.take_append_drop, List.take_append_drop]
      · rw [List.length_take]
        omega
      · rw [List.length_take, List.length_drop]
        omega

theorem decodeFrame_frameBytes (priority : UInt8) {seq plen : Bytes} (rest : Bytes)
    (m : MessageFrame) (seqLength : seq.length = 8) (plenLength : plen.length = 4) :
    decodeFrame (frameBytes priority seq plen rest) m =
      if rest.length < leNat plen then
        some (false, { m with priority := ⟨priority⟩, seq := .ofNat (leNat seq) })
      else some (true, ⟨rest.take (leNat plen), ⟨priority⟩, .ofNat (leNat seq)⟩) := by
  have length : (frameBytes priority seq plen rest).length = 13 + rest.length := by
    simp only [frameBytes, List.length_cons, List.length_append, seqLength, plenLength]
    omega
  have behindSeq : (frameBytes priority seq plen rest).drop 9 = plen ++ rest :=
    List.drop_left' seqLength
  have behind : (frameBytes priority seq plen rest).drop 13 = rest := by
    rw [← List.drop_drop (i := 4) (j := 9), behindSeq, List.drop_left' plenLength]
  have readSeq := @shiftIn_zero 64 (frameBytes priority seq plen rest) 1 8 (by omega) (by decide)
  have readLen := @shiftIn_zero 32 (frameBytes priority seq plen rest) 9 4 (by omega) (by decide)
  have seqField : ((frameBytes priority seq plen rest).drop 1).take 8 = seq :=
    List.take_left' seqLength
  have lenField : ((frameBytes priority seq plen rest).drop 9).take 4 = plen := by
    rw [behindSeq, List.take_left' plenLength]
  have fits : leNat plen < 2 ^ 32 := by
    have bound := leNat_lt plen
    rw [plenLength] at bound
    exact bound
  rw [seqField] at readSeq
  rw [lenField] at readLen
  have here : (frameBytes priority seq plen rest)[0]? = some priority := rfl
  simp only [decodeFrame, here, readSeq, readLen, readRange, length, Option.bind_eq_bind,
    Option.bind_some, BitVec.toNat_ofNat, Nat.mod_eq_of_lt fits]
  rw [if_neg (by omega), show 13 + rest.length - (1 + 8 + 4) = rest.length by omega, behind]
  by_cases short : rest.length < leNat plen
  · rw [if_pos short, if_pos short]
    rfl
  · rw [if_neg short, if_neg short, if_pos (by omega)]
    rfl

theorem decodeFrame_inside (data : Bytes) (m : MessageFrame) :
    ∃ accepted frame, decodeFrame data m = some (accepted, frame) := by
  by_cases short : data.length < 1 + 8 + 4
  · exact ⟨false, m, if_pos short⟩
  · obtain ⟨priority, seq, plen, rest, rfl, seqLength, plenLength⟩ :=
      frameBytes_of_length (Nat.le_of_not_lt short)
    rw [decodeFrame_frameBytes priority rest m seqLength plenLength]
    by_cases cut : rest.length < leNat plen
    · exact ⟨_, _, if_pos cut⟩
    · exact ⟨_, _, if_neg cut⟩

theorem decodeFrame_encodeFrame {m : MessageFrame} (bound : m.payload.length < 2 ^ 32)
    (into : MessageFrame) : decodeFrame (encodeFrame m) into = some (true, m) := by
  have plen : leNat (leBytes 4 (m.payload.length % 2 ^ 32)) = m.payload.length := by
    rw [Nat.mod_eq_of_lt bound, leNat_leBytes 4 _ bound]
  rw [encodeFrame_eq, decodeFrame_frameBytes _ _ _ (leBytes_length _ _) (leBytes_length _ _), plen,
    if_neg (Nat.lt_irrefl _), List.take_length, leNat_leBytes 8 _ m.seq.toNat_lt, UInt64.ofNat_toNat]

theorem decodeFrame_accepted {data : Bytes} {into m : MessageFrame}
    (accepted : decodeFrame data into = some (true, m)) :
    ∃ priority seq plen rest, data = frameBytes priority seq plen rest ∧ seq.length = 8 ∧
      plen.length = 4 ∧ leNat plen ≤ rest.length ∧
        m = ⟨rest.take (leNat plen), ⟨priority⟩, .ofNat (leNat seq)⟩ := by
  by_cases short : data.length < 1 + 8 + 4
  · rw [decodeFrame, if_pos short] at accepted
    cases accepted
  · obtain ⟨priority, seq, plen, rest, rfl, seqLength, plenLength⟩ :=
      frameBytes_of_length (Nat.le_of_not_lt short)
    rw [decodeFrame_frameBytes priority rest into seqLength plenLength] at accepted
    by_cases cut : rest.length < leNat plen
    · rw [if_pos cut] at accepted
      cases accepted
    · rw [if_neg cut] at accepted
      cases accepted
      exact ⟨priority, seq, plen, rest, rfl, seqLength, plenLength, Nat.le_of_not_lt cut, rfl⟩

theorem encodeFrame_of_decodeFrame {data : Bytes} {into m : MessageFrame}
    (accepted : decodeFrame data into = some (true, m)) : encodeFrame m <+: data := by
  obtain ⟨priority, seq, plen, rest, rfl, seqLength, plenLength, whole, rfl⟩ :=
    decodeFrame_accepted accepted
  have seqBound : leNat seq < 2 ^ 64 := Nat.lt_of_lt_of_eq (leNat_lt seq) (by rw [seqLength]; rfl)
  have plenBound : leNat plen < 2 ^ 32 :=
    Nat.lt_of_lt_of_eq (leNat_lt plen) (by rw [plenLength]; rfl)
  have seqBack : leBytes 8 (UInt64.ofNat (leNat seq)).toNat = seq := by
    rw [UInt64.toNat_ofNat', Nat.mod_eq_of_lt seqBound, ← seqLength, leBytes_leNat]
  have plenBack : leBytes 4 ((rest.take (leNat plen)).length % 2 ^ 32) = plen := by
    rw [List.length_take, Nat.min_eq_left whole, Nat.mod_eq_of_lt plenBound, ← plenLength,
      leBytes_leNat]
  refine ⟨rest.drop (leNat plen), ?_⟩
  rw [encodeFrame_eq, seqBack, plenBack]
  simp only [frameBytes, List.cons_append, List.append_assoc, List.take_append_drop]

theorem decodeFrame_append {data : Bytes} {into m : MessageFrame}
    (accepted : decodeFrame data into = some (true, m)) (more : Bytes) :
    decodeFrame (data ++ more) into = some (true, m) := by
  obtain ⟨priority, seq, plen, rest, rfl, seqLength, plenLength, whole, rfl⟩ :=
    decodeFrame_accepted accepted
  have longer : frameBytes priority seq plen rest ++ more =
      frameBytes priority seq plen (rest ++ more) := by
    simp only [frameBytes, List.cons_append, List.append_assoc]
  rw [longer, decodeFrame_frameBytes priority (rest ++ more) into seqLength plenLength,
    if_neg (by rw [List.length_append]; omega), List.take_append_of_le_length whole]

theorem decodeFrame_cut {m : MessageFrame} (bound : m.payload.length < 2 ^ 32) {part : Bytes}
    (cut : part <+: encodeFrame m) (strict : part ≠ encodeFrame m) (into : MessageFrame) :
    ∃ left, decodeFrame part into = some (false, left) := by
  obtain ⟨accepted, left, result⟩ := decodeFrame_inside part into
  cases accepted with
  | false => exact ⟨left, result⟩
  | true =>
      exfalso
      obtain ⟨missing, whole⟩ := cut
      have same := decodeFrame_append result missing
      rw [whole, decodeFrame_encodeFrame bound] at same
      cases same
      have back := encodeFrame_of_decodeFrame result
      exact strict (List.IsPrefix.eq_of_length_le ⟨missing, whole⟩ back.length_le)

/-- A frame is read back, a part of one is refused, and no message is read outside its bytes. -/
theorem tcpFrame_codec :
    (∀ m into : MessageFrame, m.payload.length < 2 ^ 32 →
        decodeFrame (encodeFrame m) into = some (true, m)) ∧
      (∀ (m into : MessageFrame) (part : Bytes), m.payload.length < 2 ^ 32 →
        part <+: encodeFrame m → part ≠ encodeFrame m →
          ∃ left, decodeFrame part into = some (false, left)) ∧
      (∀ (data : Bytes) (into : MessageFrame),
        ∃ accepted left, decodeFrame data into = some (accepted, left)) ∧
      ∀ (data : Bytes) (into m : MessageFrame),
        decodeFrame data into = some (true, m) → encodeFrame m <+: data := by
  refine ⟨?_, ?_, decodeFrame_inside, ?_⟩
  · intro m into bound
    exact decodeFrame_encodeFrame bound into
  · intro m into part bound cut strict
    exact decodeFrame_cut bound cut strict into
  · intro data into m accepted
    exact encodeFrame_of_decodeFrame accepted

def sampleMessage : MessageFrame := { payload := [1, 2, 3], priority := .control, seq := 513 }

theorem tcpFrame_codec_sample :
    decodeFrame [1, 1, 2, 0, 0, 0, 0, 0, 0, 3, 0, 0, 0, 1, 2, 3] {} = some (true, sampleMessage) ∧
      ∃ left, decodeFrame [1, 1, 2, 0, 0, 0, 0, 0, 0, 3, 0, 0, 0, 1, 2] {} = some (false, left) := by
  have bytes : encodeFrame sampleMessage = [1, 1, 2, 0, 0, 0, 0, 0, 0, 3, 0, 0, 0, 1, 2, 3] := by
    decide
  have whole := tcpFrame_codec.1 sampleMessage {} (by decide)
  have cut := tcpFrame_codec.2.1 sampleMessage {} [1, 1, 2, 0, 0, 0, 0, 0, 0, 3, 0, 0, 0, 1, 2]
    (by decide) ⟨[3], by rw [bytes]; rfl⟩ (by rw [bytes]; decide)
  rw [bytes] at whole
  exact ⟨whole, cut⟩

end Udaf
