import Udaf.Core.ErrorCode
import Udaf.Lib.ShiftLoop

/-!
`ability_b/serialization/serializer.cpp`. A serializer is what its class overrides, over
the fields `σ` of the object.
-/

namespace Udaf

open ByteString

def writeU32Be (v : BitVec 32) : Bytes :=
  [lowByte (v >>> 24), lowByte (v >>> 16), lowByte (v >>> 8), lowByte v]

def readU32Be (buf : Bytes) : BitVec 32 :=
  let byte (i : Nat) : BitVec 32 := (buf.getD i 0).toBitVec.setWidth 32
  byte 0 <<< 24 ||| byte 1 <<< 16 ||| byte 2 <<< 8 ||| byte 3

def kCodecMagic : BitVec 32 := 0x55444146

def kHeaderSize : Nat := 4 + 4 + 1

structure SerializerBase (σ : Type) where
  typeName : σ → Bytes
  schemaVersion : σ → BitVec 32
  acceptsType : σ → Bytes → Bool
  encodePayload : σ → Except ErrorCode Bytes
  decodePayloadInplace : Bytes → σ → Except ErrorCode Unit × σ

namespace SerializerBase

variable {σ τ : Type}

def encode (codec : SerializerBase σ) (self : σ) : Except ErrorCode Bytes :=
  match codec.encodePayload self with
  | .error code => .error code
  | .ok p =>
      let tn := codec.typeName self
      if 255 < tn.length then .error .serializeTypeMismatch
      else
        .ok (writeU32Be kCodecMagic ++ writeU32Be (codec.schemaVersion self) ++
          [UInt8.ofNat tn.length] ++ tn ++ p)

def decodePayload (codec : SerializerBase σ) (frame : Bytes) (self : σ) :
    Except ErrorCode Bytes × σ :=
  if frame.length < kHeaderSize then (.error .serializeDecodeFailed, self)
  else
    let magic := readU32Be (frame.take 4)
    if magic ≠ kCodecMagic then (.error .serializeVersionMismatch, self)
    else
      let version := readU32Be ((frame.drop 4).take 4)
      if version ≠ codec.schemaVersion self then (.error .serializeVersionMismatch, self)
      else
        let tlen := (frame.getD 8 0).toNat
        if frame.length < kHeaderSize + tlen then (.error .serializeDecodeFailed, self)
        else
          let tn := (frame.drop kHeaderSize).take tlen
          if !codec.acceptsType self tn then (.error .serializeTypeMismatch, self)
          else
            let payload := frame.drop (kHeaderSize + tlen)
            match codec.decodePayloadInplace payload self with
            | (.error code, after) => (.error code, after)
            | (.ok (), after) => (.ok payload, after)

end SerializerBase

theorem writeU32Be_eq (v : BitVec 32) : writeU32Be v = (leBytes 4 v.toNat).reverse := by
  have bytes := shiftOutAt_eq v 4 0 (by decide)
  rw [Nat.pow_zero, Nat.div_one] at bytes
  rw [← bytes]
  simp [writeU32Be, shiftOutAt]

theorem or_reverse (a b c d : BitVec 32) : a ||| b ||| c ||| d = d ||| c ||| b ||| a := by
  ac_rfl

theorem readU32Be_eq (b0 b1 b2 b3 : UInt8) :
    readU32Be [b0, b1, b2, b3] = BitVec.ofNat 32 (leNat [b3, b2, b1, b0]) := by
  have read := shiftIn_zero [b3, b2, b1, b0] 0 4 (Nat.le_refl 4) (Nat.le_refl 32)
  simp only [shiftIn, Nat.zero_add, List.getElem?_cons_zero, List.getElem?_cons_succ,
    Option.bind_eq_bind, Option.bind_some, List.drop_zero] at read
  refine Eq.trans ?_ (Option.some.inj read)
  rw [BitVec.zero_or, Nat.zero_mul, BitVec.shiftLeft_zero]
  exact or_reverse _ _ _ _

theorem four_bytes {field : Bytes} (length : field.length = 4) :
    ∃ b0 b1 b2 b3, field = [b0, b1, b2, b3] := by
  match field, length with
  | [b0, b1, b2, b3], _ => exact ⟨b0, b1, b2, b3, rfl⟩

@[simp] theorem writeU32Be_length (v : BitVec 32) : (writeU32Be v).length = 4 := rfl

theorem readU32Be_writeU32Be (v : BitVec 32) : readU32Be (writeU32Be v) = v := by
  have reversed : leNat (writeU32Be v).reverse = v.toNat := by
    rw [writeU32Be_eq, List.reverse_reverse, leNat_leBytes 4 _ v.isLt]
  rw [writeU32Be, readU32Be_eq]
  change BitVec.ofNat 32 (leNat (writeU32Be v).reverse) = v
  rw [reversed, BitVec.ofNat_toNat, BitVec.setWidth_eq]

theorem writeU32Be_readU32Be {field : Bytes} (length : field.length = 4) :
    writeU32Be (readU32Be field) = field := by
  obtain ⟨b0, b1, b2, b3, rfl⟩ := four_bytes length
  have power : 256 ^ [b3, b2, b1, b0].length = 2 ^ 32 := by simp
  have bound := leNat_lt [b3, b2, b1, b0]
  rw [power] at bound
  rw [writeU32Be_eq, readU32Be_eq, BitVec.toNat_ofNat, Nat.mod_eq_of_lt bound]
  exact congrArg List.reverse (leBytes_leNat [b3, b2, b1, b0])

theorem readU32Be_eq_iff {field : Bytes} (length : field.length = 4) (v : BitVec 32) :
    readU32Be field = v ↔ field = writeU32Be v := by
  constructor
  · rintro rfl
    exact (writeU32Be_readU32Be length).symm
  · rintro rfl
    exact readU32Be_writeU32Be v

def codecFrame (version : BitVec 32) (type p : Bytes) : Bytes :=
  writeU32Be kCodecMagic ++ (writeU32Be version ++ (UInt8.ofNat type.length :: (type ++ p)))

namespace SerializerBase

variable {σ τ : Type} {codec : SerializerBase σ} {self : σ}

theorem encode_ok_iff {frame : Bytes} : codec.encode self = .ok frame ↔
    ∃ p, codec.encodePayload self = .ok p ∧ (codec.typeName self).length ≤ 255 ∧
      frame = codecFrame (codec.schemaVersion self) (codec.typeName self) p := by
  rw [encode]
  cases codec.encodePayload self with
  | error code =>
      constructor
      · intro encoded
        cases encoded
      · rintro ⟨p, encoded, -⟩
        cases encoded
  | ok p =>
      by_cases long : 255 < (codec.typeName self).length
      · simp only [if_pos long]
        constructor
        · intro encoded
          cases encoded
        · rintro ⟨_, -, short, -⟩
          omega
      · simp only [if_neg long, Except.ok.injEq, exists_eq_left', Nat.le_of_not_lt long, true_and,
          codecFrame, List.append_assoc, List.cons_append, List.nil_append, eq_comm]

theorem decodePayload_fields {magic version : Bytes} (magicLength : magic.length = 4)
    (versionLength : version.length = 4) (tlen : UInt8) (rest : Bytes) :
    codec.decodePayload (magic ++ (version ++ tlen :: rest)) self =
      if magic ≠ writeU32Be kCodecMagic then (.error .serializeVersionMismatch, self)
      else if version ≠ writeU32Be (codec.schemaVersion self) then
        (.error .serializeVersionMismatch, self)
      else if rest.length < tlen.toNat then (.error .serializeDecodeFailed, self)
      else if !codec.acceptsType self (rest.take tlen.toNat) then
        (.error .serializeTypeMismatch, self)
      else
        ((codec.decodePayloadInplace (rest.drop tlen.toNat) self).1.map
          fun _ => rest.drop tlen.toNat,
        (codec.decodePayloadInplace (rest.drop tlen.toNat) self).2) := by
  have whole : (magic ++ (version ++ tlen :: rest)).length = kHeaderSize + rest.length := by
    simp only [List.length_append, List.length_cons, magicLength, versionLength, kHeaderSize]
    omega
  have behind : (magic ++ (version ++ tlen :: rest)).drop 4 = version ++ tlen :: rest :=
    List.drop_left' magicLength
  have tail : (magic ++ (version ++ tlen :: rest)).drop 8 = tlen :: rest := by
    rw [← List.drop_drop (i := 4) (j := 4), behind, List.drop_left' versionLength]
  have header : (magic ++ (version ++ tlen :: rest)).drop kHeaderSize = rest := by
    rw [kHeaderSize, ← List.drop_drop, tail]
    rfl
  have size : (magic ++ (version ++ tlen :: rest)).getD 8 0 = tlen := by
    rw [List.getD_eq_getElem?_getD, ← List.head?_drop, tail]
    rfl
  rw [decodePayload, if_neg (by omega)]
  simp only [List.take_left' magicLength, behind, List.take_left' versionLength, size, header, whole,
    ← List.drop_drop, ne_eq, readU32Be_eq_iff magicLength, readU32Be_eq_iff versionLength,
    Nat.add_lt_add_iff_left]
  generalize codec.decodePayloadInplace (rest.drop tlen.toNat) self = decoded
  obtain ⟨result, after⟩ := decoded
  cases result <;> rfl

theorem fields_of_length {frame : Bytes} (long : kHeaderSize ≤ frame.length) :
    ∃ magic version tlen rest, frame = magic ++ (version ++ tlen :: rest) ∧
      magic.length = 4 ∧ version.length = 4 := by
  rw [kHeaderSize] at long
  have third : ((frame.drop 4).drop 4).length ≠ 0 := by
    simp only [List.length_drop]
    omega
  obtain ⟨tlen, rest, tail⟩ := List.exists_cons_of_length_pos (Nat.pos_of_ne_zero third)
  refine ⟨frame.take 4, (frame.drop 4).take 4, tlen, rest, ?_, ?_, ?_⟩
  · rw [← tail, List.take_append_drop, List.take_append_drop]
  · rw [List.length_take]
    omega
  · rw [List.length_take, List.length_drop]
    omega

theorem decodePayload_codecFrame {version : BitVec 32} {type : Bytes} (short : type.length ≤ 255)
    (p : Bytes) : codec.decodePayload (codecFrame version type p) self =
      if version ≠ codec.schemaVersion self then (.error .serializeVersionMismatch, self)
      else if !codec.acceptsType self type then (.error .serializeTypeMismatch, self)
      else
        ((codec.decodePayloadInplace p self).1.map fun _ => p,
          (codec.decodePayloadInplace p self).2) := by
  have tlen : (UInt8.ofNat type.length).toNat = type.length := by
    rw [UInt8.toNat_ofNat']
    omega
  have same : writeU32Be version = writeU32Be (codec.schemaVersion self) ↔
      version = codec.schemaVersion self := by
    rw [← readU32Be_eq_iff (writeU32Be_length version), readU32Be_writeU32Be]
  have fits : ¬ (type ++ p).length < type.length := by
    rw [List.length_append]
    omega
  rw [codecFrame, decodePayload_fields (writeU32Be_length _) (writeU32Be_length _), tlen,
    if_neg (not_not_intro rfl), if_neg fits, List.take_left, List.drop_left]
  simp only [ne_eq, same]

theorem map_const_ok {result : Except ErrorCode Unit} {payload p : Bytes} :
    (result.map fun _ => payload) = .ok p ↔ payload = p ∧ result = .ok () := by
  cases result with
  | error code =>
      constructor
      · intro mapped
        cases mapped
      · rintro ⟨-, mapped⟩
        cases mapped
  | ok done =>
      constructor
      · rintro ⟨⟩
        exact ⟨rfl, rfl⟩
      · rintro ⟨rfl, -⟩
        rfl

structure Plain (codec : SerializerBase σ) (object : σ) : Prop where
  accepts : ∀ type, codec.acceptsType object type = decide (type = codec.typeName object)
  short : (codec.typeName object).length ≤ 255

theorem decodePayload_ok (plain : codec.Plain self) {frame p : Bytes}
    (decoded : (codec.decodePayload frame self).1 = .ok p) :
    frame = codecFrame (codec.schemaVersion self) (codec.typeName self) p := by
  by_cases long : kHeaderSize ≤ frame.length
  · obtain ⟨magic, version, tlen, rest, rfl, magicLength, versionLength⟩ := fields_of_length long
    rw [decodePayload_fields magicLength versionLength] at decoded
    by_cases known : magic = writeU32Be kCodecMagic
    · rw [if_neg (not_not_intro known)] at decoded
      by_cases current : version = writeU32Be (codec.schemaVersion self)
      · rw [if_neg (not_not_intro current)] at decoded
        by_cases cut : rest.length < tlen.toNat
        · rw [if_pos cut] at decoded
          cases decoded
        · rw [if_neg cut, plain.accepts] at decoded
          by_cases named : rest.take tlen.toNat = codec.typeName self
          · rw [if_neg (by simp [named])] at decoded
            have payload : rest.drop tlen.toNat = p := (map_const_ok.mp decoded).1
            have size : tlen = UInt8.ofNat (codec.typeName self).length := by
              rw [← named, List.length_take, Nat.min_eq_left (Nat.le_of_not_lt cut),
                UInt8.ofNat_toNat]
            rw [known, current, codecFrame, ← size, ← named, ← payload, List.take_append_drop]
          · rw [if_pos (by simp [named])] at decoded
            cases decoded
      · rw [if_pos current] at decoded
        cases decoded
    · rw [if_pos known] at decoded
      cases decoded
  · rw [decodePayload, if_pos (Nat.lt_of_not_le long)] at decoded
    cases decoded

theorem decodePayload_ok_iff (plain : codec.Plain self) (frame p : Bytes) :
    (codec.decodePayload frame self).1 = .ok p ↔
      frame = codecFrame (codec.schemaVersion self) (codec.typeName self) p ∧
        (codec.decodePayloadInplace p self).1 = .ok () := by
  have own : (codec.decodePayload (codecFrame (codec.schemaVersion self) (codec.typeName self) p)
      self).1 = (codec.decodePayloadInplace p self).1.map fun _ => p := by
    rw [decodePayload_codecFrame plain.short, if_neg (not_not_intro rfl), plain.accepts,
      decide_eq_true rfl]
    rfl
  constructor
  · intro decoded
    have shape := decodePayload_ok plain decoded
    rw [shape, own] at decoded
    exact ⟨shape, (map_const_ok.mp decoded).2⟩
  · rintro ⟨rfl, inplace⟩
    rw [own]
    exact map_const_ok.mpr ⟨rfl, inplace⟩

structure FrameFormat (codec : SerializerBase σ) (object : σ) : Prop where
  accepted : ∀ frame p, (codec.decodePayload frame object).1 = .ok p ↔
    frame = codecFrame (codec.schemaVersion object) (codec.typeName object) p ∧
      (codec.decodePayloadInplace p object).1 = .ok ()
  decoded : ∀ (τ : Type) (sender : SerializerBase τ) (other : τ) (frame : Bytes),
    sender.encode other = .ok frame → sender.schemaVersion other = codec.schemaVersion object →
    sender.typeName other = codec.typeName object →
    ∃ p, sender.encodePayload other = .ok p ∧ ((codec.decodePayload frame object).1 = .ok p ↔
      (codec.decodePayloadInplace p object).1 = .ok ())
  encoded : ∀ (τ : Type) (sender : SerializerBase τ) (other : τ) (frame p : Bytes),
    (codec.decodePayload frame object).1 = .ok p →
    sender.schemaVersion other = codec.schemaVersion object →
    sender.typeName other = codec.typeName object → sender.encodePayload other = .ok p →
    sender.encode other = .ok frame
  otherVersion : ∀ (τ : Type) (sender : SerializerBase τ) (other : τ) (frame : Bytes),
    sender.encode other = .ok frame → sender.schemaVersion other ≠ codec.schemaVersion object →
    (codec.decodePayload frame object).1 = .error .serializeVersionMismatch
  otherType : ∀ (τ : Type) (sender : SerializerBase τ) (other : τ) (frame : Bytes),
    sender.encode other = .ok frame → sender.schemaVersion other = codec.schemaVersion object →
    sender.typeName other ≠ codec.typeName object →
    (codec.decodePayload frame object).1 = .error .serializeTypeMismatch

theorem frameFormat (plain : codec.Plain self) : codec.FrameFormat self where
  accepted := decodePayload_ok_iff plain
  decoded := by
    intro τ sender other frame encoded version type
    obtain ⟨p, payload, short, rfl⟩ := encode_ok_iff.mp encoded
    refine ⟨p, payload, ?_⟩
    rw [decodePayload_ok_iff plain, version, type]
    exact and_iff_right rfl
  encoded := by
    intro τ sender other frame p decoded version type payload
    rw [encode_ok_iff, version, type]
    exact ⟨p, payload, plain.short, decodePayload_ok plain decoded⟩
  otherVersion := by
    intro τ sender other frame encoded version
    obtain ⟨p, payload, short, rfl⟩ := encode_ok_iff.mp encoded
    rw [decodePayload_codecFrame short, if_pos version]
  otherType := by
    intro τ sender other frame encoded version type
    obtain ⟨p, payload, short, rfl⟩ := encode_ok_iff.mp encoded
    rw [decodePayload_codecFrame short, if_neg (not_not_intro version), plain.accepts,
      decide_eq_false type]
    rfl

end SerializerBase

/-- Plain objects are framed as the format says; of two errors, that of the payload is reported. -/
theorem serializer_frames {σ : Type} (codec : SerializerBase σ) (object : σ) :
    (codec.Plain object → codec.FrameFormat object) ∧
      ∀ p, 255 < (codec.typeName object).length → codec.encodePayload object = .ok p →
        codec.encode object = .error .serializeTypeMismatch := by
  refine ⟨SerializerBase.frameFormat, ?_⟩
  intro p long payload
  rw [SerializerBase.encode, payload]
  exact if_pos long

def simpleSerializer (typeName : Bytes) (encodePayload : Except ErrorCode Bytes) :
    SerializerBase Unit where
  typeName := fun _ => typeName
  schemaVersion := fun _ => 1
  acceptsType := fun _ type => decide (type = typeName)
  encodePayload := fun _ => encodePayload
  decodePayloadInplace := fun _ _ => (.ok (), ())

theorem long_name : 255 < (List.replicate 256 (76 : UInt8)).length := by
  rw [List.length_replicate]
  decide

theorem serializer_frames_simple :
    (simpleSerializer (ascii "SimpleMsg") (.ok [1, 2])).FrameFormat () ∧
      (simpleSerializer (List.replicate 256 76) (.ok [])).encode () =
        .error .serializeTypeMismatch := by
  have plain : (simpleSerializer (ascii "SimpleMsg") (.ok [1, 2])).Plain () :=
    ⟨fun type => rfl, by decide⟩
  exact ⟨(serializer_frames _ ()).1 plain, (serializer_frames _ ()).2 [] long_name rfl⟩

/-- The error of the payload comes before the length of the name. -/
theorem encode_payload_error_first :
    let codec := simpleSerializer (List.replicate 256 76) (.error .serializeEncodeFailed)
    255 < (codec.typeName ()).length ∧ codec.encode () ≠ .error .serializeTypeMismatch := by
  intro codec
  refine ⟨long_name, ?_⟩
  intro mismatch
  cases mismatch

end Udaf
