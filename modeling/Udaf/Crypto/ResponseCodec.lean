import Udaf.Crypto.RequestCodec

/-!
`deserialize_response` on arbitrary bytes: which messages it takes for the serialisation
of a response, and where it reads.
-/

namespace Udaf

open ByteString

structure AuthResponse.WellFormed (response : AuthResponse UInt8) : Prop where
  serverRandom : response.serverRandom.length = 32
  salt : response.salt.length = 32
  key : response.encryptedSessionKey.length < 2 ^ 32

def responseLen (buf : Bytes) : Nat := leNat ((buf.drop 108).take 4)

/-- The message is parsed as the response that it begins with, whatever lies behind it. -/
structure ParsesResponse (platform : Platform UInt8) (residue : Residue UInt8) (buf : Bytes) :
    Prop where
  inside : ∀ behind, deserializeResponse platform { residue with behind := behind } buf =
    deserializeResponse platform residue buf
  exact : ∀ response, response.WellFormed → (deserializeResponse platform residue buf = response ↔
    serializeResponse platform response <+: buf)
  wellFormed : (deserializeResponse platform residue buf).serverRandom ≠ [] →
    (deserializeResponse platform residue buf).WellFormed
  empty : (deserializeResponse platform residue buf).serverRandom = [] →
    (deserializeResponse platform residue buf).salt = [] ∧
      (deserializeResponse platform residue buf).encryptedSessionKey = []

variable {platform : Platform UInt8}

def responseBytes (serverRandom salt : Bytes) (nonce : Nonce UInt8) (mac : Mac UInt8)
    (field rest : Bytes) : Bytes :=
  serverRandom ++ (salt ++ (nonce.bytes ++ (mac.bytes ++ (field ++ rest))))

section Fields

variable {serverRandom salt field : Bytes} (serverLength : serverRandom.length = 32)
  (saltLength : salt.length = 32) (fieldLength : field.length = 4)
  (nonce : Nonce UInt8) (mac : Mac UInt8) (rest : Bytes)
include serverLength saltLength fieldLength

theorem responseBytes_length :
    (responseBytes serverRandom salt nonce mac field rest).length = 112 + rest.length := by
  simp only [responseBytes, List.length_append, serverLength, saltLength, Block.length_eq,
    fieldLength]
  omega

omit fieldLength in
theorem responseBytes_drop :
    (responseBytes serverRandom salt nonce mac field rest).drop 108 = field ++ rest := by
  have front : (serverRandom ++ salt ++ nonce.bytes ++ mac.bytes).length = 108 := by
    simp [serverLength, saltLength]
  simp only [responseBytes, ← List.append_assoc]
  rw [List.append_assoc _ field, List.drop_left' front]

theorem responseLen_responseBytes :
    responseLen (responseBytes serverRandom salt nonce mac field rest) = leNat field := by
  rw [responseLen, responseBytes_drop serverLength saltLength,
    List.take_left' fieldLength]

theorem deserializeResponse_fields (onBytes : platform.OnBytes) (residue : Residue UInt8) :
    deserializeResponse platform residue (responseBytes serverRandom salt nonce mac field rest) =
      if 112 + rest.length < (112 + leNat field) % 2 ^ 32 then { nonce := nonce, mac := mac }
      else {
        serverRandom := serverRandom
        salt := salt
        encryptedSessionKey := (rest ++ residue.behind).take (leNat field)
        nonce := nonce
        mac := mac } := by
  have length := responseBytes_length serverLength saltLength fieldLength nonce mac rest
  have tail : (responseBytes serverRandom salt nonce mac field rest).drop 108 = field ++ rest :=
    responseBytes_drop serverLength saltLength nonce mac rest
  have count : leNat ((((responseBytes serverRandom salt nonce mac field rest).drop 108).take 4).map
      platform.value) = leNat field := by
    rw [onBytes.map_value, tail, List.take_left' fieldLength]
  rw [deserializeResponse, dif_neg (by omega)]
  simp only [count, length]
  have nonceSlice : Block.slice (responseBytes serverRandom salt nonce mac field rest) 64 12
      (by omega) = nonce := by
    apply Block.slice_eq (serverRandom ++ salt) (mac.bytes ++ (field ++ rest))
    · simp only [responseBytes, List.append_assoc]
    · simp [serverLength, saltLength]
  have macSlice : Block.slice (responseBytes serverRandom salt nonce mac field rest) 76 32
      (by omega) = mac := by
    apply Block.slice_eq (serverRandom ++ salt ++ nonce.bytes) (field ++ rest)
    · simp only [responseBytes, List.append_assoc]
    · simp [serverLength, saltLength]
  have salted : ((responseBytes serverRandom salt nonce mac field rest).drop 32).take 32 = salt := by
    rw [responseBytes, List.drop_left' serverLength, List.take_left' saltLength]
  have key : ((responseBytes serverRandom salt nonce mac field rest) ++ residue.behind).drop 112 =
      rest ++ residue.behind := by
    rw [List.drop_append_of_le_length (by omega), ← List.drop_drop (i := 4) (j := 108), tail,
      List.drop_left' fieldLength]
  rw [nonceSlice, macSlice, salted, key]
  by_cases cut : 112 + rest.length < (112 + leNat field) % 2 ^ 32
  · rw [if_pos cut, if_pos cut]
  · rw [if_neg cut, if_neg cut]
    congr 1
    exact List.take_left' serverLength

end Fields

theorem responseBytes_of_length {buf : Bytes} (long : 112 ≤ buf.length) :
    ∃ serverRandom salt nonce mac field rest,
      buf = responseBytes serverRandom salt nonce mac field rest ∧
        serverRandom.length = 32 ∧ salt.length = 32 ∧ field.length = 4 := by
  refine ⟨buf.take 32, (buf.drop 32).take 32, Block.slice buf 64 12 (by omega),
    Block.slice buf 76 32 (by omega), (buf.drop 108).take 4, buf.drop 112, ?_, ?_, ?_, ?_⟩
  · have last : (buf.drop 108).take 4 ++ buf.drop 112 = buf.drop 108 := by
      rw [← List.drop_drop (i := 4) (j := 108), List.take_append_drop]
    have third : (buf.drop 76).take 32 ++ buf.drop 108 = buf.drop 76 := by
      rw [← List.drop_drop (i := 32) (j := 76), List.take_append_drop]
    have second : (buf.drop 64).take 12 ++ buf.drop 76 = buf.drop 64 := by
      rw [← List.drop_drop (i := 12) (j := 64), List.take_append_drop]
    have first : (buf.drop 32).take 32 ++ buf.drop 64 = buf.drop 32 := by
      rw [← List.drop_drop (i := 32) (j := 32), List.take_append_drop]
    simp only [responseBytes, Block.slice]
    rw [last, third, second, first, List.take_append_drop]
  · rw [List.length_take]
    omega
  · rw [List.length_take, List.length_drop]
    omega
  · rw [List.length_take, List.length_drop]
    omega

section Responses

variable (onBytes : platform.OnBytes) {residue : Residue UInt8} {buf : Bytes}
include onBytes

theorem serializeResponse_fields (response : AuthResponse UInt8) :
    serializeResponse platform response = responseBytes response.serverRandom response.salt
      response.nonce response.mac (leBytes 4 response.encryptedSessionKey.length)
      response.encryptedSessionKey := by
  rw [serializeResponse, onBytes.map_byte]
  simp only [responseBytes, List.append_assoc]

theorem deserializeResponse_serialized (residue : Residue UInt8) {response : AuthResponse UInt8}
    (formed : response.WellFormed) (starts : serializeResponse platform response <+: buf) :
    deserializeResponse platform residue buf = response := by
  obtain ⟨rest, rfl⟩ := starts
  have shape : serializeResponse platform response ++ rest =
      responseBytes response.serverRandom response.salt response.nonce response.mac
        (leBytes 4 response.encryptedSessionKey.length) (response.encryptedSessionKey ++ rest) := by
    rw [serializeResponse_fields onBytes]
    simp only [responseBytes, List.append_assoc]
  have count := leNat_leBytes 4 response.encryptedSessionKey.length formed.key
  rw [shape, deserializeResponse_fields formed.serverRandom formed.salt (leBytes_length 4 _)
    _ _ _ onBytes, count, if_neg, List.append_assoc, List.take_left]
  rw [List.length_append]
  omega

theorem parsesResponse_refused
    (inside : ∀ behind, deserializeResponse platform { residue with behind := behind } buf =
      deserializeResponse platform residue buf)
    (server : (deserializeResponse platform residue buf).serverRandom = [])
    (salt : (deserializeResponse platform residue buf).salt = [])
    (key : (deserializeResponse platform residue buf).encryptedSessionKey = []) :
    ParsesResponse platform residue buf where
  inside := inside
  exact := by
    intro response formed
    constructor
    · rintro rfl
      have length := formed.serverRandom
      rw [server] at length
      cases length
    · exact deserializeResponse_serialized onBytes residue formed
  wellFormed := fun some => absurd server some
  empty := fun _ => ⟨salt, key⟩

theorem parsesResponse_read
    (inside : ∀ behind, deserializeResponse platform { residue with behind := behind } buf =
      deserializeResponse platform residue buf)
    (formed : (deserializeResponse platform residue buf).WellFormed)
    (starts : serializeResponse platform (deserializeResponse platform residue buf) <+: buf) :
    ParsesResponse platform residue buf where
  inside := inside
  exact := by
    intro response formed
    constructor
    · rintro rfl
      exact starts
    · exact deserializeResponse_serialized onBytes residue formed
  wellFormed := fun _ => formed
  empty := by
    intro none
    have length := formed.serverRandom
    rw [none] at length
    cases length

theorem parsesResponse_short (short : buf.length < 112) : ParsesResponse platform residue buf := by
  have result : ∀ residue, deserializeResponse platform residue buf =
      { nonce := residue.nonce, mac := residue.mac } := by
    intro residue
    rw [deserializeResponse, dif_pos short]
  apply parsesResponse_refused onBytes
  · intro behind
    rw [result, result]
  · rw [result]
  · rw [result]
  · rw [result]

theorem parsesResponse_fields_iff {serverRandom salt field : Bytes} (nonce : Nonce UInt8)
    (mac : Mac UInt8) (rest : Bytes) (serverLength : serverRandom.length = 32)
    (saltLength : salt.length = 32) (fieldLength : field.length = 4) :
    ParsesResponse platform residue (responseBytes serverRandom salt nonce mac field rest) ↔
      leNat field + 112 < 2 ^ 32 ∨ leNat field ≤ rest.length := by
  have result := deserializeResponse_fields serverLength saltLength fieldLength nonce mac rest onBytes
  have small := leNat_lt field
  rw [fieldLength] at small
  by_cases cut : 112 + rest.length < (112 + leNat field) % 2 ^ 32
  · have unwrapped : leNat field + 112 < 2 ^ 32 := by omega
    simp only [if_pos cut] at result
    refine iff_of_true ?_ (.inl unwrapped)
    apply parsesResponse_refused onBytes
    · intro behind
      rw [result, result]
    · rw [result]
    · rw [result]
    · rw [result]
  · simp only [if_neg cut] at result
    by_cases whole : leNat field ≤ rest.length
    · refine iff_of_true ?_ (.inr whole)
      have key : ∀ behind : Bytes, (rest ++ behind).take (leNat field) = rest.take (leNat field) :=
        fun behind => List.take_append_of_le_length whole
      simp only [key] at result
      have length : (rest.take (leNat field)).length = leNat field := List.length_take_of_le whole
      apply parsesResponse_read onBytes
      · intro behind
        rw [result, result]
      · rw [result]
        refine ⟨serverLength, saltLength, ?_⟩
        change (rest.take (leNat field)).length < 2 ^ 32
        omega
      · have count : leBytes 4 (leNat field) = field := fieldLength ▸ leBytes_leNat field
        refine ⟨rest.drop (leNat field), ?_⟩
        rw [serializeResponse_fields onBytes, result]
        simp only [length, count, responseBytes, List.append_assoc, List.take_append_drop]
    · refine iff_of_false ?_ (by omega)
      intro parses
      have short := parses.inside []
      have long := parses.inside [0]
      rw [result] at short long
      have keys := congrArg (fun response => response.encryptedSessionKey.length) (short.trans long.symm)
      simp only [List.length_take, List.length_append, List.length_nil, List.length_singleton] at keys
      omega

end Responses

/-- The sum of the header's length and the length field does not wrap, or the text is all there. -/
theorem parsesResponse_iff (onBytes : platform.OnBytes) (residue : Residue UInt8) (buf : Bytes) :
    ParsesResponse platform residue buf ↔ buf.length < 112 ∨ responseLen buf + 112 < 2 ^ 32 ∨
      112 + responseLen buf ≤ buf.length := by
  by_cases short : buf.length < 112
  · exact iff_of_true (parsesResponse_short onBytes short) (.inl short)
  · obtain ⟨serverRandom, salt, nonce, mac, field, rest, rfl, serverLength, saltLength, fieldLength⟩ :=
      responseBytes_of_length (Nat.le_of_not_lt short)
    rw [parsesResponse_fields_iff onBytes nonce mac rest serverLength saltLength fieldLength,
      responseLen_responseBytes serverLength saltLength fieldLength,
      responseBytes_length serverLength saltLength fieldLength]
    omega

def sampleResponse : AuthResponse UInt8 where
  serverRandom := List.replicate 32 1
  salt := List.replicate 32 2
  encryptedSessionKey := [3, 4, 5]
  nonce := Block.fill 12 6
  mac := Block.fill 32 7

theorem parsesResponse_iff_serialized : ParsesResponse samplePlatform sampleSurroundings.residue
    (serializeResponse samplePlatform sampleResponse) := by
  refine (parsesResponse_iff samplePlatform_onBytes sampleSurroundings.residue _).mpr (.inr (.inl ?_))
  decide +kernel

/-- With the largest length in its field, a message of 112 bytes has its text read behind it. -/
theorem parsesResponse_overrun : ¬ ParsesResponse samplePlatform sampleSurroundings.residue
    (List.replicate 108 0 ++ [255, 255, 255, 255]) := by
  have shape : (List.replicate 108 0 ++ [255, 255, 255, 255] : Bytes) =
      responseBytes (List.replicate 32 0) (List.replicate 32 0) (Block.fill 12 0) (Block.fill 32 0)
        [255, 255, 255, 255] [] := by
    simp only [responseBytes, Block.fill, List.append_nil, ← List.append_assoc,
      List.replicate_append_replicate]
  rw [shape, parsesResponse_fields_iff samplePlatform_onBytes _ _ _ List.length_replicate
    List.length_replicate rfl]
  decide

end Udaf
