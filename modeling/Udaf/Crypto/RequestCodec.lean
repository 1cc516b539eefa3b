import Udaf.Crypto.Session

/-!
`deserialize_request` on arbitrary bytes: which messages it takes for the serialisation
of a request, and where it reads.
-/

namespace Udaf

open ByteString

structure Platform.OnBytes (platform : Platform UInt8) : Prop where
  byte : ∀ b, platform.byte b = b
  value : ∀ b, platform.value b = b

variable {platform : Platform UInt8}

namespace Platform.OnBytes

variable (onBytes : platform.OnBytes)
include onBytes

theorem map_byte (bytes : Bytes) : bytes.map platform.byte = bytes := by
  rw [show platform.byte = id from funext onBytes.byte, List.map_id]

theorem map_value (bytes : Bytes) : bytes.map platform.value = bytes := by
  rw [show platform.value = id from funext onBytes.value, List.map_id]

end Platform.OnBytes

theorem samplePlatform_onBytes : samplePlatform.OnBytes := ⟨fun _ => rfl, fun _ => rfl⟩

structure AuthRequest.WellFormed (request : AuthRequest UInt8) : Prop where
  clientRandom : request.clientRandom.length = 32
  salt : request.salt.length = 32
  identity : request.identity.length ≤ 255

/-- `deserialize_request` with each read checked. -/
def deserializeRequestChecked (platform : Platform UInt8) (buf : Bytes) :
    Option (AuthRequest UInt8) :=
  if buf.length < 65 then some {}
  else do
    let clientRandom ← readRange buf 0 32
    let salt ← readRange buf 32 32
    let byte ← buf[64]?
    let idLen := (platform.value byte).toNat
    if buf.length < 65 + idLen then some {}
    else
      let identity ← readRange buf 65 idLen
      some { clientRandom := clientRandom, salt := salt, identity := identity }

/-- The message is parsed as the request that it begins with. -/
structure ParsesRequest (platform : Platform UInt8) (buf : Bytes) : Prop where
  inside : deserializeRequestChecked platform buf = some (deserializeRequest platform buf)
  exact : ∀ request, request.WellFormed → (deserializeRequest platform buf = request ↔
    serializeRequest platform request <+: buf)
  wellFormed : (deserializeRequest platform buf).clientRandom ≠ [] →
    (deserializeRequest platform buf).WellFormed
  empty : (deserializeRequest platform buf).clientRandom = [] → deserializeRequest platform buf = {}

def requestBytes (clientRandom salt : Bytes) (idLen : UInt8) (rest : Bytes) : Bytes :=
  clientRandom ++ (salt ++ idLen :: rest)

section RequestFields

variable {clientRandom salt : Bytes} (randomLength : clientRandom.length = 32)
  (saltLength : salt.length = 32) (idLen : UInt8) (rest : Bytes)
include randomLength saltLength

theorem requestBytes_length :
    (requestBytes clientRandom salt idLen rest).length = 65 + rest.length := by
  simp only [requestBytes, List.length_append, List.length_cons, randomLength, saltLength]
  omega

theorem requestBytes_drop : (requestBytes clientRandom salt idLen rest).drop 64 = idLen :: rest := by
  rw [requestBytes, ← List.drop_drop (i := 32) (j := 32), List.drop_left' randomLength,
    List.drop_left' saltLength]

theorem requestBytes_idLen : (requestBytes clientRandom salt idLen rest)[64]? = some idLen := by
  rw [← List.head?_drop, requestBytes_drop randomLength saltLength]
  rfl

theorem requestBytes_rest : (requestBytes clientRandom salt idLen rest).drop 65 = rest := by
  rw [← List.drop_drop (i := 1) (j := 64), requestBytes_drop randomLength saltLength]
  rfl

omit saltLength in
theorem requestBytes_random : (requestBytes clientRandom salt idLen rest).take 32 = clientRandom :=
  List.take_left' randomLength

theorem requestBytes_salt :
    ((requestBytes clientRandom salt idLen rest).drop 32).take 32 = salt := by
  rw [requestBytes, List.drop_left' randomLength, List.take_left' saltLength]

theorem deserializeRequest_fields (onBytes : platform.OnBytes) :
    deserializeRequest platform (requestBytes clientRandom salt idLen rest) =
      if rest.length < idLen.toNat then {}
      else {
        clientRandom := clientRandom
        salt := salt
        identity := rest.take idLen.toNat } := by
  have length := requestBytes_length randomLength saltLength idLen rest
  have long : 64 < (requestBytes clientRandom salt idLen rest).length := by omega
  have byte : (requestBytes clientRandom salt idLen rest)[64] = idLen := by
    have found := requestBytes_idLen randomLength saltLength idLen rest
    rw [List.getElem?_eq_getElem long] at found
    exact Option.some.inj found
  rw [deserializeRequest, dif_neg (by omega)]
  simp only [byte, onBytes.value, length, Nat.add_lt_add_iff_left,
    requestBytes_random randomLength, requestBytes_salt randomLength saltLength,
    requestBytes_rest randomLength saltLength]

theorem deserializeRequestChecked_fields (onBytes : platform.OnBytes) :
    deserializeRequestChecked platform (requestBytes clientRandom salt idLen rest) =
      some (deserializeRequest platform (requestBytes clientRandom salt idLen rest)) := by
  have length := requestBytes_length randomLength saltLength idLen rest
  have first : readRange (requestBytes clientRandom salt idLen rest) 0 32 = some clientRandom := by
    rw [readRange, if_pos (by omega), List.drop_zero, requestBytes_random randomLength]
  have second : readRange (requestBytes clientRandom salt idLen rest) 32 32 = some salt := by
    rw [readRange, if_pos (by omega), requestBytes_salt randomLength saltLength]
  rw [deserializeRequest_fields randomLength saltLength idLen rest onBytes,
    deserializeRequestChecked, if_neg (by omega)]
  simp only [first, second, requestBytes_idLen randomLength saltLength, Option.bind_eq_bind,
    Option.bind_some, onBytes.value, length, Nat.add_lt_add_iff_left]
  by_cases cut : rest.length < idLen.toNat
  · rw [if_pos cut, if_pos cut]
  · have third : readRange (requestBytes clientRandom salt idLen rest) 65 idLen.toNat =
        some (rest.take idLen.toNat) := by
      rw [readRange, if_pos (by omega), requestBytes_rest randomLength saltLength]
    rw [if_neg cut, if_neg cut, third]
    rfl

end RequestFields

theorem requestBytes_of_length {buf : Bytes} (long : 65 ≤ buf.length) :
    ∃ clientRandom salt idLen rest, buf = requestBytes clientRandom salt idLen rest ∧
      clientRandom.length = 32 ∧ salt.length = 32 := by
  have third : 0 < ((buf.drop 32).drop 32).length := by
    simp only [List.length_drop]
    omega
  obtain ⟨idLen, rest, tail⟩ := List.exists_cons_of_length_pos third
  refine ⟨buf.take 32, (buf.drop 32).take 32, idLen, rest, ?_, ?_, ?_⟩
  · rw [requestBytes, ← tail, List.take_append_drop, List.take_append_drop]
  · rw [List.length_take]
    omega
  · rw [List.length_take, List.length_drop]
    omega

section Requests

variable (onBytes : platform.OnBytes)
include onBytes

theorem serializeRequest_fields (request : AuthRequest UInt8) :
    serializeRequest platform request = requestBytes request.clientRandom request.salt
      (UInt8.ofNat request.identity.length) request.identity := by
  rw [serializeRequest, onBytes.byte]
  simp only [requestBytes, List.append_assoc, List.singleton_append]

theorem deserializeRequest_serialized {request : AuthRequest UInt8} (formed : request.WellFormed)
    {buf : Bytes} (starts : serializeRequest platform request <+: buf) :
    deserializeRequest platform buf = request := by
  obtain ⟨rest, rfl⟩ := starts
  have shape : serializeRequest platform request ++ rest =
      requestBytes request.clientRandom request.salt (UInt8.ofNat request.identity.length)
        (request.identity ++ rest) := by
    rw [serializeRequest_fields onBytes]
    simp only [requestBytes, List.append_assoc, List.cons_append]
  have idLen : (UInt8.ofNat request.identity.length).toNat = request.identity.length :=
    UInt8.toNat_ofNat_of_lt' (Nat.lt_succ_of_le formed.identity)
  rw [shape, deserializeRequest_fields formed.clientRandom formed.salt _ _ onBytes, idLen, if_neg,
    List.take_left]
  rw [List.length_append]
  omega

theorem parsesRequest_refused {buf : Bytes}
    (inside : deserializeRequestChecked platform buf = some (deserializeRequest platform buf))
    (refused : deserializeRequest platform buf = {}) : ParsesRequest platform buf where
  inside := inside
  exact := by
    intro request formed
    constructor
    · rintro rfl
      have length := formed.clientRandom
      rw [refused] at length
      cases length
    · exact deserializeRequest_serialized onBytes formed
  wellFormed := by
    intro some
    rw [refused] at some
    exact absurd rfl some
  empty := fun _ => refused

theorem parsesRequest (buf : Bytes) : ParsesRequest platform buf := by
  by_cases short : buf.length < 65
  · have refused : deserializeRequest platform buf = {} := by
      rw [deserializeRequest, dif_pos short]
    refine parsesRequest_refused onBytes ?_ refused
    rw [deserializeRequestChecked, if_pos short, refused]
  · obtain ⟨clientRandom, salt, idLen, rest, rfl, randomLength, saltLength⟩ :=
      requestBytes_of_length (Nat.le_of_not_lt short)
    have inside := deserializeRequestChecked_fields randomLength saltLength idLen rest onBytes
    have result := deserializeRequest_fields randomLength saltLength idLen rest onBytes
    by_cases cut : rest.length < idLen.toNat
    · exact parsesRequest_refused onBytes inside (result.trans (if_pos cut))
    · rw [if_neg cut] at result
      have size := idLen.toNat_lt
      have length : (rest.take idLen.toNat).length = idLen.toNat :=
        List.length_take_of_le (Nat.le_of_not_lt cut)
      have formed : (deserializeRequest platform
          (requestBytes clientRandom salt idLen rest)).WellFormed := by
        rw [result]
        refine ⟨randomLength, saltLength, ?_⟩
        change (rest.take idLen.toNat).length ≤ 255
        omega
      refine ⟨inside, ?_, fun _ => formed, ?_⟩
      · intro request requested
        constructor
        · rintro rfl
          refine ⟨rest.drop idLen.toNat, ?_⟩
          rw [serializeRequest_fields onBytes, result]
          simp only [length, UInt8.ofNat_toNat, requestBytes, List.append_assoc, List.cons_append,
            List.take_append_drop]
        · exact deserializeRequest_serialized onBytes requested
      · intro none
        have length := formed.clientRandom
        rw [none] at length
        cases length

end Requests

def RecoversRequest (platform : Platform UInt8) (psk identity : Bytes) (draws : ClientDraws UInt8) :
    Prop :=
  ∃ message, ((PskAuthenticator.createClient platform psk identity).beginHandshake platform
      draws).result = .ok message ∧
    deserializeRequest platform message = {
      clientRandom := draws.clientRandom.bytes
      salt := draws.salt.bytes
      identity := identity }

theorem recoversRequest_iff (onBytes : platform.OnBytes) (psk identity : Bytes)
    (draws : ClientDraws UInt8) :
    RecoversRequest platform psk identity draws ↔ identity.length ≤ 255 := by
  let request : AuthRequest UInt8 := {
    clientRandom := draws.clientRandom.bytes
    salt := draws.salt.bytes
    identity := identity }
  have sent : RecoversRequest platform psk identity draws ↔
      deserializeRequest platform (serializeRequest platform request) = request := by
    constructor
    · rintro ⟨message, begun, read⟩
      cases begun
      exact read
    · intro read
      exact ⟨_, rfl, read⟩
  have parses := parsesRequest onBytes (serializeRequest platform request)
  rw [sent]
  constructor
  · intro read
    have some : (deserializeRequest platform (serializeRequest platform request)).clientRandom ≠ [] := by
      intro none
      have length := draws.clientRandom.length_eq
      rw [read] at none
      rw [show draws.clientRandom.bytes = [] from none] at length
      cases length
    have formed := parses.wellFormed some
    rw [read] at formed
    exact formed.identity
  · intro fits
    have formed : request.WellFormed := ⟨draws.clientRandom.length_eq, draws.salt.length_eq, fits⟩
    exact deserializeRequest_serialized onBytes formed (List.prefix_refl _)

/-- Requests are recovered up to identities of 255 bytes, and the parser reads inside any buffer. -/
theorem request_codec_iff (onBytes : platform.OnBytes) :
    (∀ psk identity draws, RecoversRequest platform psk identity draws ↔ identity.length ≤ 255) ∧
      ∀ buf, ParsesRequest platform buf :=
  ⟨recoversRequest_iff onBytes, parsesRequest onBytes⟩

theorem request_codec_iff_sample :
    (∀ psk identity draws, RecoversRequest samplePlatform psk identity draws ↔
      identity.length ≤ 255) ∧ ∀ buf, ParsesRequest samplePlatform buf :=
  request_codec_iff samplePlatform_onBytes

/-- The length byte of 256 is zero. -/
theorem request_loses_identity : ¬ RecoversRequest samplePlatform samplePsk (List.replicate 256 97)
    sampleSurroundings.clientDraws := by
  rw [recoversRequest_iff samplePlatform_onBytes, List.length_replicate]
  decide

end Udaf
