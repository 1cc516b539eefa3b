import Udaf.Crypto.Authenticator

/-!
The two wire formats read back what was written. The length byte of a request
counts its identity modulo 256, so of a longer identity only the beginning is read.
-/

namespace Udaf

open ByteString

variable {β : Type} {platform : Platform β}

theorem serializeRequest_length (request : AuthRequest β) :
    (serializeRequest platform request).length =
      request.clientRandom.length + request.salt.length + 1 + request.identity.length := by
  simp only [serializeRequest, List.length_append, List.length_singleton]

theorem serializeRequest_lengthByte {request : AuthRequest β}
    (random : request.clientRandom.length = 32) (salt : request.salt.length = 32)
    (inside : 64 < (serializeRequest platform request).length) :
    (serializeRequest platform request)[64] =
      platform.byte (UInt8.ofNat request.identity.length) := by
  have front : (request.clientRandom ++ request.salt).length = 64 := by
    rw [List.length_append, random, salt]
  have shape : serializeRequest platform request = (request.clientRandom ++ request.salt) ++
      platform.byte (UInt8.ofNat request.identity.length) :: request.identity := by
    rw [serializeRequest, List.append_assoc _ [_], List.singleton_append]
  exact List.getElem_of_append shape front

theorem deserialize_serializeRequest (works : platform.Works) {request : AuthRequest β}
    (random : request.clientRandom.length = 32) (salt : request.salt.length = 32) :
    deserializeRequest platform (serializeRequest platform request) =
      { request with identity := request.identity.take (request.identity.length % 256) } := by
  have length := @serializeRequest_length β platform request
  rw [random, salt] at length
  have inside : 64 < (serializeRequest platform request).length := by omega
  have count : (platform.value (serializeRequest platform request)[64]).toNat =
      request.identity.length % 256 := by
    rw [serializeRequest_lengthByte random salt, works.value_byte, UInt8.toNat_ofNat']
  have low := Nat.mod_le request.identity.length 256
  rw [deserializeRequest, dif_neg (by omega)]
  simp only [count]
  rw [if_neg (by omega)]
  have front : (request.clientRandom ++ request.salt ++
      [platform.byte (UInt8.ofNat request.identity.length)]).length = 65 := by
    simp [random, salt]
  congr 1
  · simp only [serializeRequest, List.append_assoc]
    exact List.take_left' random
  · simp only [serializeRequest, List.append_assoc]
    rw [List.drop_left' random, List.take_left' salt]
  · rw [serializeRequest, List.drop_left' front]

theorem deserializeRequest_salt {request : AuthRequest β} (random : request.clientRandom.length = 32)
    (salt : request.salt.length = 32)
    (read : (deserializeRequest platform (serializeRequest platform request)).salt ≠ []) :
    (deserializeRequest platform (serializeRequest platform request)).salt = request.salt := by
  rw [deserializeRequest] at read ⊢
  split at read
  · exact absurd rfl read
  · rename_i long
    rw [dif_neg long]
    simp only at read ⊢
    split at read
    · exact absurd rfl read
    · rename_i whole
      rw [if_neg whole]
      simp only [serializeRequest, List.append_assoc]
      rw [List.drop_left' random, List.take_left' salt]

theorem deserialize_serializeResponse (works : platform.Works) (residue : Residue β)
    {response : AuthResponse β} (random : response.serverRandom.length = 32)
    (salt : response.salt.length = 32)
    (bound : response.encryptedSessionKey.length + 112 < 2 ^ 32) :
    deserializeResponse platform residue (serializeResponse platform response) = response := by
  have length : (serializeResponse platform response).length =
      112 + response.encryptedSessionKey.length := by
    simp [serializeResponse, random, salt]
    omega
  have count : leNat (((leBytes 4 response.encryptedSessionKey.length).map platform.byte).map
      platform.value) = response.encryptedSessionKey.length := by
    rw [List.map_map, show platform.value ∘ platform.byte = id from funext works.value_byte,
      List.map_id]
    exact leNat_leBytes 4 _ (by omega)
  have fields : ((serializeResponse platform response).drop 108).take 4 =
      (leBytes 4 response.encryptedSessionKey.length).map platform.byte := by
    rw [serializeResponse, List.append_assoc, List.drop_left' (by simp [random, salt])]
    exact List.take_left' (by simp)
  rw [deserializeResponse, dif_neg (by omega)]
  simp only [fields, count]
  rw [if_neg (by omega)]
  cases response with
  | mk serverRandom responseSalt encryptedSessionKey nonce mac =>
      simp only at random salt length ⊢
      congr 1
      · simp only [serializeResponse, List.append_assoc]
        exact List.take_left' random
      · simp only [serializeResponse, List.append_assoc]
        rw [List.drop_left' random, List.take_left' salt]
      · rw [List.drop_append_of_le_length (by omega)]
        rw [serializeResponse, List.drop_left' (by simp [random, salt])]
        exact List.take_left' rfl
      · apply Block.slice_eq (serverRandom ++ responseSalt) (mac.bytes ++
          ((leBytes 4 encryptedSessionKey.length).map platform.byte ++ encryptedSessionKey))
        · simp only [serializeResponse, List.append_assoc]
        · simp [random, salt]
      · apply Block.slice_eq (serverRandom ++ responseSalt ++ nonce.bytes)
          ((leBytes 4 encryptedSessionKey.length).map platform.byte ++ encryptedSessionKey)
        · simp only [serializeResponse, List.append_assoc]
        · simp [random, salt]

theorem deserializeResponse_whole {residue : Residue β} {buf : List β}
    (some : (deserializeResponse platform residue buf).encryptedSessionKey ≠ []) :
    (deserializeResponse platform residue buf).serverRandom.length = 32 ∧
      ∀ byte ∈ (deserializeResponse platform residue buf).mac.bytes, byte ∈ buf := by
  by_cases short : buf.length < 112
  · simp [deserializeResponse, short] at some
  · simp only [deserializeResponse, dif_neg short] at some ⊢
    split at some
    · simp at some
    · rename_i long
      rw [if_neg long]
      constructor
      · rw [List.length_take]
        omega
      · intro byte member
        exact List.mem_of_mem_drop (List.mem_of_mem_take member)

theorem macData_injective {clientRandom serverRandom nonce encrypted : List β}
    {clientRandom' serverRandom' nonce' encrypted' : List β}
    (clients : clientRandom.length = clientRandom'.length)
    (servers : serverRandom.length = serverRandom'.length) (nonces : nonce.length = nonce'.length)
    (same : macData clientRandom serverRandom nonce encrypted =
      macData clientRandom' serverRandom' nonce' encrypted') :
    clientRandom = clientRandom' ∧ serverRandom = serverRandom' ∧ nonce = nonce' ∧
      encrypted = encrypted' := by
  simp only [macData, List.append_assoc] at same
  obtain ⟨first, rest⟩ := List.append_inj same clients
  obtain ⟨second, rest⟩ := List.append_inj rest servers
  obtain ⟨third, last⟩ := List.append_inj rest nonces
  exact ⟨first, second, third, last⟩

end Udaf
