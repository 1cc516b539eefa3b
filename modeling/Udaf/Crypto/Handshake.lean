import Udaf.Crypto.Codec

/-!
What each call of the handshake does, one lemma a function, and the honest
exchange assembled from them.
-/

namespace Udaf

open ByteString

variable {β : Type} {platform : Platform β}

structure Responded (platform : Platform β) (psk : List β) (request : AuthRequest β)
    (draws : ServerDraws β) (response : AuthResponse β) (keys : DerivedKeys β)
    (sealings : List (Sealing β)) : Prop where
  psk_length : psk.length = 32
  random_length : request.clientRandom.length = 32
  salt_length : request.salt.length = 32
  derived : pskDeriveSessionKeys platform psk request.salt = .ok keys
  sealed : pskAeadEncrypt platform keys.encKey draws.nonce draws.serverRandom.bytes
    request.clientRandom = (.ok response.encryptedSessionKey, sealings)
  mac : hmacSha256 platform keys.macKey (macData request.clientRandom response.serverRandom
    response.nonce.bytes response.encryptedSessionKey) = .ok response.mac.bytes
  serverRandom : response.serverRandom = draws.serverRandom.bytes
  salt : response.salt = draws.salt.bytes
  nonce : response.nonce = draws.nonce

theorem serverRespond_ok {psk : List β} {request : AuthRequest β} {draws : ServerDraws β}
    {response : AuthResponse β} {sealings : List (Sealing β)} :
    pskHandshakeServerRespond platform psk request draws = (.ok response, sealings) ↔
      ∃ keys, Responded platform psk request draws response keys sealings := by
  constructor
  · intro answered
    rw [pskHandshakeServerRespond] at answered
    split at answered
    · cases answered
    · rename_i sizes
      simp only [ne_eq, not_or, Decidable.not_not] at sizes
      split at answered
      · cases answered
      · rename_i keys derived
        split at answered
        · cases answered
        · rename_i encrypted sealed encryption
          split at answered
          · cases answered
          · rename_i mac code
            split at answered
            · cases answered
              exact ⟨keys, sizes.1, sizes.2.1, sizes.2.2, derived, encryption, code, rfl, rfl, rfl⟩
            · cases answered
  · rintro ⟨keys, responded⟩
    have code := responded.mac
    rw [responded.serverRandom, responded.nonce] at code
    rw [pskHandshakeServerRespond, if_neg (by simp [responded.psk_length, responded.random_length,
      responded.salt_length])]
    simp only [responded.derived, responded.sealed, code]
    rw [dif_pos response.mac.length_eq]
    cases response with
    | mk serverRandom salt encryptedSessionKey nonce mac =>
        have random := responded.serverRandom
        have salts := responded.salt
        have nonces := responded.nonce
        simp only at random salts nonces
        rw [random, salts, nonces]

theorem pskAeadEncrypt_ok {key plaintext aad ciphertext : List β} {nonce : Nonce β}
    {sealings : List (Sealing β)}
    (sealed : pskAeadEncrypt platform key nonce plaintext aad = (.ok ciphertext, sealings)) :
    sealings = [⟨key, nonce, aad, plaintext⟩] ∧
      ∃ body tag, platform.gcmEncrypt key nonce aad (cInt aad.length) plaintext
        (cInt plaintext.length) = some (body, tag) ∧ ciphertext = body ++ tag.bytes := by
  rw [pskAeadEncrypt] at sealed
  split at sealed
  · cases sealed
  · split at sealed
    · cases sealed
    · rename_i body tag encrypted
      cases sealed
      exact ⟨rfl, body, tag, encrypted, rfl⟩

theorem pskAeadEncrypt_sealings {key plaintext aad : List β} {nonce : Nonce β}
    (size : key.length = 32) :
    (pskAeadEncrypt platform key nonce plaintext aad).2 = [⟨key, nonce, aad, plaintext⟩] := by
  rw [pskAeadEncrypt, if_neg (by simp [size])]
  split <;> rfl

theorem pskAeadDecrypt_ok {key plaintext aad ciphertext : List β} {nonce : Nonce β}
    (opened : pskAeadDecrypt platform key nonce ciphertext aad = .ok plaintext) :
    ∃ long : 16 ≤ ciphertext.length,
      platform.gcmDecrypt key nonce aad (cInt aad.length)
        (ciphertext.take (ciphertext.length - 16))
        (cInt (ciphertext.take (ciphertext.length - 16)).length)
        (Block.slice ciphertext (ciphertext.length - 16) 16 (by omega)) = some plaintext := by
  rw [pskAeadDecrypt] at opened
  split at opened
  · cases opened
  · rename_i sizes
    simp only at opened
    split at opened
    · cases opened
    · rename_i text decrypted
      cases opened
      exact ⟨by omega, decrypted⟩

theorem hmacVerify_ok [DecidableEq β] {key message : List β} {expected : Mac β} :
    hmacSha256Verify platform key message expected.bytes = .ok () ↔
      ∃ mac, hmacSha256 platform key message = .ok mac ∧ mac.take 32 = expected.bytes := by
  have whole : expected.bytes.take 32 = expected.bytes :=
    List.take_of_length_le (by rw [expected.length_eq])
  rw [hmacSha256Verify, if_neg (by simp)]
  cases hmacSha256 platform key message with
  | error code => simp
  | ok mac =>
      simp only [constantTimeMemcmp, whole, decide_eq_true_eq, Except.ok.injEq, exists_eq_left']
      split
      · rename_i differ
        simp [differ]
      · rename_i same
        simpa using same

structure Finalized [DecidableEq β] (platform : Platform β) (psk : List β) (request : AuthRequest β)
    (response : AuthResponse β) (keys : DerivedKeys β) : Prop where
  psk_length : psk.length = 32
  derived : pskDeriveSessionKeys platform psk request.salt = .ok keys
  mac : ∃ mac, hmacSha256 platform keys.macKey (macData request.clientRandom response.serverRandom
    response.nonce.bytes response.encryptedSessionKey) = .ok mac ∧ mac.take 32 = response.mac.bytes
  opened : ∃ plaintext, pskAeadDecrypt platform keys.encKey response.nonce
    response.encryptedSessionKey request.clientRandom = .ok plaintext

theorem clientFinalize_ok [DecidableEq β] {psk : List β} {request : AuthRequest β}
    {response : AuthResponse β} {keys : DerivedKeys β} :
    pskHandshakeClientFinalize platform psk request response = .ok keys ↔
      Finalized platform psk request response keys := by
  constructor
  · intro accepted
    rw [pskHandshakeClientFinalize] at accepted
    split at accepted
    · cases accepted
    · rename_i size
      split at accepted
      · cases accepted
      · rename_i derivedKeys derived
        split at accepted
        · cases accepted
        · rename_i verified
          split at accepted
          · cases accepted
          · rename_i plaintext opened
            cases accepted
            exact ⟨by simpa using size, derived, hmacVerify_ok.mp verified, plaintext, opened⟩
  · rintro ⟨size, derived, mac, plaintext, opened⟩
    have verified := hmacVerify_ok.mpr mac
    rw [pskHandshakeClientFinalize, if_neg (by simp [size])]
    simp only [derived, verified, opened]

theorem hkdfSha256_length {salt ikm okm : List β} {info : String} {outLength : Nat}
    (output : hkdfSha256 platform salt ikm info outLength = .ok okm) : okm.length = outLength := by
  rw [hkdfSha256] at output
  split at output
  · cases output
  · split at output
    · cases output
    · split at output
      · cases output
      · rename_i block _
        cases output
        exact block.length_eq

theorem pskDeriveSessionKeys_ok {psk salt : List β} {keys : DerivedKeys β}
    (derived : pskDeriveSessionKeys platform psk salt = .ok keys) :
    keys.encKey.length = 32 ∧ keys.macKey.length = 32 := by
  rw [pskDeriveSessionKeys] at derived
  split at derived
  · cases derived
  · rename_i session first
    split at derived
    · cases derived
    · rename_i mac second
      cases derived
      exact ⟨hkdfSha256_length first, hkdfSha256_length second⟩

namespace PskAuthenticator

def requested (auth : PskAuthenticator β) (draws : ClientDraws β) : PskAuthenticator β :=
  { auth with clientRequest := pskHandshakeClientNew auth.identity draws }

def agreed (auth : PskAuthenticator β) (response : AuthResponse β) (keys : DerivedKeys β) :
    PskAuthenticator β :=
  { auth with serverResponse := response, keys := keys, done := true }

theorem processRequest_responded {auth : PskAuthenticator β} {draws : ServerDraws β}
    {peerMsg : List β} {response : AuthResponse β} {keys : DerivedKeys β}
    {sealings : List (Sealing β)}
    (responded : Responded platform auth.psk (deserializeRequest platform peerMsg) draws response
      keys sealings) :
    auth.processRequest platform draws peerMsg = {
      result := .ok (serializeResponse platform response)
      after := auth.agreed response keys
      sealings := sealings } := by
  have nonempty : (deserializeRequest platform peerMsg).clientRandom.isEmpty = false := by
    have length := responded.random_length
    rw [List.isEmpty_eq_false_iff, ← List.length_pos_iff]
    omega
  rw [processRequest]
  simp only [nonempty, serverRespond_ok.mpr ⟨keys, responded⟩, responded.derived,
    Bool.false_eq_true, if_false]
  rfl

theorem processRequest_ok {auth : PskAuthenticator β} {draws : ServerDraws β}
    {peerMsg out : List β} (answered : (auth.processRequest platform draws peerMsg).result = .ok out) :
    ∃ response keys sealings,
      Responded platform auth.psk (deserializeRequest platform peerMsg) draws response keys sealings ∧
        auth.processRequest platform draws peerMsg = {
          result := .ok (serializeResponse platform response)
          after := auth.agreed response keys
          sealings := sealings } := by
  rw [processRequest] at answered
  simp only at answered
  split at answered
  · cases answered
  · cases answer : pskHandshakeServerRespond platform auth.psk (deserializeRequest platform peerMsg)
        draws with
    | mk outcome sealings =>
        cases outcome with
        | error code => simp [answer] at answered
        | ok response =>
            obtain ⟨keys, responded⟩ := serverRespond_ok.mp answer
            exact ⟨response, keys, sealings, responded, processRequest_responded responded⟩

theorem processResponse_finalized [DecidableEq β] {auth : PskAuthenticator β} {residue : Residue β}
    {peerMsg : List β} {keys : DerivedKeys β}
    (finalized : Finalized platform auth.psk auth.clientRequest
      (deserializeResponse platform residue peerMsg) keys) :
    auth.processResponse platform residue peerMsg = {
      result := .ok []
      after := auth.agreed (deserializeResponse platform residue peerMsg) keys } := by
  rw [processResponse]
  simp only [clientFinalize_ok.mpr finalized]
  rfl

theorem processResponse_ok [DecidableEq β] {auth : PskAuthenticator β} {residue : Residue β}
    {peerMsg out : List β} (accepted : (auth.processResponse platform residue peerMsg).result = .ok out) :
    ∃ keys, Finalized platform auth.psk auth.clientRequest
      (deserializeResponse platform residue peerMsg) keys := by
  rw [processResponse] at accepted
  cases finalize : pskHandshakeClientFinalize platform auth.psk auth.clientRequest
      (deserializeResponse platform residue peerMsg) with
  | error code => simp [finalize] at accepted
  | ok keys => exact ⟨keys, clientFinalize_ok.mp finalize⟩

end PskAuthenticator

end Udaf
