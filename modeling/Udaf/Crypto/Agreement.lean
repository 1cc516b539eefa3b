import Udaf.Crypto.Secrecy

/-!
The client authenticates the server: a client that accepts a response agrees with
some server, which made that response to the client's own request and holds the
same session keys.
-/

namespace Udaf

open ByteString PskAuthenticator Runs Symbolic

variable {ι : Type} {reading : Reading}

theorem answers_responded {record : Record ι} {surroundings : Surroundings Sym}
    {request : AuthRequest Sym} {response : AuthResponse Sym}
    (deed : Deed reading surroundings record.before record.call record.outcome)
    (answers : record.Answers reading request response) :
    request.clientRandom.length = 32 ∧ request.salt.length = 32 ∧
      response.serverRandom.length = 32 ∧
      response.mac.bytes = macBytes (keysOf request.salt).macKey (macData request.clientRandom
        response.serverRandom response.nonce.bytes response.encryptedSessionKey) 32 ∧
      record.outcome.after.keys = keysOf request.salt := by
  obtain ⟨role, -, ⟨peerMsg, call, read⟩, result, kept⟩ := answers
  obtain ⟨party, before, recordCall, outcome⟩ := record
  simp only at deed role call result kept ⊢
  subst call
  cases deed with
  | answered _ shape responded =>
      rw [read] at shape
      subst shape kept
      refine ⟨responded.random_length, responded.salt_length, ?_, symbolic_hmac responded.mac, rfl⟩
      rw [agreed, responded.serverRandom, surroundings.serverDraws.serverRandom.length_eq]
  | accepted client => simp [client] at role
  | failed => cases result

theorem accepted_issued {past : List (Record ι)} {world : World ι}
    (secure : Secure reading past world) {psk peerMsg : List Sym} {request : AuthRequest Sym}
    {residue : Residue Sym} (known : ∀ symbol ∈ peerMsg, Knows world.traffic symbol)
    (finalized : Finalized (symbolic reading) psk request
      (deserializeResponse (symbolic reading) residue peerMsg) (keysOf request.salt)) :
    (deserializeResponse (symbolic reading) residue peerMsg).serverRandom.length = 32 ∧
      macBytes (keysOf request.salt).macKey (macData request.clientRandom
          (deserializeResponse (symbolic reading) residue peerMsg).serverRandom
          (deserializeResponse (symbolic reading) residue peerMsg).nonce.bytes
          (deserializeResponse (symbolic reading) residue peerMsg).encryptedSessionKey) 32 =
        (deserializeResponse (symbolic reading) residue peerMsg).mac.bytes ∧
      issuedMacs reading past (keysOf request.salt).macKey (macData request.clientRandom
        (deserializeResponse (symbolic reading) residue peerMsg).serverRandom
        (deserializeResponse (symbolic reading) residue peerMsg).nonce.bytes
        (deserializeResponse (symbolic reading) residue peerMsg).encryptedSessionKey) := by
  obtain ⟨-, -, ⟨mac, computed, code⟩, plaintext, opened⟩ := finalized
  generalize read : deserializeResponse (symbolic reading) residue peerMsg = response at *
  have text := symbolic_decrypt opened
  have sealed : (deserializeResponse (symbolic reading) residue peerMsg).encryptedSessionKey ≠ [] := by
    rw [read, text, ← List.length_pos_iff, aeadBytes_length]
    omega
  obtain ⟨random, whole⟩ := deserializeResponse_whole sealed
  rw [read] at random whole
  rw [symbolic_hmac computed, List.take_of_length_le (by simp)] at code
  refine ⟨random, code, ?_⟩
  apply @mac_issued _ _ _ _ 32 (by decide) (keysOf_guarded request.salt).2
  intro symbol member
  rw [code] at member
  exact secure.known_exposed (known symbol (whole symbol member))

/-- A client that accepts a response holds what some server gave out in answer to the client's own
request, and the keys that server derived. -/
theorem client_authenticates_server [DecidableEq ι] {roles : ι → Role} {past : List (Record ι)}
    {record : Record ι} {final : World ι}
    (run : Run (NetStep reading) (World.initial reading roles) (past ++ [record]) final)
    (role : record.before.isClient = true) {peerMsg out : List Sym}
    (call : record.call = .processHandshake peerMsg) (accepts : record.outcome.result = .ok out) :
    ∃ answer ∈ past, ∃ request response, answer.Answers reading request response ∧
      request.clientRandom = record.before.clientRequest.clientRandom ∧
      request.salt = record.before.clientRequest.salt ∧
      response.serverRandom = record.outcome.after.serverResponse.serverRandom ∧
      response.nonce = record.outcome.after.serverResponse.nonce ∧
      response.encryptedSessionKey = record.outcome.after.serverResponse.encryptedSessionKey ∧
      response.mac = record.outcome.after.serverResponse.mac ∧
      record.outcome.after.keys = answer.outcome.after.keys := by
  obtain ⟨world, secure, sound, ⟨surroundings, deed⟩, known⟩ := run_last run
  obtain ⟨party, before, request, outcome⟩ := record
  simp only at sound deed known role call accepts ⊢
  subst call
  cases deed with
  | answered server => simp [role] at server
  | failed => cases accepts
  | accepted client read finalized =>
      subst read
      obtain ⟨random, code, answer, member, request, response, answers, key, message⟩ :=
        accepted_issued secure known finalized
      obtain ⟨-, surroundings, deed⟩ := secure.deeds member
      obtain ⟨clientLength, saltLength, serverLength, mac, keys⟩ := answers_responded deed answers
      have salts := (kdfBytes_injective (by decide) key).1
      have own : before.clientRequest.clientRandom.length = 32 := by
        rcases sound.request with none | ⟨size, -⟩
        · rw [none] at salts
          rw [← salts] at saltLength
          cases saltLength
        · exact size
      obtain ⟨clients, servers, nonces, texts⟩ := macData_injective (own.trans clientLength.symm)
        (random.trans serverLength.symm) (by simp) message
      refine ⟨answer, member, request, response, answers, clients.symm, salts.symm,
        servers.symm, Block.ext nonces.symm, texts.symm, ?_, ?_⟩
      · apply Block.ext
        rw [mac, ← salts, ← clients, ← servers, ← nonces, ← texts]
        exact code
      · rw [keys, ← salts]
        rfl

theorem client_authenticates_server_honest :
    ∃ (past : List (Record Side)) (accept : Record Side) (final : World Side),
      Run (NetStep plainReading) (World.initial plainReading sideRoles) (past ++ [accept]) final ∧
      accept.outcome.result = .ok [] ∧
      ∃ answer ∈ past, ∃ request response, answer.Answers plainReading request response ∧
        request.salt = accept.before.clientRequest.salt ∧
        accept.outcome.after.keys = answer.outcome.after.keys := by
  obtain ⟨request, answer, accept, final, run, role, ⟨peerMsg, call⟩, result, -⟩ :=
    @handshake_run Side _ plainReading (World.initial plainReading sideRoles) .client .server
      (by decide) rfl rfl rfl rfl plainResidue
  obtain ⟨record, member, asked, given, answers, -, salts, -, -, -, -, keys⟩ :=
    @client_authenticates_server Side plainReading _ sideRoles [request, answer] accept final run
      role peerMsg [] call result
  exact ⟨[request, answer], accept, final, run, result, record, member, asked, given, answers, salts,
    keys⟩

end Udaf
