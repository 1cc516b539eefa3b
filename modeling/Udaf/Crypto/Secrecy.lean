import Udaf.Crypto.Attacker

/-!
What holds on the network after any calls. One lemma says what a call can do; from
it, the attacker never gathers more than the exposed bytes, and session keys stay
guarded.
-/

namespace Udaf

open ByteString PskAuthenticator Runs Symbolic

variable {reading : Reading}

inductive Deed (reading : Reading) (surroundings : Surroundings Sym) (before : PskAuthenticator Sym) :
    Call Sym → AuthOutcome Sym → Prop where
  | requested (role : before.isClient = true) :
      Deed reading surroundings before .beginHandshake {
        result := .ok (serializeRequest (symbolic reading)
          (before.requested surroundings.clientDraws).clientRequest)
        after := before.requested surroundings.clientDraws }
  | answered {peerMsg : List Sym} {request : AuthRequest Sym} {response : AuthResponse Sym}
      (role : before.isClient = false)
      (read : request = deserializeRequest (symbolic reading) peerMsg)
      (responded : Responded (symbolic reading) networkPsk request surroundings.serverDraws response
        (keysOf request.salt) [⟨(keysOf request.salt).encKey, surroundings.serverDraws.nonce,
          request.clientRandom, surroundings.serverDraws.serverRandom.bytes⟩]) :
      Deed reading surroundings before (.processHandshake peerMsg) {
        result := .ok (serializeResponse (symbolic reading) response)
        after := before.agreed response (keysOf request.salt)
        sealings := [⟨(keysOf request.salt).encKey, surroundings.serverDraws.nonce,
          request.clientRandom, surroundings.serverDraws.serverRandom.bytes⟩] }
  | accepted {peerMsg : List Sym} {response : AuthResponse Sym} (role : before.isClient = true)
      (read : response = deserializeResponse (symbolic reading) surroundings.residue peerMsg)
      (finalized : Finalized (symbolic reading) networkPsk before.clientRequest response
        (keysOf before.clientRequest.salt)) :
      Deed reading surroundings before (.processHandshake peerMsg) {
        result := .ok []
        after := before.agreed response (keysOf before.clientRequest.salt) }
  | encrypted {plaintext ciphertext : List Sym} (done : before.done = true)
      (sealed : ciphertext = (zeroNonce (symbolic reading)).bytes ++
        aeadBytes before.keys.encKey (zeroNonce (symbolic reading)).bytes [] plaintext
          (plaintext.length + 16)) :
      Deed reading surroundings before (.encrypt plaintext) {
        result := .ok ciphertext
        after := before
        sealings := [⟨before.keys.encKey, zeroNonce (symbolic reading), [], plaintext⟩] }
  | decrypted {plaintext ciphertext nonce : List Sym} (done : before.done = true)
      (size : nonce.length = 12)
      (opened : ciphertext = nonce ++
        aeadBytes before.keys.encKey nonce [] plaintext (plaintext.length + 16)) :
      Deed reading surroundings before (.decrypt ciphertext) {
        result := .ok plaintext
        after := before }
  | failed {call : Call Sym} {code : ErrorCode} {response : AuthResponse Sym}
      {sealings : List (Sealing Sym)} :
      Deed reading surroundings before call {
        result := .error code
        after := { before with serverResponse := response }
        sealings := sealings }

theorem symbolic_encrypt {key plaintext aad ciphertext : List Sym} {nonce : Nonce Sym}
    {sealings : List (Sealing Sym)}
    (sealed : pskAeadEncrypt (symbolic reading) key nonce plaintext aad = (.ok ciphertext, sealings)) :
    ciphertext = aeadBytes key nonce.bytes aad plaintext (plaintext.length + 16) ∧
      sealings = [⟨key, nonce, aad, plaintext⟩] := by
  obtain ⟨shape, body, tag, encrypted, rfl⟩ := pskAeadEncrypt_ok sealed
  simp only [symbolic, Option.ite_none_right_eq_some, Option.some.injEq, Prod.mk.injEq] at encrypted
  obtain ⟨-, rfl, rfl⟩ := encrypted
  exact ⟨slice_whole (by simp), shape⟩

theorem symbolic_decrypt {key plaintext aad ciphertext : List Sym} {nonce : Nonce Sym}
    (opened : pskAeadDecrypt (symbolic reading) key nonce ciphertext aad = .ok plaintext) :
    ciphertext = aeadBytes key nonce.bytes aad plaintext (plaintext.length + 16) := by
  obtain ⟨long, decrypted⟩ := pskAeadDecrypt_ok opened
  simp only [symbolic, Option.ite_none_right_eq_some] at decrypted
  have text := openAead_some decrypted.2
  rwa [slice_whole (by omega)] at text

theorem requested_deed {before : PskAuthenticator Sym} {surroundings : Surroundings Sym} :
    Deed reading surroundings before .beginHandshake
      (before.beginHandshake (symbolic reading) surroundings.clientDraws) := by
  cases role : before.isClient with
  | true =>
      rw [beginHandshake_client role]
      exact .requested role
  | false =>
      rw [beginHandshake, if_neg (by simp [role])]
      exact @Deed.failed reading surroundings before _ _ before.serverResponse _

theorem answered_deed {before : PskAuthenticator Sym} {surroundings : Surroundings Sym}
    (key : before.psk = networkPsk) (role : before.isClient = false) (peerMsg : List Sym) :
    Deed reading surroundings before (.processHandshake peerMsg)
      (before.processRequest (symbolic reading) surroundings.serverDraws peerMsg) := by
  cases result : (before.processRequest (symbolic reading) surroundings.serverDraws peerMsg).result with
  | error code =>
      have unchanged : { before with serverResponse := before.serverResponse } = before := rfl
      rw [processRequest] at result ⊢
      simp only at result ⊢
      split at result
      · rename_i empty
        rw [if_pos empty, ← unchanged]
        exact .failed
      · rename_i nonempty
        rw [if_neg nonempty]
        split at result
        · rw [← unchanged]
          exact .failed
        · split at result
          · exact .failed
          · cases result
  | ok out =>
      obtain ⟨response, keys, sealings, responded, shape⟩ := processRequest_ok result
      rw [key] at responded
      have derived := responded.derived
      rw [derive_symbolic] at derived
      cases derived
      obtain ⟨-, rfl⟩ := symbolic_encrypt responded.sealed
      rw [shape]
      exact .answered role rfl responded

theorem accepted_deed {before : PskAuthenticator Sym} {surroundings : Surroundings Sym}
    (key : before.psk = networkPsk) (role : before.isClient = true) (peerMsg : List Sym) :
    Deed reading surroundings before (.processHandshake peerMsg)
      (before.processResponse (symbolic reading) surroundings.residue peerMsg) := by
  cases result : (before.processResponse (symbolic reading) surroundings.residue peerMsg).result with
  | error code =>
      rw [processResponse] at result ⊢
      simp only at result ⊢
      split at result
      · exact .failed
      · cases result
  | ok out =>
      obtain ⟨keys, finalized⟩ := processResponse_ok result
      rw [processResponse_finalized finalized]
      rw [key] at finalized
      have derived := finalized.derived
      rw [derive_symbolic] at derived
      cases derived
      exact .accepted role rfl finalized

theorem encrypted_deed {before : PskAuthenticator Sym} {surroundings : Surroundings Sym}
    (plaintext : List Sym) :
    Deed reading surroundings before (.encrypt plaintext)
      (before.encrypt (symbolic reading) plaintext) := by
  rw [encrypt]
  split
  · rename_i done
    split
    · exact @Deed.failed reading surroundings before _ _ before.serverResponse _
    · rename_i enc sealings sealed
      obtain ⟨rfl, rfl⟩ := symbolic_encrypt sealed
      exact .encrypted done rfl
  · exact @Deed.failed reading surroundings before _ _ before.serverResponse _

theorem decrypted_deed {before : PskAuthenticator Sym} {surroundings : Surroundings Sym}
    (ciphertext : List Sym) :
    Deed reading surroundings before (.decrypt ciphertext)
      (before.decrypt (symbolic reading) ciphertext) := by
  rw [decrypt]
  split
  · rename_i done
    split
    · exact @Deed.failed reading surroundings before _ _ before.serverResponse _
    · rename_i long
      cases opened : pskAeadDecrypt (symbolic reading) before.keys.encKey
          (Block.slice ciphertext 0 12 (by omega)) (ciphertext.drop 12) [] with
      | error code => exact @Deed.failed reading surroundings before _ _ before.serverResponse _
      | ok plaintext =>
          refine .decrypted done (Block.slice ciphertext 0 12 (by omega)).length_eq ?_
          rw [← symbolic_decrypt opened]
          simp [Block.slice]
  · exact @Deed.failed reading surroundings before _ _ before.serverResponse _

theorem perform_deed {before : PskAuthenticator Sym} (key : before.psk = networkPsk)
    (surroundings : Surroundings Sym) (call : Call Sym) :
    Deed reading surroundings before call (before.perform (symbolic reading) surroundings call) := by
  cases call with
  | beginHandshake => exact requested_deed
  | processHandshake peerMsg =>
      rw [perform, processHandshake]
      split
      · rename_i role
        exact accepted_deed key role peerMsg
      · rename_i role
        exact answered_deed key (by simpa using role) peerMsg
  | encrypt plaintext => exact encrypted_deed plaintext
  | decrypt ciphertext => exact decrypted_deed ciphertext

structure Sound (auth : PskAuthenticator Sym) : Prop where
  psk : auth.psk = networkPsk
  identity : ∀ symbol ∈ auth.identity, ∃ byte, symbol = .name (.byte byte)
  request : auth.clientRequest = {} ∨
    auth.clientRequest.clientRandom.length = 32 ∧ auth.clientRequest.salt.length = 32
  keyed : auth.done = true → ∃ salt, auth.keys = keysOf salt

theorem deed_sound {surroundings : Surroundings Sym} {before : PskAuthenticator Sym}
    {call : Call Sym} {outcome : AuthOutcome Sym} (sound : Sound before)
    (deed : Deed reading surroundings before call outcome) : Sound outcome.after := by
  cases deed with
  | requested role =>
      exact ⟨sound.psk, sound.identity, .inr ⟨surroundings.clientDraws.clientRandom.length_eq,
        surroundings.clientDraws.salt.length_eq⟩, sound.keyed⟩
  | answered role read responded => exact ⟨sound.psk, sound.identity, sound.request, fun _ => ⟨_, rfl⟩⟩
  | accepted role read finalized => exact ⟨sound.psk, sound.identity, sound.request, fun _ => ⟨_, rfl⟩⟩
  | encrypted done sealed => exact sound
  | decrypted done size opened => exact sound
  | failed => exact ⟨sound.psk, sound.identity, sound.request, sound.keyed⟩

theorem create_sound (role : Role) : Sound (role.create reading) := by
  cases role with
  | client identity =>
      refine ⟨rfl, ?_, .inl rfl, by simp [Role.create, createClient]⟩
      intro symbol member
      obtain ⟨byte, -, rfl⟩ := List.mem_map.mp member
      exact ⟨byte, rfl⟩
  | server => exact ⟨rfl, by simp [Role.create, createServer], .inl rfl, by
      simp [Role.create, createServer]⟩

structure Record.Answers {ι : Type} (reading : Reading) (record : Record ι)
    (request : AuthRequest Sym) (response : AuthResponse Sym) : Prop where
  role : record.before.isClient = false
  psk : record.before.psk = networkPsk
  call : ∃ peerMsg, record.call = .processHandshake peerMsg ∧
    deserializeRequest (symbolic reading) peerMsg = request
  result : record.outcome.result = .ok (serializeResponse (symbolic reading) response)
  response : record.outcome.after.serverResponse = response

def issuedMacs {ι : Type} (reading : Reading) (past : List (Record ι)) (key message : List Sym) :
    Prop :=
  ∃ record ∈ past, ∃ request response, record.Answers reading request response ∧
    key = (keysOf request.salt).macKey ∧
    message = macData request.clientRandom response.serverRandom response.nonce.bytes
      response.encryptedSessionKey

def issuedSeals {ι : Type} (past : List (Record ι)) (key nonce aad plaintext : List Sym) : Prop :=
  ∃ record ∈ past, ∃ out block, record.outcome.result = .ok out ∧
    ⟨key, block, aad, plaintext⟩ ∈ record.outcome.sealings ∧ nonce = block.bytes

/-- What a run keeps: sound parties, records that are deeds of sound parties, and a network that
carries exposed bytes only. -/
structure Secure {ι : Type} (reading : Reading) (past : List (Record ι)) (world : World ι) : Prop where
  parties (party : ι) : Sound (world.parties party)
  deeds {record : Record ι} : record ∈ past → Sound record.before ∧
    ∃ surroundings, Deed reading surroundings record.before record.call record.outcome
  heard : ∀ message ∈ world.traffic, ∀ symbol ∈ message,
    Exposed (issuedMacs reading past) (issuedSeals past) symbol

theorem keysOf_guarded {macs : List Sym → List Sym → Prop}
    {seals : List Sym → List Sym → List Sym → List Sym → Prop} (salt : List Sym) :
    Guarded macs seals (keysOf salt).encKey ∧ Guarded macs seals (keysOf salt).macKey := by
  have session : Guarded macs seals (kdfBytes salt networkPsk sessionInfo 32) :=
    kdf_guarded (by decide) (secret_guarded (by decide))
  exact ⟨session, kdf_guarded (by decide) session⟩

section World

variable {ι : Type} {past : List (Record ι)} {world : World ι}

theorem Secure.seals_guarded (secure : Secure reading past world) {macs : List Sym → List Sym → Prop}
    {seals : List Sym → List Sym → List Sym → List Sym → Prop}
    {key nonce aad plaintext : List Sym} (issued : issuedSeals past key nonce aad plaintext) :
    Guarded macs seals key := by
  obtain ⟨record, member, out, block, result, sealing, -⟩ := issued
  obtain ⟨sound, surroundings, deed⟩ := secure.deeds member
  generalize record.outcome = outcome at deed result sealing
  generalize record.call = call at deed
  cases deed with
  | requested | accepted | decrypted => simp at sealing
  | answered role read responded =>
      rw [List.mem_singleton] at sealing
      cases sealing
      exact (keysOf_guarded _).1
  | encrypted done sealed =>
      obtain ⟨salt, keys⟩ := sound.keyed done
      rw [List.mem_singleton] at sealing
      cases sealing
      rw [keys]
      exact (keysOf_guarded salt).1
  | failed => cases result

theorem Secure.known_exposed (secure : Secure reading past world) {symbol : Sym}
    (known : Knows world.traffic symbol) :
    Exposed (issuedMacs reading past) (issuedSeals past) symbol :=
  known.exposed secure.heard secure.seals_guarded

theorem symbolic_hmac {key message : List Sym} {mac : List Sym}
    (computed : hmacSha256 (symbolic reading) key message = .ok mac) :
    mac = macBytes key message 32 := by
  rw [hmacSha256] at computed
  split at computed
  · cases computed
  · cases computed
    rfl

theorem published_ok {call : Call Sym} {result : Except ErrorCode (List Sym)} {message : List Sym}
    (inside : message ∈ call.published result) : result = .ok message := by
  cases result with
  | error code => cases call <;> simp [Call.published] at inside
  | ok out =>
      cases call with
      | decrypt ciphertext => simp [Call.published] at inside
      | beginHandshake | processHandshake | encrypt =>
          rw [Call.published, List.mem_singleton] at inside
          · rw [inside]
          · nofun

theorem answer_exposed {record : Record ι} {drawn : Nat} {residue : Residue Sym}
    {request : AuthRequest Sym} {response : AuthResponse Sym}
    (responded : Responded (symbolic reading) networkPsk request
      (freshDraws drawn residue).serverDraws response (keysOf request.salt)
      [⟨(keysOf request.salt).encKey, (freshDraws drawn residue).serverDraws.nonce,
        request.clientRandom, (freshDraws drawn residue).serverDraws.serverRandom.bytes⟩])
    (answers : record.Answers reading request response)
    (sealings : record.outcome.sealings = [⟨(keysOf request.salt).encKey,
      (freshDraws drawn residue).serverDraws.nonce, request.clientRandom,
      (freshDraws drawn residue).serverDraws.serverRandom.bytes⟩])
    (member : record ∈ past) :
    ∀ symbol ∈ serializeResponse (symbolic reading) response,
      Exposed (issuedMacs reading past) (issuedSeals past) symbol := by
  have sealed := (symbolic_encrypt responded.sealed).1
  have code := symbolic_hmac responded.mac
  intro symbol present
  simp only [serializeResponse, List.mem_append] at present
  rcases present with ((((random | salt) | nonce) | mac) | length) | encrypted
  · rw [responded.serverRandom] at random
    simp only [freshDraws, randomBytes, List.mem_map] at random
    obtain ⟨index, -, rfl⟩ := random
    exact .random
  · rw [responded.salt] at salt
    simp only [freshDraws, randomBytes, List.mem_map] at salt
    obtain ⟨index, -, rfl⟩ := salt
    exact .random
  · rw [responded.nonce] at nonce
    simp only [freshDraws, randomBytes, List.mem_map] at nonce
    obtain ⟨index, -, rfl⟩ := nonce
    exact .random
  · rw [code] at mac
    simp only [macBytes, List.mem_map] at mac
    obtain ⟨index, -, rfl⟩ := mac
    exact .issuedMac ⟨record, member, request, response, answers, rfl, rfl⟩
  · obtain ⟨byte, -, rfl⟩ := List.mem_map.mp length
    exact .byte
  · rw [sealed] at encrypted
    simp only [aeadBytes, List.mem_map] at encrypted
    obtain ⟨index, -, rfl⟩ := encrypted
    exact .issuedAead ⟨record, member, _, _, answers.result, by rw [sealings]; simp, rfl⟩

theorem deed_published {record : Record ι} {drawn : Nat} {residue : Residue Sym}
    (sound : Sound record.before)
    (deed : Deed reading (freshDraws drawn residue) record.before record.call record.outcome)
    (member : record ∈ past) :
    ∀ message ∈ record.call.published record.outcome.result, ∀ symbol ∈ message,
      Exposed (issuedMacs reading past) (issuedSeals past) symbol := by
  obtain ⟨party, before, call, outcome⟩ := record
  simp only at sound deed ⊢
  intro message inside symbol present
  have text := published_ok inside
  cases deed with
  | requested role =>
      cases text
      simp only [serializeRequest, requested, pskHandshakeClientNew, freshDraws, List.mem_append,
        List.mem_singleton, randomBytes, List.mem_map] at present
      rcases present with ((⟨index, -, rfl⟩ | ⟨index, -, rfl⟩) | rfl) | plain
      · exact .random
      · exact .random
      · exact .byte
      · obtain ⟨byte, rfl⟩ := sound.identity symbol plain
        exact .byte
  | answered role read responded =>
      cases text
      refine answer_exposed responded ?_ rfl member symbol present
      exact ⟨role, sound.psk, ⟨_, rfl, read.symm⟩, rfl, rfl⟩
  | accepted role read finalized =>
      cases text
      simp at present
  | encrypted done sealed =>
      cases text
      rw [sealed] at present
      rcases List.mem_append.mp present with nonce | text
      · simp only [zeroNonce, Block.fill, List.mem_replicate] at nonce
        rw [nonce.2]
        exact .byte
      · simp only [aeadBytes, List.mem_map] at text
        obtain ⟨index, -, rfl⟩ := text
        exact .issuedAead ⟨_, member, _, _, rfl, by simp, rfl⟩
  | decrypted done size opened => simp [Call.published] at inside
  | failed => cases text

theorem initial_secure (roles : ι → Role) : Secure reading [] (World.initial reading roles) where
  parties party := create_sound (roles party)
  deeds member := by simp at member
  heard := by simp [World.initial]

variable [DecidableEq ι]

theorem netStep_secure {next : World ι} {record : Record ι}
    (step : NetStep reading world record next) (secure : Secure reading past world) :
    Secure reading (past ++ [record]) next := by
  cases step with
  | call party call residue known performed =>
      have deed := @perform_deed reading _ (secure.parties party).psk
        (freshDraws world.drawn residue) call
      rw [performed] at deed
      refine ⟨?_, ?_, ?_⟩
      · intro other
        by_cases here : other = party
        · subst here
          rw [after_self]
          exact deed_sound (secure.parties other) deed
        · rw [after_other here]
          exact secure.parties other
      · intro record member
        rcases List.mem_append.mp member with old | new
        · exact secure.deeds old
        · rw [List.mem_singleton] at new
          subst new
          exact ⟨secure.parties party, _, deed⟩
      · intro message inside symbol present
        rcases List.mem_append.mp inside with new | old
        · exact @deed_published reading ι _ ⟨party, world.parties party, call, _⟩ world.drawn residue
            (secure.parties party) deed (by simp) message new symbol present
        · refine (secure.heard message old symbol present).mono ?_ ?_
          · rintro key message ⟨record, member, rest⟩
            exact ⟨record, by simp [member], rest⟩
          · rintro key nonce aad plain ⟨record, member, rest⟩
            exact ⟨record, by simp [member], rest⟩

theorem run_secure {roles : ι → Role} {events : List (Record ι)} {final : World ι}
    (run : Run (NetStep reading) (World.initial reading roles) events final) :
    Secure reading events final :=
  run.history netStep_secure (initial_secure roles)

theorem run_last {roles : ι → Role} {record : Record ι} {final : World ι}
    (run : Run (NetStep reading) (World.initial reading roles) (past ++ [record]) final) :
    ∃ world, Secure reading past world ∧ Sound record.before ∧
      (∃ surroundings, Deed reading surroundings record.before record.call record.outcome) ∧
      ∀ symbol ∈ record.call.fromNetwork, Knows world.traffic symbol := by
  obtain ⟨world, front, back⟩ := run.split
  have secure := run_secure front
  cases back with
  | cons step rest =>
      cases step with
      | call party call residue known performed =>
          have deed := @perform_deed reading _ (secure.parties party).psk
            (freshDraws world.drawn residue) call
          rw [performed] at deed
          exact ⟨world, secure, secure.parties party, ⟨_, deed⟩, known⟩

end World

end Udaf
