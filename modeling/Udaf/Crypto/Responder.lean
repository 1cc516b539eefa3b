import Udaf.Crypto.Channel

/-!
What a server knows when it is done. Its side of the handshake ends with its own
answer, before it has heard anything that shows the PSK, so anyone can bring it
there. Nobody without the PSK gets the keys it then holds.
-/

namespace Udaf

open ByteString PskAuthenticator Runs Symbolic

variable {ι : Type} {reading : Reading}

def AnsweredFor (reading : Reading) (past : List (Record ι)) (party : ι)
    (keys : DerivedKeys Sym) : Prop :=
  ∃ answer ∈ past, answer.party = party ∧ ∃ request response,
    answer.Answers reading request response ∧ request.clientRandom.length = 32 ∧
    request.salt.length = 32 ∧ keys = keysOf request.salt

theorem AnsweredFor.extend {past : List (Record ι)} {party : ι} {keys : DerivedKeys Sym}
    (answered : AnsweredFor reading past party keys) (record : Record ι) :
    AnsweredFor reading (past ++ [record]) party keys := by
  obtain ⟨answer, member, rest⟩ := answered
  exact ⟨answer, List.mem_append_left _ member, rest⟩

theorem deed_server {surroundings : Surroundings Sym} {past : List (Record ι)} {party : ι}
    {before : PskAuthenticator Sym} {call : Call Sym} {outcome : AuthOutcome Sym} (sound : Sound before)
    (deed : Deed reading surroundings before call outcome)
    (earlier : before.isClient = false → before.done = true →
      AnsweredFor reading past party before.keys)
    (server : outcome.after.isClient = false) (done : outcome.after.done = true) :
    AnsweredFor reading (past ++ [⟨party, before, call, outcome⟩]) party outcome.after.keys := by
  cases deed with
  | requested | failed => exact (earlier server done).extend _
  | encrypted | decrypted => exact (earlier server done).extend _
  | accepted role =>
      simp only [agreed] at server
      rw [role] at server
      cases server
  | answered role read responded =>
      refine ⟨_, List.mem_append_right _ (List.mem_singleton_self _), rfl, _, _,
        ⟨role, sound.psk, ⟨_, rfl, read.symm⟩, rfl, rfl⟩, responded.random_length,
        responded.salt_length, rfl⟩

def Accounted (reading : Reading) (past : List (Record ι)) (world : World ι) : Prop :=
  ∀ party, (world.parties party).isClient = false → (world.parties party).done = true →
    AnsweredFor reading past party (world.parties party).keys

theorem initial_accounted (roles : ι → Role) :
    Accounted reading [] (World.initial reading roles) := by
  intro party server done
  cases role : roles party with
  | client identity => simp [World.initial, role, Role.create, createClient] at server
  | server => simp [World.initial, role, Role.create, createServer] at done

theorem Secure.keys_hidden {past : List (Record ι)} {world : World ι}
    (secure : Secure reading past world) (salt : List Sym) :
    ∀ symbol ∈ (keysOf salt).encKey ++ (keysOf salt).macKey, ¬ Knows world.traffic symbol := by
  intro symbol member known
  have exposed := secure.known_exposed known
  rcases List.mem_append.mp member with session | mac
  · exact kdf_hidden (secret_guarded (by decide)) session exposed
  · exact kdf_hidden (keysOf_guarded salt).1 mac exposed

variable [DecidableEq ι]

theorem netStep_accounted {past : List (Record ι)} {world next : World ι} {record : Record ι}
    (step : NetStep reading world record next) (secure : Secure reading past world)
    (accounted : Accounted reading past world) : Accounted reading (past ++ [record]) next := by
  cases step with
  | call party call residue known performed =>
      have sound := secure.parties party
      have deed := @perform_deed reading _ sound.psk (freshDraws world.drawn residue) call
      rw [performed] at deed
      intro other server done
      by_cases here : other = party
      · subst here
        rw [after_self] at server done ⊢
        exact deed_server sound deed (accounted other) server done
      · rw [after_other here] at server done ⊢
        exact (accounted other server done).extend _

theorem run_accounted {roles : ι → Role} {events : List (Record ι)} {final : World ι}
    (run : Run (NetStep reading) (World.initial reading roles) events final) :
    Secure reading events final ∧ Accounted reading events final := by
  refine @Run.history _ _ _ (fun past world => Secure reading past world ∧
    Accounted reading past world) ?_ [] _ _ _ run ⟨initial_secure roles, initial_accounted roles⟩
  intro past state event next step kept
  exact ⟨netStep_secure step kept.1, netStep_accounted step kept.1 kept.2⟩

def forgedRequest : AuthRequest Sym where
  clientRandom := noiseBytes 0 32
  salt := noiseBytes 1 32

theorem forgedRequest_known (traffic : List (List Sym)) :
    ∀ symbol ∈ serializeRequest (symbolic reading) forgedRequest, Knows traffic symbol := by
  intro symbol member
  simp only [serializeRequest, forgedRequest, noiseBytes, List.append_nil, List.mem_append,
    List.mem_map, List.mem_singleton] at member
  rcases member with (⟨index, -, rfl⟩ | ⟨index, -, rfl⟩) | rfl
  · exact .noise
  · exact .noise
  · exact .byte

theorem forged_run {world : World ι} {party : ι} (server : (world.parties party).isClient = false)
    (key : (world.parties party).psk = networkPsk) (residue : Residue Sym) :
    ∃ answer final, Run (NetStep reading) world [answer] final ∧ answer.party = party ∧
      answer.call = .processHandshake (serializeRequest (symbolic reading) forgedRequest) ∧
      (final.parties party).isClient = false ∧ (final.parties party).isHandshakeDone = true := by
  have size : (world.parties party).psk.length = 32 := by
    rw [key]
    exact secretBytes_length 32
  obtain ⟨response, keys, sealings, -, -, -, -, performed⟩ := @processRequest_works Sym
    (symbolic reading) _ (symbolic_works reading) _ size server forgedRequest
    (noiseBytes_length 0 32) (noiseBytes_length 1 32) (freshDraws world.drawn residue)
  have step := NetStep.call party
    (.processHandshake (serializeRequest (symbolic reading) forgedRequest)) residue
    (forgedRequest_known world.traffic) performed
  refine ⟨_, _, .cons step .nil, rfl, rfl, ?_, ?_⟩
  · rw [after_self]
    exact server
  · rw [after_self]
    rfl

/-- A server that is done has answered some request. Its keys are known to no one outside, and
what it opens under them comes from a party that holds them. -/
theorem server_done_answered {roles : ι → Role} {events : List (Record ι)} {final : World ι}
    (run : Run (NetStep reading) (World.initial reading roles) events final) {party : ι}
    (server : (final.parties party).isClient = false)
    (done : (final.parties party).isHandshakeDone = true) :
    AnsweredFor reading events party (final.parties party).keys ∧
      (∀ symbol ∈ (final.parties party).keys.encKey ++ (final.parties party).keys.macKey,
        ¬ Knows final.traffic symbol) ∧
      ∀ ciphertext plaintext, (∀ symbol ∈ ciphertext, Knows final.traffic symbol) →
        ((final.parties party).decrypt (symbolic reading) ciphertext).result = .ok plaintext →
        ∃ sent ∈ events, sent.call = .encrypt plaintext ∧ sent.outcome.result = .ok ciphertext ∧
          sent.before.keys = (final.parties party).keys := by
  obtain ⟨secure, accounted⟩ := run_accounted run
  have answered := accounted party server done
  refine ⟨answered, ?_, ?_⟩
  · obtain ⟨answer, -, -, request, response, -, -, -, keys⟩ := answered
    rw [keys]
    exact secure.keys_hidden request.salt
  · intro ciphertext plaintext known opens
    have deed := @decrypted_deed reading (final.parties party) (freshDraws final.drawn plainResidue)
      ciphertext
    generalize (final.parties party).decrypt (symbolic reading) ciphertext = outcome at deed opens
    cases deed with
    | decrypted _ size opened =>
        cases opens
        exact opened_issued secure (secure.parties party) done opened known
    | failed => cases opens

theorem server_done_answered_forged :
    ∃ (events : List (Record Side)) (final : World Side),
      Run (NetStep plainReading) (World.initial plainReading sideRoles) events final ∧
      AnsweredFor plainReading events .server (final.parties .server).keys ∧
      ∀ symbol ∈ (final.parties .server).keys.encKey, ¬ Knows final.traffic symbol := by
  obtain ⟨answer, final, run, -, -, role, done⟩ := @forged_run Side plainReading _
    (World.initial plainReading sideRoles) .server rfl rfl plainResidue
  obtain ⟨answered, hidden, -⟩ := server_done_answered run role done
  exact ⟨[answer], final, run, answered, fun symbol member =>
    hidden symbol (List.mem_append_left _ member)⟩

/-- A server is done, and no party has ever begun a handshake. -/
theorem server_done_unasked :
    ∃ (events : List (Record Side)) (final : World Side),
      Run (NetStep plainReading) (World.initial plainReading sideRoles) events final ∧
      (final.parties .server).isClient = false ∧
      (final.parties .server).isHandshakeDone = true ∧
      ∀ record ∈ events, record.call ≠ .beginHandshake := by
  obtain ⟨answer, final, run, -, call, role, done⟩ := @forged_run Side plainReading _
    (World.initial plainReading sideRoles) .server rfl rfl plainResidue
  refine ⟨[answer], final, run, role, done, ?_⟩
  intro record member begun
  rw [List.mem_singleton.mp member, call] at begun
  cases begun

end Udaf
