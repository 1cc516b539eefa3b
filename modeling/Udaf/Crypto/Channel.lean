import Udaf.Crypto.Agreement

/-!
The channel after the handshake. What a party opens was sealed by a party with the
same session keys. Both directions share one key and nothing is kept about what was
opened, so a sealed text is also read by its own sender, and read again.
-/

namespace Udaf

open ByteString PskAuthenticator Runs Symbolic

variable {ι : Type} {reading : Reading}

theorem opened_issued {past : List (Record ι)} {world : World ι} (secure : Secure reading past world)
    {auth : PskAuthenticator Sym} (sound : Sound auth) (done : auth.done = true)
    {plaintext ciphertext nonce : List Sym}
    (opened : ciphertext = nonce ++
      aeadBytes auth.keys.encKey nonce [] plaintext (plaintext.length + 16))
    (known : ∀ symbol ∈ ciphertext, Knows world.traffic symbol) :
    ∃ sent ∈ past, sent.call = .encrypt plaintext ∧ sent.outcome.result = .ok ciphertext ∧
      sent.before.keys = auth.keys := by
  obtain ⟨salt, keys⟩ := sound.keyed done
  have issued : issuedSeals past auth.keys.encKey nonce [] plaintext := by
    apply @aead_issued (issuedMacs reading past) (issuedSeals past) _ _ _ _
      (plaintext.length + 16) (by omega)
    · rw [keys]
      exact (keysOf_guarded salt).1
    · intro symbol member
      exact secure.known_exposed (known symbol (by rw [opened]; simp [member]))
  obtain ⟨record, member, out, block, result, sealing, nonces⟩ := issued
  obtain ⟨other, surroundings, deed⟩ := secure.deeds member
  refine ⟨record, member, ?_⟩
  obtain ⟨party, before, call, outcome⟩ := record
  simp only at other deed result sealing ⊢
  cases deed with
  | requested | accepted | decrypted => simp at sealing
  | answered role read responded =>
      rw [List.mem_singleton] at sealing
      have empty := congrArg (fun sealing : Sealing Sym => sealing.aad.length) sealing
      simp [responded.random_length] at empty
  | failed => cases result
  | encrypted ready sealed =>
      rw [List.mem_singleton] at sealing
      injection sealing with key nonceEq _ text
      obtain ⟨otherSalt, otherKeys⟩ := other.keyed ready
      have salts : otherSalt = salt := by
        rw [otherKeys, keys] at key
        exact (kdfBytes_injective (by decide) key).1.symm
      refine ⟨by rw [text], ?_, by rw [otherKeys, keys, salts]⟩
      rw [opened, sealed, nonces, nonceEq, key, text]

theorem decrypt_step [DecidableEq ι] {world : World ι} {party : ι} {plaintext ciphertext : List Sym}
    (residue : Residue Sym) (heard : ciphertext ∈ world.traffic)
    (opens : (world.parties party).decrypt (symbolic reading) ciphertext =
      { result := .ok plaintext, after := world.parties party }) :
    NetStep reading world ⟨party, world.parties party, .decrypt ciphertext,
      { result := .ok plaintext, after := world.parties party }⟩
      { world with drawn := world.drawn + 3 } := by
  have step := @NetStep.deliver ι _ reading world party (.decrypt ciphertext) _ residue heard opens
  simpa [World.after] using step

/-- A sealed text of a session, opened by its own sender, and opened by the other side twice. -/
structure Echoed (plaintext ciphertext : List Sym) (past : List (Record Side))
    (sent reflected delivered repeated : Record Side) : Prop where
  sends : sent.party = .client ∧ sent.call = .encrypt plaintext ∧
    sent.outcome.result = .ok ciphertext
  reflects : reflected.party = .client ∧ reflected.call = .decrypt ciphertext ∧
    reflected.outcome.result = .ok plaintext
  delivers : delivered.party = .server ∧ delivered.call = .decrypt ciphertext ∧
    delivered.outcome.result = .ok plaintext
  repeats : repeated.party = .server ∧ repeated.call = .decrypt ciphertext ∧
    repeated.outcome.result = .ok plaintext
  shared : sent.before.keys = delivered.before.keys
  serverSilent : ∀ record ∈ past ++ [sent], record.party = .server → record.call ≠ .encrypt plaintext

theorem channel_echoes (residue : Residue Sym) {plaintext : List Sym}
    (short : plaintext.length < 2 ^ 31) :
    ∃ ciphertext past sent reflected delivered repeated final,
      Run (NetStep reading) (World.initial reading sideRoles)
        (past ++ [sent, reflected, delivered, repeated]) final ∧
      Echoed plaintext ciphertext past sent reflected delivered repeated := by
  obtain ⟨request, answer, accept, world, run, -, -, -, done, serverDone, ⟨salt, keys, serverKeys⟩,
    handshake⟩ := @handshake_run Side _ reading (World.initial reading sideRoles) .client .server
      (by decide) rfl rfl rfl rfl residue
  have size : (world.parties .client).keys.encKey.length = 32 := by
    rw [keys]
    exact kdfBytes_length _ _ _ 32
  obtain ⟨ciphertext, sealed, opened⟩ := encrypt_decrypt (symbolic_works reading) done serverDone
    (serverKeys.trans keys.symm) size short
  obtain ⟨other, again, echoed⟩ := encrypt_decrypt (symbolic_works reading) done done rfl size short
  rw [sealed] at again
  injection again with same
  injection same with same
  subst same
  have sending := @NetStep.call Side _ reading world .client (.encrypt plaintext) residue
    (by simp [Call.fromNetwork]) _ sealed
  generalize called : world.after .client (.encrypt plaintext) _ = heard at sending
  have traffic : ciphertext ∈ heard.traffic := by
    rw [← called]
    simp [World.after]
  have parties : heard.parties = world.parties := by
    rw [← called]
    exact Function.update_eq_self ..
  have shared : (world.parties .client).keys = (heard.parties .server).keys := by
    rw [parties]
    exact keys.trans serverKeys.symm
  rw [← parties] at echoed opened
  have reflecting := decrypt_step residue traffic echoed
  have delivering := @decrypt_step Side reading _ { heard with drawn := heard.drawn + 3 } .server _ _
    residue traffic opened
  have repeating := @decrypt_step Side reading _ { heard with drawn := heard.drawn + 3 + 3 } .server _ _
    residue traffic opened
  refine ⟨ciphertext, [request, answer, accept], _, _, _, _, _,
    run.append (.cons sending (.cons reflecting (.cons delivering (.cons repeating .nil)))),
    ⟨rfl, rfl, rfl⟩, ⟨rfl, rfl, rfl⟩, ⟨rfl, rfl, rfl⟩, ⟨rfl, rfl, rfl⟩, shared, ?_⟩
  intro record member server
  rcases List.mem_append.mp member with before | sending
  · exact handshake record before plaintext
  · rw [List.mem_singleton] at sending
    subst sending
    cases server

/-- What a party of the network opens, a party with the same session keys has sealed. -/
theorem channel_integrity [DecidableEq ι] {roles : ι → Role} {past : List (Record ι)}
    {record : Record ι} {final : World ι}
    (run : Run (NetStep reading) (World.initial reading roles) (past ++ [record]) final)
    {plaintext ciphertext : List Sym} (call : record.call = .decrypt ciphertext)
    (opens : record.outcome.result = .ok plaintext) :
    ∃ sent ∈ past, sent.call = .encrypt plaintext ∧ sent.outcome.result = .ok ciphertext ∧
      sent.before.keys = record.before.keys := by
  obtain ⟨world, secure, sound, ⟨surroundings, deed⟩, known⟩ := run_last run
  obtain ⟨party, before, request, outcome⟩ := record
  simp only at sound deed known call opens ⊢
  subst call
  cases deed with
  | decrypted done size opened =>
      cases opens
      exact opened_issued secure sound done opened known
  | failed => cases opens

theorem channel_integrity_repeated :
    ∃ (past : List (Record Side)) (repeated : Record Side) (final : World Side),
      Run (NetStep plainReading) (World.initial plainReading sideRoles) (past ++ [repeated]) final ∧
      repeated.outcome.result = .ok [.name (.byte 7)] ∧
      ∃ sent ∈ past, sent.call = .encrypt [.name (.byte 7)] ∧
        sent.before.keys = repeated.before.keys := by
  obtain ⟨ciphertext, past, sent, reflected, delivered, repeated, final, run, echoed⟩ :=
    @channel_echoes plainReading plainResidue [.name (.byte 7)] (by decide)
  obtain ⟨-, call, result⟩ := echoed.repeats
  obtain ⟨record, member, encrypted, -, keys⟩ := @channel_integrity Side plainReading _ sideRoles
    (past ++ [sent, reflected, delivered]) repeated final (by simpa using run) _ _ call result
  exact ⟨past ++ [sent, reflected, delivered], repeated, final, by simpa using run, result, record,
    member, encrypted, keys⟩

def FromOtherSide (past : List (Record Side)) (record : Record Side) : Prop :=
  ∀ plaintext ciphertext, record.call = .decrypt ciphertext → record.outcome.result = .ok plaintext →
    ∃ sent ∈ past, sent.party ≠ record.party ∧ sent.call = .encrypt plaintext

def OpenedOnce (past : List (Record Side)) (record : Record Side) : Prop :=
  ∀ plaintext ciphertext, record.call = .decrypt ciphertext → record.outcome.result = .ok plaintext →
    ∀ earlier ∈ past, earlier.party = record.party → earlier.call = .decrypt ciphertext →
      ∃ code, earlier.outcome.result = .error code

section Echo

variable {plaintext ciphertext : List Sym} {past : List (Record Side)}
  {sent reflected delivered repeated : Record Side}
  (echoed : Echoed plaintext ciphertext past sent reflected delivered repeated)
include echoed

theorem echoed_reflected : ¬ FromOtherSide (past ++ [sent]) reflected := by
  intro other
  obtain ⟨party, call, result⟩ := echoed.reflects
  obtain ⟨record, member, apart, encrypted⟩ := other plaintext ciphertext call result
  apply echoed.serverSilent record member ?_ encrypted
  rw [party] at apart
  cases side : record.party with
  | client => exact absurd side apart
  | server => rfl

theorem echoed_replayed : ¬ OpenedOnce (past ++ [sent, reflected, delivered]) repeated := by
  intro once
  obtain ⟨party, call, result⟩ := echoed.repeats
  obtain ⟨first, heard, opened⟩ := echoed.delivers
  obtain ⟨code, failed⟩ := once plaintext ciphertext call result delivered (by simp)
    (first.trans party.symm) heard
  rw [opened] at failed
  cases failed

end Echo

/-- A client's own text comes back to it, and the server accepts it twice. -/
theorem channel_reflects_and_replays :
    ∃ past sent reflected delivered repeated final,
      Run (NetStep plainReading) (World.initial plainReading sideRoles)
        (past ++ [sent, reflected, delivered, repeated]) final ∧
      sent.before.keys = delivered.before.keys ∧
      ¬ FromOtherSide (past ++ [sent]) reflected ∧
      ¬ OpenedOnce (past ++ [sent, reflected, delivered]) repeated := by
  obtain ⟨ciphertext, past, sent, reflected, delivered, repeated, final, run, echoed⟩ :=
    @channel_echoes plainReading plainResidue [.name (.byte 7)] (by decide)
  exact ⟨past, sent, reflected, delivered, repeated, final, run, echoed.shared,
    echoed_reflected echoed, echoed_replayed echoed⟩

end Udaf
