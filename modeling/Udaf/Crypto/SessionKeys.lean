import Udaf.Crypto.Attacker

/-!
Which of the exchanged values reach the session keys: the PSK and the salt of the
request. The random of the server, its salt and the text it encrypts do not, so a
request that is played again gives the same keys again.
-/

namespace Udaf

open ByteString PskAuthenticator Symbolic

variable {β : Type} {platform : Platform β}

theorem derived_session {psk salt : List β} {keys : DerivedKeys β}
    (derived : pskDeriveSessionKeys platform psk salt = .ok keys) :
    ∃ okm, platform.kdfDerive salt psk sessionInfo 32 = some okm ∧ okm.bytes = keys.encKey := by
  rw [pskDeriveSessionKeys] at derived
  split at derived
  · cases derived
  · rename_i session first
    split at derived
    · cases derived
    · cases derived
      rw [hkdfSha256, if_neg (by decide)] at first
      split at first
      · cases first
      · split at first
        · cases first
        · rename_i okm derive
          cases first
          exact ⟨okm, derive, rfl⟩

variable [DecidableEq β]

def Completed (platform : Platform β) (psk peerMsg : List β) (server : PskAuthenticator β) : Prop :=
  ∃ (before : PskAuthenticator β) (surroundings : Surroundings β) (out : List β)
    (sealings : List (Sealing β)), before.psk = psk ∧ before.isClient = false ∧
    before.perform platform surroundings (.processHandshake peerMsg) =
      { result := .ok out, after := server, sealings := sealings }

/-- HKDF takes the salts of two requests to different session keys. -/
def SeparatesSalts (platform : Platform β) (psk : List β) : Prop :=
  ∀ {salt other : List β} {okm : Block β 32}, salt.length = 32 → other.length = 32 →
    platform.kdfDerive salt psk sessionInfo 32 = some okm →
    platform.kdfDerive other psk sessionInfo 32 = some okm → salt = other

/-- Two handshakes in which the server drew different randoms have different keys. -/
def IndependentKeys (first second : PskAuthenticator β) : Prop :=
  first.serverResponse.serverRandom ≠ second.serverResponse.serverRandom →
    first.sessionKeys ≠ second.sessionKeys

theorem completed_keys {psk peerMsg : List β} {server : PskAuthenticator β}
    (completed : Completed platform psk peerMsg server) :
    ∃ keys, server.sessionKeys = .ok keys ∧
      (deserializeRequest platform peerMsg).salt.length = 32 ∧
      pskDeriveSessionKeys platform psk (deserializeRequest platform peerMsg).salt = .ok keys := by
  obtain ⟨before, surroundings, out, sealings, shared, role, performed⟩ := completed
  rw [perform, processHandshake, if_neg (by simp [role])] at performed
  obtain ⟨response, keys, sealings, responded, shape⟩ :=
    processRequest_ok (congrArg AuthOutcome.result performed)
  rw [shape] at performed
  have after := congrArg AuthOutcome.after performed
  simp only at after
  subst shared after
  exact ⟨keys, rfl, responded.salt_length, responded.derived⟩

/-- Of two handshakes with different randoms of the server, the keys differ exactly when the salts
of the two requests do. -/
theorem independentKeys_iff {psk peerMsg otherMsg : List β} {first second : PskAuthenticator β}
    (separates : SeparatesSalts platform psk) (one : Completed platform psk peerMsg first)
    (two : Completed platform psk otherMsg second)
    (apart : first.serverResponse.serverRandom ≠ second.serverResponse.serverRandom) :
    IndependentKeys first second ↔
      (deserializeRequest platform peerMsg).salt ≠ (deserializeRequest platform otherMsg).salt := by
  obtain ⟨keys, held, length, derived⟩ := completed_keys one
  obtain ⟨otherKeys, otherHeld, otherLength, otherDerived⟩ := completed_keys two
  constructor
  · intro independent same
    apply independent apart
    rw [same, otherDerived] at derived
    cases derived
    exact held.trans otherHeld.symm
  · intro salts _ same
    rw [held, otherHeld] at same
    cases same
    obtain ⟨okm, derive, key⟩ := derived_session derived
    obtain ⟨other, otherDerive, otherKey⟩ := derived_session otherDerived
    have outputs : other = okm := Block.ext (otherKey.trans key.symm)
    subst outputs
    exact salts (separates length otherLength derive otherDerive)

section Replay

theorem symbolic_separatesSalts (reading : Reading) (psk : List Sym) :
    SeparatesSalts (symbolic reading) psk := by
  intro salt other okm _ _ first second
  have same := first.trans second.symm
  simp only [symbolic, Option.some.injEq, Block.mk.injEq] at same
  exact (kdfBytes_injective (by decide) same).1

theorem request_completes (reading : Reading) {request : AuthRequest Sym}
    (random : request.clientRandom.length = 32) (salt : request.salt.length = 32)
    (surroundings : Surroundings Sym) :
    ∃ server, Completed (symbolic reading) networkPsk
        (serializeRequest (symbolic reading) request) server ∧
      server.sessionKeys = .ok (keysOf request.salt) ∧
      server.serverResponse.serverRandom = surroundings.serverDraws.serverRandom.bytes := by
  obtain ⟨response, keys, sealings, responded, -, -, -, performed⟩ := @processRequest_works Sym
    (symbolic reading) _ (symbolic_works reading) (createServer (symbolic reading) networkPsk)
    (secretBytes_length 32) rfl request random salt surroundings
  have derived := responded.derived
  rw [createServer, derive_symbolic] at derived
  cases derived
  exact ⟨_, ⟨_, surroundings, _, _, rfl, rfl, performed⟩, rfl, responded.serverRandom⟩

theorem freshDraws_differ : (freshDraws 3 plainResidue).serverDraws.serverRandom.bytes ≠
    (freshDraws 6 plainResidue).serverDraws.serverRandom.bytes := by
  decide

def sampleRequest (draws : Nat) : AuthRequest Sym :=
  pskHandshakeClientNew [] (freshDraws draws plainResidue).clientDraws

theorem independentKeys_iff_fresh :
    ∃ first second,
      Completed (symbolic plainReading) networkPsk
        (serializeRequest (symbolic plainReading) (sampleRequest 0)) first ∧
      Completed (symbolic plainReading) networkPsk
        (serializeRequest (symbolic plainReading) (sampleRequest 3)) second ∧
      IndependentKeys first second := by
  obtain ⟨first, one, -, random⟩ := @request_completes plainReading (sampleRequest 0)
    (randomBytes_length 0 32) (randomBytes_length 1 32) (freshDraws 3 plainResidue)
  obtain ⟨second, two, -, otherRandom⟩ := @request_completes plainReading (sampleRequest 3)
    (randomBytes_length 3 32) (randomBytes_length 4 32) (freshDraws 6 plainResidue)
  have salts := @deserialize_serializeRequest Sym (symbolic plainReading)
    (symbolic_works plainReading) (sampleRequest 0) (randomBytes_length 0 32) (randomBytes_length 1 32)
  have otherSalts := @deserialize_serializeRequest Sym (symbolic plainReading)
    (symbolic_works plainReading) (sampleRequest 3) (randomBytes_length 3 32) (randomBytes_length 4 32)
  refine ⟨first, second, one, two, (independentKeys_iff (symbolic_separatesSalts plainReading
    networkPsk) one two ?_).mpr ?_⟩
  · rw [random, otherRandom]
    exact freshDraws_differ
  · rw [salts, otherSalts]
    decide

/-- One request, given to two servers that draw different randoms, gives both the same keys. -/
theorem replayed_request_same_keys :
    SeparatesSalts (symbolic plainReading) networkPsk ∧ ∃ first second,
      Completed (symbolic plainReading) networkPsk
        (serializeRequest (symbolic plainReading) (sampleRequest 0)) first ∧
      Completed (symbolic plainReading) networkPsk
        (serializeRequest (symbolic plainReading) (sampleRequest 0)) second ∧
      ¬ IndependentKeys first second := by
  obtain ⟨first, one, keys, random⟩ := @request_completes plainReading (sampleRequest 0)
    (randomBytes_length 0 32) (randomBytes_length 1 32) (freshDraws 3 plainResidue)
  obtain ⟨second, two, otherKeys, otherRandom⟩ := @request_completes plainReading (sampleRequest 0)
    (randomBytes_length 0 32) (randomBytes_length 1 32) (freshDraws 6 plainResidue)
  refine ⟨symbolic_separatesSalts plainReading networkPsk, first, second, one, two, ?_⟩
  intro independent
  refine independent ?_ (keys.trans otherKeys.symm)
  rw [random, otherRandom]
  exact freshDraws_differ

end Replay

end Udaf
