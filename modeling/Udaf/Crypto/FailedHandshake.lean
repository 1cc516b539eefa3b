import Udaf.Crypto.Session

/-!
Calls of `process_handshake` that fail. A client keeps the response it could not use in
`server_response_`, which no call reads.
-/

namespace Udaf

open ByteString

namespace PskAuthenticator

variable {β : Type}

def Alike (auth other : PskAuthenticator β) : Prop :=
  ∃ response, other = { auth with serverResponse := response }

structure SameOutcome (outcome other : AuthOutcome β) : Prop where
  result : other.result = outcome.result
  after : Alike outcome.after other.after

variable {platform : Platform β} {auth other : PskAuthenticator β}

theorem Alike.sees (alike : Alike auth other) :
    other.isHandshakeDone = auth.isHandshakeDone ∧ other.sessionKeys = auth.sessionKeys := by
  obtain ⟨response, rfl⟩ := alike
  exact ⟨rfl, rfl⟩

theorem processRequest_failed {draws : ServerDraws β} {peerMsg : List β} {code : ErrorCode}
    (failed : (auth.processRequest platform draws peerMsg).result = .error code) :
    Alike auth (auth.processRequest platform draws peerMsg).after := by
  rw [processRequest] at failed ⊢
  by_cases empty : (deserializeRequest platform peerMsg).clientRandom.isEmpty
  · rw [if_pos empty]
    exact ⟨_, rfl⟩
  · rw [if_neg empty] at failed ⊢
    generalize pskHandshakeServerRespond platform auth.psk (deserializeRequest platform peerMsg)
      draws = answered at failed ⊢
    obtain ⟨responded, sealings⟩ := answered
    cases responded with
    | error refusal => exact ⟨_, rfl⟩
    | ok response =>
        generalize pskDeriveSessionKeys platform auth.psk (deserializeRequest platform peerMsg).salt =
          derived at failed ⊢
        cases derived with
        | error refusal => exact ⟨response, rfl⟩
        | ok keys => cases failed

theorem processRequest_alike (alike : Alike auth other) (draws : ServerDraws β) (peerMsg : List β) :
    SameOutcome (auth.processRequest platform draws peerMsg)
      (other.processRequest platform draws peerMsg) := by
  obtain ⟨response, rfl⟩ := alike
  simp only [processRequest]
  by_cases empty : (deserializeRequest platform peerMsg).clientRandom.isEmpty
  · simp only [if_pos empty]
    exact ⟨rfl, response, rfl⟩
  · simp only [if_neg empty]
    obtain ⟨responded, sealings⟩ := pskHandshakeServerRespond platform auth.psk
      (deserializeRequest platform peerMsg) draws
    cases responded with
    | error code => exact ⟨rfl, response, rfl⟩
    | ok answer =>
        cases pskDeriveSessionKeys platform auth.psk (deserializeRequest platform peerMsg).salt with
        | error code => exact ⟨rfl, answer, rfl⟩
        | ok keys => exact ⟨rfl, answer, rfl⟩

theorem encrypt_alike (alike : Alike auth other) (plaintext : List β) :
    SameOutcome (auth.encrypt platform plaintext) (other.encrypt platform plaintext) := by
  obtain ⟨response, rfl⟩ := alike
  simp only [encrypt]
  by_cases done : auth.done = true
  · simp only [if_pos done]
    obtain ⟨sealed, sealings⟩ :=
      pskAeadEncrypt platform auth.keys.encKey (zeroNonce platform) plaintext []
    cases sealed with
    | error code => exact ⟨rfl, response, rfl⟩
    | ok enc => exact ⟨rfl, response, rfl⟩
  · simp only [if_neg done]
    exact ⟨rfl, response, rfl⟩

theorem decrypt_alike (alike : Alike auth other) (ciphertext : List β) :
    SameOutcome (auth.decrypt platform ciphertext) (other.decrypt platform ciphertext) := by
  obtain ⟨response, rfl⟩ := alike
  simp only [decrypt]
  by_cases done : auth.done = true
  · simp only [if_pos done]
    by_cases short : ciphertext.length < 12
    · simp only [dif_pos short]
      exact ⟨rfl, response, rfl⟩
    · simp only [dif_neg short]
      exact ⟨rfl, response, rfl⟩
  · simp only [if_neg done]
    exact ⟨rfl, response, rfl⟩

variable [DecidableEq β]

theorem processResponse_failed {residue : Residue β} {peerMsg : List β} {code : ErrorCode}
    (failed : (auth.processResponse platform residue peerMsg).result = .error code) :
    Alike auth (auth.processResponse platform residue peerMsg).after := by
  rw [processResponse] at failed ⊢
  generalize pskHandshakeClientFinalize platform auth.psk auth.clientRequest
    (deserializeResponse platform residue peerMsg) = finalized at failed ⊢
  cases finalized with
  | error refusal => exact ⟨_, rfl⟩
  | ok keys => cases failed

theorem processHandshake_failed {surroundings : Surroundings β} {peerMsg : List β} {code : ErrorCode}
    (failed : (auth.processHandshake platform surroundings peerMsg).result = .error code) :
    Alike auth (auth.processHandshake platform surroundings peerMsg).after := by
  rw [processHandshake] at failed ⊢
  by_cases role : auth.isClient = true
  · rw [if_pos role] at failed ⊢
    exact processResponse_failed failed
  · rw [if_neg role] at failed ⊢
    exact processRequest_failed failed

theorem processResponse_alike (alike : Alike auth other) (residue : Residue β) (peerMsg : List β) :
    SameOutcome (auth.processResponse platform residue peerMsg)
      (other.processResponse platform residue peerMsg) := by
  obtain ⟨response, rfl⟩ := alike
  simp only [processResponse]
  cases pskHandshakeClientFinalize platform auth.psk auth.clientRequest
      (deserializeResponse platform residue peerMsg) with
  | error code => exact ⟨rfl, _, rfl⟩
  | ok keys => exact ⟨rfl, _, rfl⟩

theorem perform_alike (alike : Alike auth other) (surroundings : Surroundings β) (call : Call β) :
    SameOutcome (auth.perform platform surroundings call)
      (other.perform platform surroundings call) := by
  have role : other.isClient = auth.isClient := by
    obtain ⟨response, rfl⟩ := alike
    rfl
  cases call with
  | beginHandshake =>
      obtain ⟨response, rfl⟩ := alike
      simp only [perform, beginHandshake]
      by_cases client : auth.isClient = true
      · simp only [if_pos client]
        exact ⟨rfl, response, rfl⟩
      · simp only [if_neg client]
        exact ⟨rfl, response, rfl⟩
  | processHandshake peerMsg =>
      simp only [perform, processHandshake, role]
      by_cases client : auth.isClient = true
      · simp only [if_pos client]
        exact processResponse_alike alike _ _
      · simp only [if_neg client]
        exact processRequest_alike alike _ _
  | encrypt plaintext => exact encrypt_alike alike plaintext
  | decrypt ciphertext => exact decrypt_alike alike ciphertext

variable (platform)

def performAll (auth : PskAuthenticator β) : List (Surroundings β × Call β) → PskAuthenticator β
  | [] => auth
  | (surroundings, call) :: later => (auth.perform platform surroundings call).after.performAll later

def replies (auth : PskAuthenticator β) :
    List (Surroundings β × Call β) → List (Except ErrorCode (List β))
  | [] => []
  | (surroundings, call) :: later =>
      (auth.perform platform surroundings call).result ::
        (auth.perform platform surroundings call).after.replies later

def Outstanding (auth : PskAuthenticator β) (draws : ClientDraws β) : Prop :=
  auth.isClient = true ∧ auth.clientRequest = pskHandshakeClientNew auth.identity draws

/-- Nothing that a caller can see tells the two apart, now or after any later calls, and a server
with the same key still gets its answer to the outstanding request accepted. -/
structure Unharmed (auth after : PskAuthenticator β) : Prop where
  replies : ∀ later, after.replies platform later = auth.replies platform later
  done : ∀ later, (after.performAll platform later).isHandshakeDone =
    (auth.performAll platform later).isHandshakeDone
  keys : ∀ later, (after.performAll platform later).sessionKeys =
    (auth.performAll platform later).sessionKeys
  accepts : platform.Works → auth.psk.length = 32 → ∀ draws, auth.Outstanding draws →
    ∀ second third, ∃ response,
      ((createServer platform auth.psk).processHandshake platform second
        (serializeRequest platform auth.clientRequest)).result = .ok response ∧
      (after.processHandshake platform third response).result = .ok [] ∧
      (after.processHandshake platform third response).after.isHandshakeDone = true

variable {platform}

theorem performAll_alike (alike : Alike auth other) (later : List (Surroundings β × Call β)) :
    other.replies platform later = auth.replies platform later ∧
      Alike (auth.performAll platform later) (other.performAll platform later) := by
  induction later generalizing auth other with
  | nil => exact ⟨rfl, alike⟩
  | cons entry later ih =>
      have same : SameOutcome (auth.perform platform entry.1 entry.2)
          (other.perform platform entry.1 entry.2) := perform_alike alike entry.1 entry.2
      have rest := ih same.after
      refine ⟨?_, rest.2⟩
      rw [replies, replies, same.result, rest.1]

end PskAuthenticator

/-- The state is any, so those that calls can reach are among them. -/
theorem failed_handshake_unharmed {β : Type} [DecidableEq β] {platform : Platform β}
    {auth : PskAuthenticator β} {surroundings : Surroundings β} {peerMsg : List β} {code : ErrorCode}
    (failed : (auth.processHandshake platform surroundings peerMsg).result = .error code) :
    PskAuthenticator.Unharmed platform auth
      (auth.processHandshake platform surroundings peerMsg).after := by
  have alike := PskAuthenticator.processHandshake_failed failed
  refine ⟨?_, ?_, ?_, ?_⟩
  · intro later
    exact (PskAuthenticator.performAll_alike alike later).1
  · intro later
    exact (PskAuthenticator.performAll_alike alike later).2.sees.1
  · intro later
    exact (PskAuthenticator.performAll_alike alike later).2.sees.2
  · intro works size draws outstanding second third
    obtain ⟨response, stored⟩ := alike
    obtain ⟨role, sent⟩ := outstanding
    rw [stored]
    have random : auth.clientRequest.clientRandom.length = 32 := by
      rw [sent]
      exact draws.clientRandom.length_eq
    have salt : auth.clientRequest.salt.length = 32 := by
      rw [sent]
      exact draws.salt.length_eq
    obtain ⟨answer, keys, -, answered, accepted⟩ := @exchange_completes β platform _ works
      { auth with serverResponse := response } (PskAuthenticator.createServer platform auth.psk)
      size rfl role rfl random salt second third
    refine ⟨serializeResponse platform answer, congrArg AuthOutcome.result answered,
      congrArg AuthOutcome.result accepted, ?_⟩
    exact congrArg (fun outcome => outcome.after.isHandshakeDone) accepted

theorem failed_handshake_unharmed_short :
    let auth := ((PskAuthenticator.createClient samplePlatform samplePsk (ascii "device-A")).perform
      samplePlatform sampleSurroundings .beginHandshake).after
    PskAuthenticator.Unharmed samplePlatform auth
      (auth.processHandshake samplePlatform sampleSurroundings [1, 2, 3]).after := by
  intro auth
  have failed : (auth.processHandshake samplePlatform sampleSurroundings [1, 2, 3]).result =
      .error .invalidArg := by decide
  exact failed_handshake_unharmed failed

end Udaf
