import Udaf.Crypto.Session
import Udaf.Lib.Symbolic

/-!
Any number of authenticators with one PSK on a network that an attacker controls.
The attacker hears every message, and makes up every message that is delivered from
what it knows. Bytes are symbolic: codes and sealed texts cannot be forged, derived
keys are told apart by their inputs, and each random draw is a new one.
-/

namespace Udaf

open ByteString PskAuthenticator Runs Symbolic

structure Reading where
  value : Sym → UInt8
  value_byte (byte : UInt8) : value (.name (.byte byte)) = byte

def symbolic (reading : Reading) : Platform Sym where
  byte byte := .name (.byte byte)
  value := reading.value
  kdfDerive salt ikm info length := some ⟨kdfBytes salt ikm info length, by simp⟩
  macCompute key message := some (macBytes key message 32)
  gcmEncrypt key nonce aad aadLength plaintext plaintextLength :=
    if aadLength = aad.length ∧ plaintextLength = plaintext.length then
      let text := aeadBytes key nonce.bytes aad plaintext (plaintext.length + 16)
      some (text.take plaintext.length, Block.slice text plaintext.length 16 (by simp [text]))
    else none
  gcmDecrypt key nonce aad aadLength ciphertext ciphertextLength tag :=
    if aadLength = aad.length ∧ ciphertextLength = ciphertext.length then
      openAead key nonce.bytes aad (ciphertext ++ tag.bytes) 16
    else none

theorem slice_whole {text : List Sym} {length : Nat} (size : text.length = length + 16) :
    text.take length ++ (Block.slice text length 16 (by omega)).bytes = text := by
  have rest : (text.drop length).take 16 = text.drop length :=
    List.take_of_length_le (by rw [List.length_drop]; omega)
  simp only [Block.slice, rest, List.take_append_drop]

theorem symbolic_works (reading : Reading) : (symbolic reading).Works where
  value_byte := reading.value_byte
  kdf _ _ := ⟨_, rfl⟩
  mac key message := ⟨_, rfl, by simp⟩
  gcm := by
    intro key aad plaintext nonce _ _ _
    refine ⟨_, _, if_pos ⟨rfl, rfl⟩, by simp, ?_⟩
    simp only [symbolic, true_and, if_true]
    rw [slice_whole (by simp), openAead_aeadBytes _ _ _ _ (by decide)]

def networkPsk : List Sym := secretBytes 32

def keysOf (salt : List Sym) : DerivedKeys Sym where
  encKey := kdfBytes salt networkPsk sessionInfo 32
  macKey := kdfBytes salt (kdfBytes salt networkPsk sessionInfo 32) macInfo 32

theorem derive_symbolic (reading : Reading) (salt : List Sym) :
    pskDeriveSessionKeys (symbolic reading) networkPsk salt = .ok (keysOf salt) := by
  rfl

structure World (ι : Type) where
  parties : ι → PskAuthenticator Sym
  traffic : List (List Sym) := []
  drawn : Nat := 0

inductive Role where
  | client (identity : Bytes)
  | server

def Role.create (reading : Reading) : Role → PskAuthenticator Sym
  | .client identity =>
      createClient (symbolic reading) networkPsk (identity.map (symbolic reading).byte)
  | .server => createServer (symbolic reading) networkPsk

def World.initial {ι : Type} (reading : Reading) (roles : ι → Role) : World ι where
  parties party := (roles party).create reading

def freshDraws (drawn : Nat) (residue : Residue Sym) : Surroundings Sym where
  clientDraws := {
    clientRandom := ⟨randomBytes drawn 32, by simp⟩
    salt := ⟨randomBytes (drawn + 1) 32, by simp⟩ }
  serverDraws := {
    serverRandom := ⟨randomBytes drawn 32, by simp⟩
    salt := ⟨randomBytes (drawn + 1) 32, by simp⟩
    nonce := ⟨randomBytes (drawn + 2) 12, by simp⟩ }
  residue := residue

structure Record (ι : Type) where
  party : ι
  before : PskAuthenticator Sym
  call : Call Sym
  outcome : AuthOutcome Sym

def World.after {ι : Type} [DecidableEq ι] (world : World ι) (party : ι) (call : Call Sym)
    (outcome : AuthOutcome Sym) : World ι where
  parties := Function.update world.parties party outcome.after
  traffic := call.published outcome.result ++ world.traffic
  drawn := world.drawn + 3

/-- Any party is called, with an argument the attacker can make; its output goes to the attacker. -/
inductive NetStep {ι : Type} [DecidableEq ι] (reading : Reading) :
    World ι → Record ι → World ι → Prop where
  | call {world : World ι} (party : ι) (call : Call Sym) (residue : Residue Sym)
      (known : ∀ symbol ∈ call.fromNetwork, Knows world.traffic symbol) {outcome : AuthOutcome Sym}
      (performed : (world.parties party).perform (symbolic reading) (freshDraws world.drawn residue)
        call = outcome) :
      NetStep reading world ⟨party, world.parties party, call, outcome⟩
        (world.after party call outcome)

section Steps

variable {ι : Type} [DecidableEq ι] {reading : Reading} {world : World ι} {party : ι} {call : Call Sym}
  {outcome : AuthOutcome Sym}

@[simp] theorem after_self : (world.after party call outcome).parties party = outcome.after :=
  Function.update_self ..

theorem after_other {other : ι} (apart : other ≠ party) :
    (world.after party call outcome).parties other = world.parties other :=
  Function.update_of_ne apart ..

theorem NetStep.deliver (residue : Residue Sym) (heard : call.fromNetwork ∈ world.traffic)
    (performed : (world.parties party).perform (symbolic reading) (freshDraws world.drawn residue)
      call = outcome) :
    NetStep reading world ⟨party, world.parties party, call, outcome⟩
      (world.after party call outcome) :=
  .call party call residue (fun _ member => .heard heard member) performed

theorem handshake_run {client server : ι} (apart : client ≠ server)
    (role : (world.parties client).isClient = true)
    (serverRole : (world.parties server).isClient = false)
    (key : (world.parties client).psk = networkPsk)
    (serverKey : (world.parties server).psk = networkPsk) (residue : Residue Sym) :
    ∃ request answer accept final, Run (NetStep reading) world [request, answer, accept] final ∧
      accept.before.isClient = true ∧ (∃ peerMsg, accept.call = .processHandshake peerMsg) ∧
      accept.outcome.result = .ok [] ∧
      (final.parties client).done = true ∧ (final.parties server).done = true ∧
      (∃ salt, (final.parties client).keys = keysOf salt ∧
        (final.parties server).keys = keysOf salt) ∧
      ∀ record ∈ [request, answer, accept], ∀ plaintext, record.call ≠ .encrypt plaintext := by
  have first := @NetStep.call ι _ reading world client .beginHandshake residue
    (by simp [Call.fromNetwork]) _ (beginHandshake_client role _)
  generalize called : world.after client .beginHandshake _ = begun at first
  have requester : begun.parties client =
      (world.parties client).requested (freshDraws world.drawn residue).clientDraws := by
    rw [← called, after_self]
  have other : begun.parties server = world.parties server := by
    rw [← called, after_other apart.symm]
  have sent : serializeRequest (symbolic reading) (begun.parties client).clientRequest ∈
      begun.traffic := by
    rw [requester, ← called]
    simp [World.after]
  have size : (begun.parties client).psk.length = 32 := by
    rw [requester, requested, key]
    exact secretBytes_length 32
  obtain ⟨response, keys, derived, answered, accepted⟩ := @exchange_completes Sym (symbolic reading) _
    (symbolic_works reading) (begun.parties client) (begun.parties server) size
    (by rw [other, requester, serverKey, requested, key]) (by rw [requester]; exact role)
    (by rw [other]; exact serverRole)
    (by rw [requester]; exact (freshDraws world.drawn residue).clientDraws.clientRandom.length_eq)
    (by rw [requester]; exact (freshDraws world.drawn residue).clientDraws.salt.length_eq)
    (freshDraws begun.drawn residue) (freshDraws (begun.drawn + 3) residue)
  have second := NetStep.deliver residue sent answered
  generalize calledServer : begun.after server (.processHandshake _) _ = after at second
  have waiting : after.parties client = begun.parties client := by
    rw [← calledServer, after_other apart]
  have returned : serializeResponse (symbolic reading) response ∈ after.traffic := by
    rw [← calledServer]
    simp [World.after]
  have drawn : after.drawn = begun.drawn + 3 := by
    rw [← calledServer]
    rfl
  rw [← waiting, ← drawn] at accepted
  have third := NetStep.deliver residue returned accepted
  rw [requester, requested, key, derive_symbolic] at derived
  refine ⟨_, _, _, _, .cons first (.cons second (.cons third .nil)), ?_, ⟨_, rfl⟩, rfl, ?_, ?_,
    ⟨(freshDraws world.drawn residue).clientDraws.salt.bytes, ?_, ?_⟩, by simp⟩
  · rw [waiting, requester]
    exact role
  · rw [after_self]
    rfl
  · rw [after_other apart.symm, ← calledServer, after_self]
    rfl
  · rw [after_self]
    exact (Except.ok.inj derived).symm
  · rw [after_other apart.symm, ← calledServer, after_self]
    exact (Except.ok.inj derived).symm

end Steps

def sideRoles : Side → Role
  | .client => .client (ascii "device-A")
  | .server => .server

def plainReading : Reading where
  value
    | .name (.byte byte) => byte
    | _ => 0
  value_byte _ := rfl

def plainResidue : Residue Sym where
  nonce := zeroNonce (symbolic plainReading)
  mac := Block.fill 32 ((symbolic plainReading).byte 0)

end Udaf
