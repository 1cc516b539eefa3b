import Udaf.Crypto.Session
import Udaf.AbilityA.UdpSocket

/-!
The nonces of a whole run. The handshake draws its nonce; `encrypt` and the PSK mode
of `UdpSocket::send` write zeros, so a pair of authenticators and a socket each have
one encryption before a nonce comes back.
-/

namespace Udaf

open ByteString PskAuthenticator Runs

variable {β : Type} {platform : Platform β}

def usedNonces (sealings : List (Sealing β)) : List (List β × Nonce β) :=
  sealings.map fun sealing => (sealing.key, sealing.nonce)

def NoncesFresh (sealings : List (Sealing β)) : Prop := (usedNonces sealings).Nodup

theorem usedNonces_append (first second : List (Sealing β)) :
    usedNonces (first ++ second) = usedNonces first ++ usedNonces second :=
  List.map_append

/-- A client and a server with one PSK, after a handshake in which the server drew `draws`. -/
def HandshakeCompleted [DecidableEq β] (platform : Platform β) (draws : ServerDraws β)
    (party : Side → PskAuthenticator β) (sealings : List (Sealing β)) : Prop :=
  ∃ (client server begun : PskAuthenticator β) (first second third : Surroundings β)
    (request response out : List β),
    client.isClient = true ∧ server.isClient = false ∧ server.psk = client.psk ∧
    second.serverDraws = draws ∧
    client.perform platform first .beginHandshake = { result := .ok request, after := begun } ∧
    server.perform platform second (.processHandshake request) =
      { result := .ok response, after := party .server, sealings := sealings } ∧
    begun.perform platform third (.processHandshake response) =
      { result := .ok out, after := party .client }

inductive EncryptStep (platform : Platform β) :
    (Side → PskAuthenticator β) → AuthOutcome β → (Side → PskAuthenticator β) → Prop where
  | encrypt {party : Side → PskAuthenticator β} (side : Side) (plaintext : List β) :
      EncryptStep platform party ((party side).encrypt platform plaintext)
        (Function.update party side ((party side).encrypt platform plaintext).after)

structure SendRecord (β : Type) where
  before : UdpSocket β
  dst : Endpoint
  now : Int
  outcome : SendOutcome β

/-- A payload that is not empty is sent anywhere, at any time, whatever the system calls answer. -/
inductive SendStep (platform : Platform β) (inetPton : String → Option (Block UInt8 4)) :
    UdpSocket β → SendRecord β → UdpSocket β → Prop where
  | send {socket : UdpSocket β} (payload : List β) (dst : Endpoint) (now : Int) (accepted : SendTo)
      (nonempty : payload ≠ []) :
      SendStep platform inetPton socket
        ⟨socket, dst, now, socket.send platform inetPton payload dst now accepted⟩
        (socket.send platform inetPton payload dst now accepted).after

def SendRecord.admitted (record : SendRecord β) : Bool := record.before.admits record.dst record.now

structure Paired (keys : DerivedKeys β) (party : Side → PskAuthenticator β) : Prop where
  done (side : Side) : (party side).done = true
  keyed (side : Side) : (party side).keys = keys
  size : keys.encKey.length = 32

theorem handshake_paired [DecidableEq β] {draws : ServerDraws β}
    {party : Side → PskAuthenticator β} {sealings : List (Sealing β)}
    (completed : HandshakeCompleted platform draws party sealings) :
    ∃ keys aad plaintext, Paired keys party ∧
      sealings = [⟨keys.encKey, draws.nonce, aad, plaintext⟩] := by
  obtain ⟨client, server, begun, first, second, third, request, response, out, role, serverRole,
    shared, rfl, began, answered, accepted⟩ := completed
  rw [perform, beginHandshake_client role] at began
  injection began with asked requester
  injection asked with asked
  subst asked requester
  rw [perform, processHandshake, if_neg (by simp [serverRole])] at answered
  obtain ⟨reply, keys, issued, responded, shape⟩ := processRequest_ok (congrArg AuthOutcome.result answered)
  rw [shape] at answered
  injection answered with replied serverState logged
  subst logged
  have clientRole : (client.requested first.clientDraws).isClient = true := role
  rw [perform, processHandshake, if_pos clientRole] at accepted
  obtain ⟨clientKeys, finalized⟩ := processResponse_ok (congrArg AuthOutcome.result accepted)
  rw [processResponse_finalized finalized] at accepted
  injection accepted with replied clientState
  have read := responded.salt_length
  have salts := @deserializeRequest_salt β platform (client.requested first.clientDraws).clientRequest
    first.clientDraws.clientRandom.length_eq first.clientDraws.salt.length_eq
    (by rw [← List.length_pos_iff, read]; decide)
  have derived := responded.derived
  rw [salts, shared] at derived
  have same : clientKeys = keys := by
    have other := finalized.derived
    rw [show (client.requested first.clientDraws).psk = client.psk from rfl, derived] at other
    exact (Except.ok.inj other).symm
  refine ⟨keys, _, _, ⟨?_, ?_, (pskDeriveSessionKeys_ok derived).1⟩, (pskAeadEncrypt_ok responded.sealed).1⟩
  · rintro (_ | _)
    · rw [← clientState]
      rfl
    · rw [← serverState]
      rfl
  · rintro (_ | _)
    · rw [← clientState, same]
      rfl
    · rw [← serverState]
      rfl

theorem encrypt_sealings {auth : PskAuthenticator β} (done : auth.done = true)
    (size : auth.keys.encKey.length = 32) (plaintext : List β) :
    (auth.encrypt platform plaintext).after = auth ∧ (auth.encrypt platform plaintext).sealings =
      [⟨auth.keys.encKey, zeroNonce platform, [], plaintext⟩] := by
  have sealed := @pskAeadEncrypt_sealings β platform auth.keys.encKey plaintext [] (zeroNonce platform) size
  rw [encrypt, if_pos done]
  split
  all_goals
    rename_i encrypted
    rw [encrypted] at sealed
    exact ⟨rfl, sealed⟩

theorem encryptStep_paired {keys : DerivedKeys β} {party next : Side → PskAuthenticator β}
    {outcome : AuthOutcome β} (step : EncryptStep platform party outcome next)
    (paired : Paired keys party) :
    usedNonces outcome.sealings = [(keys.encKey, zeroNonce platform)] ∧ Paired keys next := by
  cases step with
  | encrypt side plaintext =>
      obtain ⟨after, sealings⟩ := @encrypt_sealings β platform (party side) (paired.done side)
        (by rw [paired.keyed]; exact paired.size) plaintext
      rw [after, sealings, Function.update_eq_self, paired.keyed]
      exact ⟨rfl, paired⟩

theorem encrypt_nonces {keys : DerivedKeys β} {party final : Side → PskAuthenticator β}
    {calls : List (AuthOutcome β)} (run : Run (EncryptStep platform) party calls final)
    (paired : Paired keys party) :
    usedNonces (calls.flatMap AuthOutcome.sealings) =
      List.replicate calls.length (keys.encKey, zeroNonce platform) := by
  induction run with
  | nil => rfl
  | cons step _ ih =>
      obtain ⟨used, kept⟩ := encryptStep_paired step paired
      rw [List.flatMap_cons, usedNonces_append, used, ih kept]
      rfl

theorem sendStep_nonces {inetPton : String → Option (Block UInt8 4)} {socket next : UdpSocket β}
    {record : SendRecord β} (step : SendStep platform inetPton socket record next)
    (size : socket.psk.length = 32) :
    next.psk = socket.psk ∧ usedNonces record.outcome.sealings =
      if record.admitted then [(socket.psk, zeroNonce platform)] else [] := by
  cases step with
  | send payload dst now accepted nonempty =>
      obtain ⟨kept, sealings⟩ := @UdpSocket.send_sealings β platform inetPton socket payload dst now
        accepted size nonempty
      refine ⟨kept, ?_⟩
      rw [sealings, SendRecord.admitted]
      split <;> rfl

theorem send_nonces {inetPton : String → Option (Block UInt8 4)} {socket final : UdpSocket β}
    {sends : List (SendRecord β)} (run : Run (SendStep platform inetPton) socket sends final)
    (size : socket.psk.length = 32) :
    usedNonces (sends.flatMap fun record => record.outcome.sealings) =
      List.replicate (sends.countP SendRecord.admitted) (socket.psk, zeroNonce platform) := by
  induction run with
  | nil => rfl
  | @cons _ _ _ record _ step _ ih =>
      obtain ⟨kept, used⟩ := sendStep_nonces step size
      rw [kept] at ih
      rw [List.flatMap_cons, usedNonces_append, ih size, used]
      by_cases passes : record.admitted = true
      · rw [if_pos passes, List.countP_cons_of_pos passes, Nat.add_comm, List.replicate_add]
        rfl
      · rw [if_neg passes, List.countP_cons_of_neg passes]
        rfl

/-- In a run of a pair after its handshake, and in a run of a socket with a full PSK, the nonces are
fresh exactly when each has used the zero nonce at most once. -/
theorem noncesFresh_iff [DecidableEq β] {draws : ServerDraws β}
    {party final : Side → PskAuthenticator β} {sealings : List (Sealing β)}
    (completed : HandshakeCompleted platform draws party sealings)
    (fresh : draws.nonce ≠ zeroNonce platform) {calls : List (AuthOutcome β)}
    (encrypts : Run (EncryptStep platform) party calls final)
    {inetPton : String → Option (Block UInt8 4)} {socket finalSocket : UdpSocket β}
    (size : socket.psk.length = 32) {sends : List (SendRecord β)}
    (sending : Run (SendStep platform inetPton) socket sends finalSocket) :
    (NoncesFresh (sealings ++ calls.flatMap AuthOutcome.sealings) ↔ calls.length ≤ 1) ∧
      (NoncesFresh (sends.flatMap fun record => record.outcome.sealings) ↔
        sends.countP SendRecord.admitted ≤ 1) := by
  constructor
  · obtain ⟨keys, aad, plaintext, paired, rfl⟩ := handshake_paired completed
    rw [NoncesFresh, usedNonces_append, encrypt_nonces encrypts paired, usedNonces,
      List.map_singleton, List.singleton_append, List.nodup_cons, List.nodup_replicate]
    constructor
    · intro distinct
      exact distinct.2
    · intro once
      refine ⟨?_, once⟩
      intro member
      exact fresh (congrArg Prod.snd (List.eq_of_mem_replicate member))
  · rw [NoncesFresh, send_nonces sending size, List.nodup_replicate]

section Sample

theorem handshake_works [DecidableEq β] (works : platform.Works) {psk : List β}
    (size : psk.length = 32) (identity : List β) (surroundings : Surroundings β) :
    ∃ party sealings,
      HandshakeCompleted platform surroundings.serverDraws party sealings := by
  have began := @beginHandshake_client β platform (createClient platform psk identity) rfl
    surroundings.clientDraws
  obtain ⟨response, keys, -, answered, accepted⟩ := @exchange_completes β platform _ works
    ((createClient platform psk identity).requested surroundings.clientDraws)
    (createServer platform psk) size rfl rfl rfl surroundings.clientDraws.clientRandom.length_eq
    surroundings.clientDraws.salt.length_eq surroundings surroundings
  let party (side : Side) : PskAuthenticator β :=
    if side = .client then
      ((createClient platform psk identity).requested surroundings.clientDraws).agreed response keys
    else (createServer platform psk).agreed response keys
  exact ⟨party, _, createClient platform psk identity, createServer platform psk, _, surroundings, surroundings, surroundings, _, _, _,
    rfl, rfl, rfl, rfl, began, answered, accepted⟩

def sampleSocket : UdpSocket UInt8 where
  fd := 3
  psk := samplePsk

def sampleInetPton (address : String) : Option (Block UInt8 4) :=
  if address = "127.0.0.1" then some ⟨[127, 0, 0, 1], rfl⟩ else none

def sampleEndpoint : Endpoint where
  address := "127.0.0.1"
  port := 9

theorem noncesFresh_iff_once :
    ∃ (party final : Side → PskAuthenticator UInt8) (sealings : List (Sealing UInt8))
      (calls : List (AuthOutcome UInt8)) (sends : List (SendRecord UInt8)) (finalSocket : UdpSocket UInt8),
      HandshakeCompleted samplePlatform sampleSurroundings.serverDraws party sealings ∧
      Run (EncryptStep samplePlatform) party calls final ∧ calls.length = 1 ∧
      NoncesFresh (sealings ++ calls.flatMap AuthOutcome.sealings) ∧
      Run (SendStep samplePlatform sampleInetPton) sampleSocket sends finalSocket ∧
      sends.length = 1 ∧ NoncesFresh (sends.flatMap fun record => record.outcome.sealings) := by
  obtain ⟨party, sealings, completed⟩ := @handshake_works UInt8 samplePlatform _
    samplePlatform_works samplePsk (by decide) (ascii "device-A") sampleSurroundings
  have encrypts : Run (EncryptStep samplePlatform) party _ _ :=
    .cons (.encrypt .client (ascii "udaf")) .nil
  have sending : Run (SendStep samplePlatform sampleInetPton) sampleSocket _ _ :=
    .cons (.send (ascii "udaf") sampleEndpoint 1000000000 (.sent 32) (by decide)) .nil
  obtain ⟨pair, socket⟩ := noncesFresh_iff completed (by decide) encrypts (by decide) sending
  exact ⟨party, _, sealings, _, _, _, completed, encrypts, rfl, pair.mpr (by simp), sending, rfl,
    socket.mpr (by decide)⟩

/-- One text from either end of the pair, and two sends a second apart. -/
theorem nonce_reused :
    ∃ (party final : Side → PskAuthenticator UInt8) (sealings : List (Sealing UInt8))
      (calls : List (AuthOutcome UInt8)) (sends : List (SendRecord UInt8)) (finalSocket : UdpSocket UInt8),
      HandshakeCompleted samplePlatform sampleSurroundings.serverDraws party sealings ∧
      Run (EncryptStep samplePlatform) party calls final ∧
      ¬ NoncesFresh (sealings ++ calls.flatMap AuthOutcome.sealings) ∧
      Run (SendStep samplePlatform sampleInetPton) sampleSocket sends finalSocket ∧
      ¬ NoncesFresh (sends.flatMap fun record => record.outcome.sealings) := by
  obtain ⟨party, sealings, completed⟩ := @handshake_works UInt8 samplePlatform _
    samplePlatform_works samplePsk (by decide) (ascii "device-A") sampleSurroundings
  obtain ⟨keys, aad, plaintext, paired, -⟩ := handshake_paired completed
  have encrypts : Run (EncryptStep samplePlatform) party _ _ :=
    .cons (.encrypt .client (ascii "ping")) (.cons (.encrypt .server (ascii "pong")) .nil)
  have sending : Run (SendStep samplePlatform sampleInetPton) sampleSocket _ _ :=
    .cons (.send (ascii "ping") sampleEndpoint 1000000000 (.sent 32) (by decide))
      (.cons (.send (ascii "pong") sampleEndpoint 2000000000 (.sent 32) (by decide)) .nil)
  refine ⟨party, _, sealings, _, _, _, completed, encrypts, ?_, sending, ?_⟩
  · intro fresh
    rw [NoncesFresh, usedNonces_append, encrypt_nonces encrypts paired] at fresh
    exact absurd (List.nodup_replicate.mp (List.nodup_append.mp fresh).2.1) (by simp)
  · intro fresh
    rw [NoncesFresh, send_nonces sending (by decide), List.nodup_replicate] at fresh
    exact absurd fresh (by decide +kernel)

end Sample

end Udaf
