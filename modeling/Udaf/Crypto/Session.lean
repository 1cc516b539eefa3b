import Udaf.Crypto.Handshake
import Udaf.Lib.Run

/-!
The honest handshake and the channel after it. With an OpenSSL that works, both
sides finish on one pair of keys, and from then on each side reads what the other
wrote, in any order of delivery.
-/

namespace Udaf

open ByteString Runs

variable {β : Type} {platform : Platform β}

theorem hkdfSha256_works (works : platform.Works) {salt ikm : List β} (info : String)
    (nonempty : ikm ≠ []) :
    ∃ okm, hkdfSha256 platform salt ikm info sessionKeyLen = .ok okm := by
  obtain ⟨okm, derive⟩ := @works.kdf salt ikm info nonempty
  refine ⟨okm.bytes, ?_⟩
  have present : ikm.isEmpty = false := by simpa using nonempty
  rw [hkdfSha256, if_neg (by decide), present]
  simp only [sessionKeyLen, derive, Bool.false_eq_true, if_false]

theorem pskDeriveSessionKeys_works (works : platform.Works) {psk : List β} (salt : List β)
    (size : psk.length = 32) :
    ∃ keys, pskDeriveSessionKeys platform psk salt = .ok keys := by
  have given : psk ≠ [] := by
    rintro rfl
    simp at size
  obtain ⟨session, first⟩ := @hkdfSha256_works β platform works salt psk sessionInfo given
  have filled : session ≠ [] := by
    rintro rfl
    exact absurd (hkdfSha256_length first) (by simp [sessionKeyLen])
  obtain ⟨mac, second⟩ := @hkdfSha256_works β platform works salt session macInfo filled
  refine ⟨{ encKey := session, macKey := mac }, ?_⟩
  rw [pskDeriveSessionKeys]
  simp only [first, second]

theorem hmacSha256_works (works : platform.Works) {key : List β} (nonempty : key ≠ [])
    (message : List β) :
    ∃ mac : Mac β, hmacSha256 platform key message = .ok mac.bytes := by
  obtain ⟨tag, compute, size⟩ := works.mac key message
  refine ⟨⟨tag, size⟩, ?_⟩
  have present : key.isEmpty = false := by simpa using nonempty
  rw [hmacSha256, present]
  simp only [compute, Bool.false_eq_true, if_false]

theorem pskAead_works (works : platform.Works) {key : List β} (nonce : Nonce β)
    (plaintext aad : List β) (size : key.length = 32) (aadShort : aad.length < 2 ^ 31)
    (short : plaintext.length < 2 ^ 31) :
    ∃ ciphertext, pskAeadEncrypt platform key nonce plaintext aad =
        (.ok ciphertext, [⟨key, nonce, aad, plaintext⟩]) ∧
      ciphertext.length = plaintext.length + 16 ∧
      pskAeadDecrypt platform key nonce ciphertext aad = .ok plaintext := by
  obtain ⟨body, tag, encrypt, length, decrypt⟩ := @works.gcm key aad plaintext nonce size aadShort short
  have total : (body ++ tag.bytes).length = plaintext.length + 16 := by simp [length]
  refine ⟨body ++ tag.bytes, ?_, total, ?_⟩
  · rw [pskAeadEncrypt, if_neg (by simp [size])]
    rw [cInt_small aadShort, cInt_small short, encrypt]
  · have cut : (body ++ tag.bytes).length - 16 = body.length := by omega
    have front : (body ++ tag.bytes).take ((body ++ tag.bytes).length - 16) = body := by
      rw [cut]
      exact List.take_left' rfl
    have back : Block.slice (body ++ tag.bytes) ((body ++ tag.bytes).length - 16) 16
        (by omega) = tag :=
      Block.slice_eq body [] (by simp) cut.symm _
    rw [pskAeadDecrypt, dif_neg (by omega)]
    simp only [front, back]
    rw [cInt_small aadShort, cInt_small (by omega), decrypt]

theorem serverRespond_works (works : platform.Works) {psk : List β} (size : psk.length = 32)
    {request : AuthRequest β} (random : request.clientRandom.length = 32)
    (salt : request.salt.length = 32) (draws : ServerDraws β) :
    ∃ response keys sealings, Responded platform psk request draws response keys sealings ∧
      response.encryptedSessionKey.length = 48 ∧
      sealings = [⟨keys.encKey, draws.nonce, request.clientRandom, draws.serverRandom.bytes⟩] ∧
      pskAeadDecrypt platform keys.encKey response.nonce response.encryptedSessionKey
        request.clientRandom = .ok draws.serverRandom.bytes := by
  obtain ⟨keys, derived⟩ := pskDeriveSessionKeys_works works request.salt size
  obtain ⟨encLength, macLength⟩ := pskDeriveSessionKeys_ok derived
  have filled : keys.macKey ≠ [] := by
    intro empty
    simp [empty] at macLength
  obtain ⟨encrypted, sealed, length, opened⟩ := pskAead_works works draws.nonce
    draws.serverRandom.bytes request.clientRandom encLength (by rw [random]; decide)
    (by rw [draws.serverRandom.length_eq]; decide)
  obtain ⟨mac, code⟩ := hmacSha256_works works filled (macData request.clientRandom
    draws.serverRandom.bytes draws.nonce.bytes encrypted)
  refine ⟨{
    serverRandom := draws.serverRandom.bytes
    salt := draws.salt.bytes
    encryptedSessionKey := encrypted
    nonce := draws.nonce
    mac := mac }, keys, _, ⟨size, random, salt, derived, sealed, code, rfl, rfl, rfl⟩, ?_, rfl, opened⟩
  rw [length, draws.serverRandom.length_eq]

open PskAuthenticator

theorem processRequest_works [DecidableEq β] (works : platform.Works) {server : PskAuthenticator β}
    (size : server.psk.length = 32) (serverRole : server.isClient = false) {request : AuthRequest β}
    (random : request.clientRandom.length = 32) (salt : request.salt.length = 32)
    (surroundings : Surroundings β) :
    ∃ response keys sealings,
      Responded platform server.psk request surroundings.serverDraws response keys sealings ∧
      response.encryptedSessionKey.length = 48 ∧
      sealings = [⟨keys.encKey, surroundings.serverDraws.nonce, request.clientRandom,
        surroundings.serverDraws.serverRandom.bytes⟩] ∧
      pskAeadDecrypt platform keys.encKey response.nonce response.encryptedSessionKey
        request.clientRandom = .ok surroundings.serverDraws.serverRandom.bytes ∧
      server.perform platform surroundings
          (.processHandshake (serializeRequest platform request)) = {
        result := .ok (serializeResponse platform response)
        after := server.agreed response keys
        sealings := sealings } := by
  obtain ⟨response, keys, sealings, responded, length, sealing, opened⟩ :=
    serverRespond_works works size random salt surroundings.serverDraws
  refine ⟨response, keys, sealings, responded, length, sealing, opened, ?_⟩
  have heard : Responded platform server.psk
      (deserializeRequest platform (serializeRequest platform request))
      surroundings.serverDraws response keys sealings := by
    rw [deserialize_serializeRequest works random salt]
    exact ⟨size, random, salt, responded.derived, responded.sealed, responded.mac,
      responded.serverRandom, responded.salt, responded.nonce⟩
  have answered := processRequest_responded heard
  rw [perform, processHandshake, if_neg (by simp [serverRole]), answered]

theorem exchange_completes [DecidableEq β] (works : platform.Works)
    {client server : PskAuthenticator β} (size : client.psk.length = 32)
    (shared : server.psk = client.psk) (role : client.isClient = true)
    (serverRole : server.isClient = false)
    (random : client.clientRequest.clientRandom.length = 32)
    (salt : client.clientRequest.salt.length = 32) (second third : Surroundings β) :
    ∃ response keys,
      pskDeriveSessionKeys platform client.psk client.clientRequest.salt = .ok keys ∧
      server.perform platform second
          (.processHandshake (serializeRequest platform client.clientRequest)) = {
        result := .ok (serializeResponse platform response)
        after := server.agreed response keys
        sealings := [⟨keys.encKey, second.serverDraws.nonce, client.clientRequest.clientRandom,
          second.serverDraws.serverRandom.bytes⟩] } ∧
      client.perform platform third (.processHandshake (serializeResponse platform response)) = {
        result := .ok []
        after := client.agreed response keys } := by
  obtain ⟨response, keys, sealings, responded, length, rfl, opened, answered⟩ :=
    processRequest_works works (by rw [shared, size]) serverRole random salt second
  have read : deserializeResponse platform third.residue (serializeResponse platform response) =
      response := by
    apply deserialize_serializeResponse works
    · rw [responded.serverRandom, second.serverDraws.serverRandom.length_eq]
    · rw [responded.salt, second.serverDraws.salt.length_eq]
    · rw [length]
      decide
  have code : response.mac.bytes.take 32 = response.mac.bytes :=
    List.take_of_length_le (by rw [response.mac.length_eq])
  have derived := responded.derived
  rw [shared] at derived
  have accepted : Finalized platform client.psk client.clientRequest
      (deserializeResponse platform third.residue (serializeResponse platform response)) keys := by
    rw [read]
    exact ⟨size, derived, ⟨_, responded.mac, code⟩, _, opened⟩
  refine ⟨response, keys, derived, answered, ?_⟩
  have finished := processResponse_finalized accepted
  rw [read] at finished
  rw [perform, processHandshake, if_pos role, finished]

theorem beginHandshake_client {client : PskAuthenticator β} (role : client.isClient = true)
    (draws : ClientDraws β) :
    client.beginHandshake platform draws = {
      result := .ok (serializeRequest platform (client.requested draws).clientRequest)
      after := client.requested draws } := by
  rw [beginHandshake, if_pos role]
  rfl

theorem encrypt_decrypt (works : platform.Works) {auth peer : PskAuthenticator β}
    (done : auth.done = true) (peerDone : peer.done = true) (same : peer.keys = auth.keys)
    (size : auth.keys.encKey.length = 32) {plaintext : List β}
    (short : plaintext.length < 2 ^ 31) :
    ∃ ciphertext, auth.encrypt platform plaintext = {
        result := .ok ciphertext
        after := auth
        sealings := [⟨auth.keys.encKey, zeroNonce platform, [], plaintext⟩] } ∧
      peer.decrypt platform ciphertext = { result := .ok plaintext, after := peer } := by
  obtain ⟨enc, sealed, length, opened⟩ :=
    pskAead_works works (zeroNonce platform) plaintext [] size (by simp) short
  refine ⟨(zeroNonce platform).bytes ++ enc, ?_, ?_⟩
  · rw [encrypt, if_pos done, sealed]
  · have front : Block.slice ((zeroNonce platform).bytes ++ enc) 0 12 (by simp) =
        zeroNonce platform := by
      apply Block.slice_eq [] enc
      · rfl
      · rfl
    have back : ((zeroNonce platform).bytes ++ enc).drop 12 = enc :=
      List.drop_left' (zeroNonce platform).length_eq
    rw [decrypt, if_pos peerDone, dif_neg (by simp), front, back, same, opened]

inductive Side where
  | client
  | server
  deriving DecidableEq, Repr

def Side.peer : Side → Side
  | client => server
  | server => client

/-- Two authenticators and what each has put on the wire, with the text under it. -/
structure Session (β : Type) where
  party : Side → PskAuthenticator β
  wire : List (Side × List β × List β) := []

inductive ChannelEvent (β : Type) where
  | sent (side : Side) (plaintext : List β) (result : Except ErrorCode (List β))
  | delivered (side : Side) (plaintext : List β) (result : Except ErrorCode (List β))

def ChannelEvent.Faithful : ChannelEvent β → Prop
  | .sent _ _ result => ∃ ciphertext, result = .ok ciphertext
  | .delivered _ plaintext result => result = .ok plaintext

/-- Either side sends a text of less than 2^31 bytes, or gets any message of the other side. -/
inductive ChannelStep [DecidableEq β] (platform : Platform β) :
    Session β → ChannelEvent β → Session β → Prop where
  | send {session : Session β} (side : Side) (plaintext : List β) (surroundings : Surroundings β)
      (short : plaintext.length < 2 ^ 31) {outcome : AuthOutcome β}
      (performed : (session.party side).perform platform surroundings (.encrypt plaintext) = outcome) :
      ChannelStep platform session (.sent side plaintext outcome.result) {
        party := Function.update session.party side outcome.after
        wire := match outcome.result with
          | .ok ciphertext => (side, plaintext, ciphertext) :: session.wire
          | .error _ => session.wire }
  | deliver {session : Session β} {side : Side} {plaintext ciphertext : List β}
      (onWire : (side, plaintext, ciphertext) ∈ session.wire) (surroundings : Surroundings β)
      {outcome : AuthOutcome β}
      (performed : (session.party side.peer).perform platform surroundings (.decrypt ciphertext) =
        outcome) :
      ChannelStep platform session (.delivered side.peer plaintext outcome.result) {
        party := Function.update session.party side.peer outcome.after
        wire := session.wire }

structure Session.Sound (platform : Platform β) (keys : DerivedKeys β) (session : Session β) :
    Prop where
  done (side : Side) : (session.party side).done = true
  keyed (side : Side) : (session.party side).keys = keys
  opens {side : Side} {plaintext ciphertext : List β} :
    (side, plaintext, ciphertext) ∈ session.wire →
    ∀ auth : PskAuthenticator β, auth.done = true → auth.keys = keys →
      auth.decrypt platform ciphertext = { result := .ok plaintext, after := auth }

theorem channelStep_sound [DecidableEq β] (works : platform.Works) {keys : DerivedKeys β}
    (size : keys.encKey.length = 32) {session next : Session β} {event : ChannelEvent β}
    (step : ChannelStep platform session event next) (sound : session.Sound platform keys) :
    event.Faithful ∧ next.Sound platform keys := by
  cases step with
  | send side plaintext surroundings short performed =>
      subst performed
      have full : (session.party side).keys.encKey.length = 32 := by rw [sound.keyed, size]
      obtain ⟨ciphertext, encrypted, -⟩ := @encrypt_decrypt β platform works (session.party side)
        (session.party side) (sound.done side) (sound.done side) rfl full plaintext short
      rw [perform, encrypted, Function.update_eq_self]
      refine ⟨⟨ciphertext, rfl⟩, sound.done, sound.keyed, ?_⟩
      intro sender text message onWire auth done keyed
      rcases List.mem_cons.mp onWire with fresh | old
      · obtain ⟨other, again, decrypted⟩ := @encrypt_decrypt β platform works (session.party side)
          auth (sound.done side) done (by rw [keyed, sound.keyed]) full plaintext short
        rw [again] at encrypted
        cases fresh
        cases encrypted
        exact decrypted
      · exact sound.opens old auth done keyed
  | deliver onWire surroundings performed =>
      rename_i side plaintext ciphertext outcome
      subst performed
      rw [perform, sound.opens onWire _ (sound.done side.peer) (sound.keyed side.peer),
        Function.update_eq_self]
      exact ⟨rfl, sound⟩

theorem channel_faithful [DecidableEq β] (works : platform.Works) {keys : DerivedKeys β}
    (size : keys.encKey.length = 32) {session final : Session β} {events : List (ChannelEvent β)}
    (run : Run (ChannelStep platform) session events final)
    (sound : session.Sound platform keys) : ∀ event ∈ events, event.Faithful := by
  induction run with
  | nil => simp
  | cons step _ ih =>
      obtain ⟨faithful, kept⟩ := channelStep_sound works size step sound
      intro event member
      rcases List.mem_cons.mp member with rfl | later
      · exact faithful
      · exact ih kept event later

/-- The handshake completes on both sides with equal keys, and from then on each side reads
whatever the other sends. -/
def HonestSession [DecidableEq β] (platform : Platform β) (psk identity : List β)
    (first second third : Surroundings β) : Prop :=
  ∃ request response client server finished keys,
    (createClient platform psk identity).perform platform first .beginHandshake =
      { result := .ok request, after := client } ∧
    (∃ sealings, (createServer platform psk).perform platform second (.processHandshake request) =
      { result := .ok response, after := server, sealings := sealings }) ∧
    client.perform platform third (.processHandshake response) =
      { result := .ok [], after := finished } ∧
    finished.isHandshakeDone = true ∧ server.isHandshakeDone = true ∧
    finished.sessionKeys = .ok keys ∧ server.sessionKeys = .ok keys ∧
    ∀ {events final}, Run (ChannelStep platform)
        { party := fun side => match side with | .client => finished | .server => server }
        events final →
      ∀ event ∈ events, event.Faithful

/-- The handshake completes and the channel works, for identities and exchanges of any length. -/
theorem honest_session [DecidableEq β] (works : platform.Works) {psk : List β}
    (size : psk.length = 32) (identity : List β) (first second third : Surroundings β) :
    HonestSession platform psk identity first second third := by
  have began := @beginHandshake_client β platform (createClient platform psk identity) rfl
    first.clientDraws
  obtain ⟨response, keys, derived, answered, accepted⟩ := @exchange_completes β platform _ works
    ((createClient platform psk identity).requested first.clientDraws) (createServer platform psk)
    size rfl rfl rfl first.clientDraws.clientRandom.length_eq first.clientDraws.salt.length_eq
    second third
  refine ⟨_, _, _, (createServer platform psk).agreed response keys, _, keys, began,
    ⟨_, answered⟩, accepted, rfl, rfl, rfl, rfl, ?_⟩
  intro events final run
  apply channel_faithful works (pskDeriveSessionKeys_ok derived).1 run
  refine ⟨?_, ?_, by simp⟩
  · rintro (_ | _) <;> rfl
  · rintro (_ | _) <;> rfl

section Sample

def samplePsk : List UInt8 := List.replicate 32 0xaa

def sampleBytes (number length : Nat) : Block UInt8 length := ⟨leBytes length number, by simp⟩

def sampleCount (first length : Nat) : Block UInt8 length :=
  ⟨(List.range length).map fun index => UInt8.ofNat (first + index), by simp⟩

def sampleSurroundings : Surroundings UInt8 where
  clientDraws := { clientRandom := sampleCount 0 32, salt := sampleCount 32 32 }
  serverDraws := { serverRandom := sampleCount 64 32, salt := sampleCount 96 32, nonce := sampleCount 128 12 }
  residue := { nonce := Block.fill 12 0, mac := Block.fill 32 0 }

def sampleEncKey : List UInt8 :=
  leBytes 32 64450718295136066057754676616042059255097221569967267859868906737027158180447

def sampleMacKey : List UInt8 :=
  leBytes 32 5160388356020644531946586202758168055502371110895490235985113852448447706057

def sampleKdf : List ((List UInt8 × List UInt8 × String) × List UInt8) :=
  [(((sampleCount 32 32).bytes, samplePsk, sessionInfo), sampleEncKey),
    (((sampleCount 32 32).bytes, sampleEncKey, macInfo), sampleMacKey)]

def sampleSeals : List (Sealing UInt8 × List UInt8 × Block UInt8 16) :=
  [(⟨sampleEncKey, sampleCount 128 12, (sampleCount 0 32).bytes, (sampleCount 64 32).bytes⟩,
      leBytes 32 13042998471976899581616331295774549272797821199206366472600844904183162525940,
      sampleBytes 112558957489312377260039256155819279360 16),
    (⟨sampleEncKey, Block.fill 12 0, [], ascii "udaf"⟩, leBytes 4 744987102,
      sampleBytes 180769642909386321048356535978149565318 16)]

def sampleMacs : List ((List UInt8 × List UInt8) × List UInt8) :=
  [((sampleMacKey, macData (sampleCount 0 32).bytes (sampleCount 64 32).bytes
      (sampleCount 128 12).bytes
      (leBytes 32 13042998471976899581616331295774549272797821199206366472600844904183162525940 ++
        (sampleBytes 112558957489312377260039256155819279360 16).bytes)),
    leBytes 32 93033873009393601667942073509634149757085965074069857384541007335097857017853)]

def samplePlatform : Platform UInt8 where
  byte := id
  value := id
  kdfDerive salt ikm info length :=
    some ⟨((sampleKdf.lookup (salt, ikm, info)).getD [] ++ List.replicate length 0).take length, by
      rw [List.length_take, List.length_append, List.length_replicate]
      omega⟩
  macCompute key message := some ((sampleMacs.lookup (key, message)).getD (List.replicate 32 0))
  gcmEncrypt key nonce aad _ plaintext _ :=
    some ((sampleSeals.lookup ⟨key, nonce, aad, plaintext⟩).getD (plaintext, Block.fill 16 0))
  gcmDecrypt key nonce aad _ ciphertext _ tag :=
    match sampleSeals.find? fun entry =>
        entry.2 = (ciphertext, tag) ∧ entry.1.key = key ∧ entry.1.nonce = nonce ∧ entry.1.aad = aad with
    | some entry => some entry.1.plaintext
    | none => if tag = Block.fill 16 0 then some ciphertext else none

theorem sampleSeals_mem {sealing : Sealing UInt8} {output : List UInt8 × Block UInt8 16}
    (found : sampleSeals.lookup sealing = some output) : (sealing, output) ∈ sampleSeals := by
  obtain ⟨front, back, split, -⟩ := List.lookup_eq_some_iff.mp found
  rw [split]
  simp

theorem samplePlatform_gcm {key aad plaintext : List UInt8} (nonce : Nonce UInt8) :
    ∃ body tag, samplePlatform.gcmEncrypt key nonce aad aad.length plaintext plaintext.length =
        some (body, tag) ∧ body.length = plaintext.length ∧
      samplePlatform.gcmDecrypt key nonce aad aad.length body body.length tag = some plaintext := by
  have tagged : ∀ entry ∈ sampleSeals, entry.2.2 ≠ Block.fill 16 0 := by decide +kernel
  have sizes : ∀ entry ∈ sampleSeals, entry.2.1.length = entry.1.plaintext.length := by decide +kernel
  have distinct : ∀ entry ∈ sampleSeals, ∀ other ∈ sampleSeals, entry.2 = other.2 →
      entry.1.plaintext = other.1.plaintext := by decide +kernel
  cases found : sampleSeals.lookup ⟨key, nonce, aad, plaintext⟩ with
  | none =>
      refine ⟨plaintext, Block.fill 16 0, by simp [samplePlatform, found], rfl, ?_⟩
      have absent : (sampleSeals.find? fun entry => entry.2 = (plaintext, Block.fill 16 0) ∧
          entry.1.key = key ∧ entry.1.nonce = nonce ∧ entry.1.aad = aad) = none := by
        apply List.find?_eq_none.mpr
        intro entry member same
        simp only [decide_eq_true_eq] at same
        exact tagged entry member (by rw [same.1])
      simp only [samplePlatform, absent, if_true]
  | some output =>
      have member := sampleSeals_mem found
      refine ⟨output.1, output.2, by simp [samplePlatform, found], sizes _ member, ?_⟩
      cases opened : sampleSeals.find? fun entry => entry.2 = (output.1, output.2) ∧
          entry.1.key = key ∧ entry.1.nonce = nonce ∧ entry.1.aad = aad with
      | none =>
          have absent := List.find?_eq_none.mp opened _ member
          simp at absent
      | some entry =>
          have same := List.find?_some opened
          simp only [decide_eq_true_eq] at same
          have text := distinct _ member entry (List.mem_of_find?_eq_some opened) same.1.symm
          simp only [samplePlatform, opened]
          rw [← text]

theorem samplePlatform_works : samplePlatform.Works where
  value_byte _ := rfl
  kdf _ _ := ⟨_, rfl⟩
  mac key message := by
    refine ⟨_, rfl, ?_⟩
    have sizes : ∀ entry ∈ sampleMacs, entry.2.length = 32 := by decide +kernel
    cases found : sampleMacs.lookup (key, message) with
    | none => simp
    | some mac =>
        obtain ⟨front, back, split, -⟩ := List.lookup_eq_some_iff.mp found
        exact sizes ((key, message), mac) (by simp [split])
  gcm nonce _ _ _ := samplePlatform_gcm nonce

theorem honest_session_sample : HonestSession samplePlatform samplePsk (ascii "device-A")
    sampleSurroundings sampleSurroundings sampleSurroundings :=
  honest_session samplePlatform_works (by decide) (ascii "device-A") sampleSurroundings
    sampleSurroundings sampleSurroundings

end Sample

end Udaf
