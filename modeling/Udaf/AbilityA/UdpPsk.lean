import Udaf.Crypto.NonceReuse

/-!
A `UdpSocket` with a PSK: what it sends arrives, and what it takes for data was made with
the key, unless it is too short to be looked at.
-/

namespace Udaf

open ByteString

variable {β : Type} {platform : Platform β}

/-- What is relied on: a text that AES-GCM opens under a key was sealed under it. -/
structure Platform.Authentic (platform : Platform β) : Prop where
  opened {key aad body plaintext : List β} (nonce : Nonce β) (tag : Block β 16) :
    key.length = 32 →
    platform.gcmDecrypt key nonce aad aad.length body body.length tag = some plaintext →
    plaintext.length = body.length ∧
      platform.gcmEncrypt key nonce aad aad.length plaintext plaintext.length = some (body, tag)

def SealedUnder (platform : Platform β) (psk datagram payload : List β) : Prop :=
  ∃ (nonce : Nonce β) (enc : List β),
    (pskAeadEncrypt platform psk nonce payload []).1 = .ok enc ∧ datagram = nonce.bytes ++ enc

theorem SealedUnder.length {psk datagram payload : List β}
    (sealed : SealedUnder platform psk datagram payload) : 28 ≤ datagram.length := by
  obtain ⟨nonce, enc, encrypted, rfl⟩ := sealed
  obtain ⟨-, body, tag, -, rfl⟩ := pskAeadEncrypt_ok (Prod.ext encrypted rfl)
  simp only [List.length_append, Block.length_eq]
  omega

theorem pskAeadDecrypt_sealed (authentic : platform.Authentic) {key ciphertext plaintext : List β}
    {nonce : Nonce β} (size : key.length = 32) (short : ciphertext.length ≤ 64 * 1024)
    (opened : pskAeadDecrypt platform key nonce ciphertext [] = .ok plaintext) :
    (pskAeadEncrypt platform key nonce plaintext []).1 = .ok ciphertext := by
  obtain ⟨long, decrypted⟩ := pskAeadDecrypt_ok opened
  have length : (ciphertext.take (ciphertext.length - 16)).length = ciphertext.length - 16 := by
    rw [List.length_take]
    omega
  have none : cInt ([] : List β).length = ([] : List β).length := cInt_small (Nat.two_pow_pos 31)
  have tag : (ciphertext.drop (ciphertext.length - 16)).take 16 =
      ciphertext.drop (ciphertext.length - 16) :=
    List.take_of_length_le (by rw [List.length_drop]; omega)
  rw [none, cInt_small (by omega)] at decrypted
  obtain ⟨same, encrypted⟩ := authentic.opened _ _ size decrypted
  rw [pskAeadEncrypt, if_neg (by simp [size]), none, cInt_small (by omega), encrypted]
  refine congrArg Except.ok ?_
  simp only [Block.slice]
  rw [tag, List.take_append_drop]

namespace UdpSocket

variable {socket : UdpSocket β}

theorem opened_sealed (authentic : platform.Authentic) (size : socket.psk.length = 32)
    {buf payload : List β} (fits : buf.length ≤ 64 * 1024)
    (opened : socket.opened platform buf = .ok payload) :
    SealedUnder platform socket.psk buf payload ∨ buf.length ≤ 12 ∧ payload = buf := by
  unfold UdpSocket.opened at opened
  split at opened
  · rename_i long
    exact .inl ⟨Block.slice buf 0 12 (by omega), buf.drop 12,
      pskAeadDecrypt_sealed authentic size (by rw [List.length_drop]; omega) opened,
      (List.take_append_drop 12 buf).symm⟩
  · rename_i short
    cases opened
    exact .inr ⟨by omega, rfl⟩

theorem recv_sealed (authentic : platform.Authentic) (size : socket.psk.length = 32)
    {timeoutMs : Int} {selected : Select} {received : RecvFrom β} {payload : List β}
    (got : socket.recv platform timeoutMs selected received = .ok payload) :
    ∃ buf fits, received = .received buf fits ∧
      (SealedUnder platform socket.psk buf payload ∨ buf.length ≤ 12 ∧ payload = buf) := by
  unfold recv at got
  split at got
  · cases got
  · split at got
    · cases got
    · split at got
      · cases got
      · split at got
        · cases got
        · cases got
        · rename_i buf fits
          exact ⟨buf, fits, rfl, opened_sealed authentic size fits got⟩

/-- The largest payload of a UDP datagram over IPv4. -/
def maxDatagram : Nat := 65507

theorem opened_toSend (works : platform.Works) (size : socket.psk.length = 32)
    {other : UdpSocket β} (shared : other.psk = socket.psk) {payload bytes : List β}
    (short : payload.length ≤ maxDatagram)
    (filled : (socket.toSend platform payload).1 = .ok bytes) :
    other.opened platform bytes = .ok payload := by
  have bound : payload.length < 2 ^ 31 := Nat.lt_of_le_of_lt short (by decide)
  by_cases empty : payload = []
  · rw [toSend, if_neg (fun both => both.2 empty)] at filled
    cases filled
    rw [empty]
    exact dif_neg (by simp)
  · obtain ⟨enc, sealed, length, opens⟩ := @pskAead_works β platform works socket.psk
      (zeroNonce platform) payload [] size (Nat.two_pow_pos 31) bound
    rw [toSend, if_pos ⟨size, empty⟩, sealed] at filled
    cases filled
    have long : other.psk.length = 32 ∧ 12 < ((zeroNonce platform).bytes ++ enc).length := by
      rw [shared, List.length_append, Block.length_eq]
      omega
    have cut : Block.slice ((zeroNonce platform).bytes ++ enc) 0 12 (by omega) = zeroNonce platform :=
      @Block.slice_eq β 12 _ (zeroNonce platform) 0 [] enc rfl rfl _
    have behind : ((zeroNonce platform).bytes ++ enc).drop 12 = enc :=
      List.drop_left' (zeroNonce platform).length_eq
    rw [UdpSocket.opened, dif_pos long, cut, behind, shared]
    exact opens

theorem recv_send (works : platform.Works) (size : socket.psk.length = 32)
    {inetPton : String → Option (Block UInt8 4)} {payload : List β} {dst : Endpoint} {now : Int}
    {accepted : SendTo} {datagram : Datagram β} (short : payload.length ≤ maxDatagram)
    (sent : (socket.send platform inetPton payload dst now accepted).datagram = some datagram)
    {other : UdpSocket β} (shared : other.psk = socket.psk) (live : 0 ≤ other.fd)
    (timeoutMs : Int) (fits : datagram.bytes.length ≤ 64 * 1024) :
    other.recv platform timeoutMs .ready (.received datagram.bytes fits) = .ok payload := by
  have kept := (checkRate_kept socket dst now).1
  have bytes : ∃ limited : UdpSocket β, limited.psk = socket.psk ∧
      (limited.toSend platform payload).1 = .ok datagram.bytes := by
    unfold send at sent
    split at sent
    · cases sent
    · split at sent
      · cases sent
      · rename_i limited checked
        rw [checked] at kept
        split at sent
        · cases sent
        · rename_i bytes sealings filled
          split at sent
          · cases sent
          · cases sent
            exact ⟨limited, kept, by rw [filled]⟩
  obtain ⟨limited, same, filled⟩ := bytes
  have opened := opened_toSend works (by rw [same, size]) (shared.trans same.symm) short filled
  rw [recv, if_neg (by omega), if_neg (by simp), if_neg (by simp)]
  exact opened

end UdpSocket

/-- What a socket with a PSK hands out was sealed under it, or came as at most twelve bytes; and what
one sends, another reads. -/
theorem psk_sockets (works : platform.Works) (authentic : platform.Authentic) {socket : UdpSocket β}
    (size : socket.psk.length = 32) :
    (∀ timeoutMs selected received payload,
      socket.recv platform timeoutMs selected received = .ok payload →
        ∃ buf fits, received = .received buf fits ∧
          (SealedUnder platform socket.psk buf payload ∨ buf.length ≤ 12 ∧ payload = buf)) ∧
      ∀ (other : UdpSocket β) inetPton payload dst now accepted (datagram : Datagram β) timeoutMs
        (fits : datagram.bytes.length ≤ 64 * 1024),
        other.psk = socket.psk → 0 ≤ other.fd → payload.length ≤ UdpSocket.maxDatagram →
        (socket.send platform inetPton payload dst now accepted).datagram = some datagram →
        other.recv platform timeoutMs .ready (.received datagram.bytes fits) = .ok payload := by
  constructor
  · intro timeoutMs selected received payload got
    exact UdpSocket.recv_sealed authentic size got
  · intro other inetPton payload dst now accepted datagram timeoutMs fits shared live short sent
    exact UdpSocket.recv_send works size short sent shared live timeoutMs fits

section Sample

def strictPlatform : Platform UInt8 :=
  { samplePlatform with
    gcmDecrypt := fun key nonce aad _ ciphertext _ tag =>
      match sampleSeals.find? fun entry => entry.2 = (ciphertext, tag) ∧ entry.1.key = key ∧
          entry.1.nonce = nonce ∧ entry.1.aad = aad with
      | some entry => some entry.1.plaintext
      | none =>
          if tag = Block.fill 16 0 ∧ sampleSeals.lookup ⟨key, nonce, aad, ciphertext⟩ = none then
            some ciphertext
          else none }

theorem strictPlatform_gcm {key aad plaintext : List UInt8} (nonce : Nonce UInt8) :
    ∃ body tag, strictPlatform.gcmEncrypt key nonce aad aad.length plaintext plaintext.length =
        some (body, tag) ∧ body.length = plaintext.length ∧
      strictPlatform.gcmDecrypt key nonce aad aad.length body body.length tag = some plaintext := by
  have tagged : ∀ entry ∈ sampleSeals, entry.2.2 ≠ Block.fill 16 0 := by decide +kernel
  obtain ⟨body, tag, encrypt, length, decrypt⟩ := @samplePlatform_gcm key aad plaintext nonce
  refine ⟨body, tag, encrypt, length, ?_⟩
  simp only [samplePlatform, strictPlatform] at encrypt decrypt ⊢
  generalize sampleSeals.find? (fun entry => decide (entry.2 = (body, tag) ∧ entry.1.key = key ∧
    entry.1.nonce = nonce ∧ entry.1.aad = aad)) = result at decrypt ⊢
  cases result with
  | some entry => exact decrypt
  | none =>
      by_cases zero : tag = Block.fill 16 0
      · rw [if_pos zero] at decrypt
        cases decrypt
        refine if_pos ⟨zero, ?_⟩
        cases present : sampleSeals.lookup ⟨key, nonce, aad, plaintext⟩ with
        | none => rfl
        | some output =>
            rw [present] at encrypt
            cases encrypt
            exact absurd zero (tagged _ (sampleSeals_mem present))
      · rw [if_neg zero] at decrypt
        cases decrypt

theorem strictPlatform_works : strictPlatform.Works where
  value_byte := samplePlatform_works.value_byte
  kdf := samplePlatform_works.kdf
  mac := samplePlatform_works.mac
  gcm nonce _ _ _ := strictPlatform_gcm nonce

theorem strictPlatform_authentic : strictPlatform.Authentic where
  opened {key aad body plaintext} nonce tag _ decrypt := by
    have first : ∀ entry ∈ sampleSeals, sampleSeals.lookup entry.1 = some entry.2 := by
      decide +kernel
    have sizes : ∀ entry ∈ sampleSeals, entry.2.1.length = entry.1.plaintext.length := by
      decide +kernel
    simp only [samplePlatform, strictPlatform] at decrypt ⊢
    split at decrypt
    · rename_i entry found
      cases decrypt
      have member := List.mem_of_find?_eq_some found
      have same := List.find?_some found
      simp only [decide_eq_true_eq] at same
      obtain ⟨output, rfl, rfl, rfl⟩ := same
      have size := sizes entry member
      have sealed := first entry member
      rw [output] at size sealed
      exact ⟨size.symm, by rw [sealed]; rfl⟩
    · split at decrypt
      · rename_i fresh
        cases decrypt
        exact ⟨rfl, by rw [fresh.2, fresh.1]; rfl⟩
      · cases decrypt

def sealedSocket : UdpSocket UInt8 where
  fd := 3
  psk := sampleEncKey

theorem psk_sockets_sample :
    ∃ datagram fits, (sealedSocket.send strictPlatform sampleInetPton (ascii "udaf") sampleEndpoint
        1000000000 (.sent 32)).datagram = some datagram ∧
      sealedSocket.recv strictPlatform 1000 .ready (.received datagram.bytes fits) =
        .ok (ascii "udaf") ∧
      SealedUnder strictPlatform sealedSocket.psk datagram.bytes (ascii "udaf") := by
  obtain ⟨authentic, arrives⟩ := psk_sockets strictPlatform_works strictPlatform_authentic
    (show sealedSocket.psk.length = 32 by decide +kernel)
  obtain ⟨datagram, sent, fits⟩ : ∃ datagram, (sealedSocket.send strictPlatform sampleInetPton
      (ascii "udaf") sampleEndpoint 1000000000 (.sent 32)).datagram = some datagram ∧
      12 < datagram.bytes.length ∧ datagram.bytes.length ≤ 64 * 1024 :=
    ⟨_, rfl, by decide +kernel, by decide +kernel⟩
  have arrived := arrives sealedSocket sampleInetPton (ascii "udaf") sampleEndpoint 1000000000
    (.sent 32) datagram 1000 fits.2 rfl (by decide) (by decide) sent
  refine ⟨datagram, fits.2, sent, arrived, ?_⟩
  obtain ⟨buf, inside, same, sealed | short⟩ := authentic _ _ _ _ arrived
  · cases same
    exact sealed
  · cases same
    exact absurd short.1 (Nat.not_le_of_lt fits.1)

/-- Twelve bytes from anybody are taken for data. -/
theorem short_datagram_passes :
    sampleSocket.recv samplePlatform 1000 .ready (.received (List.replicate 12 171) (by decide)) =
        .ok (List.replicate 12 171) ∧
      ¬ SealedUnder samplePlatform sampleSocket.psk (List.replicate 12 171)
        (List.replicate 12 171) := by
  refine ⟨by decide +kernel, ?_⟩
  intro sealed
  have long := sealed.length
  rw [List.length_replicate] at long
  omega

end Sample

end Udaf
