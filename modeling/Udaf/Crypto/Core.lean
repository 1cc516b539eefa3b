import Udaf.Core.ErrorCode
import Udaf.Lib.Bytes

/-!
The types of `crypto/auth_types.hpp`, and what the code takes from OpenSSL. The
code moves bytes without computing on them, apart from two length fields, so it is
written over any alphabet of bytes: `UInt8` as it runs, symbolic bytes for what an
attacker can do.
-/

namespace Udaf

open ByteString

def cInt (size : Nat) : Int := (Int32.ofNat size).toInt

/-- An alphabet of bytes with the calls into OpenSSL; `none` is a call that fails. The lengths
are the `int` arguments of the cipher calls. -/
structure Platform (β : Type) where
  byte : UInt8 → β
  value : β → UInt8
  kdfDerive (salt ikm : List β) (info : String) (length : Nat) : Option (Block β length)
  macCompute (key message : List β) : Option (List β)
  gcmEncrypt (key : List β) (nonce : Block β 12) (aad : List β) (aadLength : Int)
    (plaintext : List β) (plaintextLength : Int) : Option (List β × Block β 16)
  gcmDecrypt (key : List β) (nonce : Block β 12) (aad : List β) (aadLength : Int)
    (ciphertext : List β) (ciphertextLength : Int) (tag : Block β 16) : Option (List β)

abbrev Nonce (β : Type) := Block β 12

abbrev Mac (β : Type) := Block β 32

structure AuthRequest (β : Type) where
  clientRandom : List β := []
  salt : List β := []
  identity : List β := []
  deriving DecidableEq

structure AuthResponse (β : Type) where
  serverRandom : List β := []
  salt : List β := []
  encryptedSessionKey : List β := []
  nonce : Nonce β
  mac : Mac β
  deriving DecidableEq

structure DerivedKeys (β : Type) where
  encKey : List β := []
  macKey : List β := []
  deriving DecidableEq

structure Sealing (β : Type) where
  key : List β
  nonce : Nonce β
  aad : List β
  plaintext : List β
  deriving DecidableEq

/-- What is relied on: the calls succeed, tags and digests have their size, and decryption undoes
encryption. -/
structure Platform.Works {β : Type} (platform : Platform β) : Prop where
  value_byte (byte : UInt8) : platform.value (platform.byte byte) = byte
  kdf {salt ikm : List β} (info : String) : ikm ≠ [] → ∃ okm, platform.kdfDerive salt ikm info 32 = some okm
  mac (key message : List β) : ∃ tag, platform.macCompute key message = some tag ∧ tag.length = 32
  gcm {key aad plaintext : List β} (nonce : Nonce β) :
    key.length = 32 → aad.length < 2 ^ 31 → plaintext.length < 2 ^ 31 →
    ∃ body tag, platform.gcmEncrypt key nonce aad aad.length plaintext plaintext.length =
        some (body, tag) ∧ body.length = plaintext.length ∧
      platform.gcmDecrypt key nonce aad aad.length body body.length tag = some plaintext

theorem cInt_small {size : Nat} (bound : size < 2 ^ 31) : cInt size = size :=
  Int32.toInt_ofNat_of_lt bound

end Udaf
