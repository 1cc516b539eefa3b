import Udaf.Crypto.Core

/-!
`crypto/hmac.cpp` and `crypto/psk.cpp`: key derivation, the message authentication
code, AES-GCM and the two sides of the handshake. A function that may encrypt also
returns what it handed to the cipher.
-/

namespace Udaf

open ByteString

variable {β : Type} (platform : Platform β)

def hmacSha256 (key message : List β) : Except ErrorCode (List β) :=
  if key.isEmpty then .error .invalidArg
  else
    match platform.macCompute key message with
    | none => .error .internal
    | some mac => .ok mac

/-- `true` when the first bytes differ. -/
def constantTimeMemcmp [DecidableEq β] (first second : List β) (size : Nat) : Bool :=
  first.take size ≠ second.take size

def hmacSha256Verify [DecidableEq β] (key message expected : List β) : Except ErrorCode Unit :=
  if expected.length ≠ 32 then .error .invalidArg
  else
    match hmacSha256 platform key message with
    | .error code => .error code
    | .ok mac =>
        if constantTimeMemcmp mac expected 32 then .error .cryptoHmacMismatch
        else .ok ()

def hkdfSha256 (salt ikm : List β) (info : String) (outLength : Nat) : Except ErrorCode (List β) :=
  if outLength = 0 ∨ 255 * 32 < outLength then .error .invalidArg
  else if ikm.isEmpty then .error .invalidArg
  else
    match platform.kdfDerive salt ikm info outLength with
    | none => .error .internal
    | some okm => .ok okm.bytes

def sessionKeyLen : Nat := 32

def sessionInfo : String := "udaf-psk-v1-session"

def macInfo : String := "udaf-psk-v1-mac"

def pskDeriveSessionKeys (psk salt : List β) : Except ErrorCode (DerivedKeys β) :=
  match hkdfSha256 platform salt psk sessionInfo sessionKeyLen with
  | .error code => .error code
  | .ok session =>
      match hkdfSha256 platform salt session macInfo sessionKeyLen with
      | .error code => .error code
      | .ok mac => .ok { encKey := session, macKey := mac }

def pskAeadEncrypt (key : List β) (nonce : Nonce β) (plaintext aad : List β) :
    Except ErrorCode (List β) × List (Sealing β) :=
  if key.length ≠ 32 then (.error .invalidArg, [])
  else
    match platform.gcmEncrypt key nonce aad (cInt aad.length) plaintext (cInt plaintext.length) with
    | none => (.error .internal, [⟨key, nonce, aad, plaintext⟩])
    | some (body, tag) => (.ok (body ++ tag.bytes), [⟨key, nonce, aad, plaintext⟩])

def pskAeadDecrypt (key : List β) (nonce : Nonce β) (ciphertext aad : List β) :
    Except ErrorCode (List β) :=
  if long : key.length ≠ 32 ∨ ciphertext.length < 16 then .error .invalidArg
  else
    let body := ciphertext.take (ciphertext.length - 16)
    let tag := Block.slice ciphertext (ciphertext.length - 16) 16 (by omega)
    match platform.gcmDecrypt key nonce aad (cInt aad.length) body (cInt body.length) tag with
    | none => .error .cryptoHmacMismatch
    | some plaintext => .ok plaintext

structure ClientDraws (β : Type) where
  clientRandom : Block β 32
  salt : Block β 32

structure ServerDraws (β : Type) where
  serverRandom : Block β 32
  salt : Block β 32
  nonce : Nonce β

def pskHandshakeClientNew (identity : List β) (draws : ClientDraws β) : AuthRequest β where
  clientRandom := draws.clientRandom.bytes
  salt := draws.salt.bytes
  identity := identity

def macData (clientRandom serverRandom nonce encryptedSessionKey : List β) : List β :=
  clientRandom ++ serverRandom ++ nonce ++ encryptedSessionKey

def pskHandshakeServerRespond (psk : List β) (request : AuthRequest β) (draws : ServerDraws β) :
    Except ErrorCode (AuthResponse β) × List (Sealing β) :=
  if psk.length ≠ 32 ∨ request.clientRandom.length ≠ 32 ∨ request.salt.length ≠ 32 then
    (.error .invalidArg, [])
  else
    match pskDeriveSessionKeys platform psk request.salt with
    | .error code => (.error code, [])
    | .ok keys =>
        match pskAeadEncrypt platform keys.encKey draws.nonce draws.serverRandom.bytes
            request.clientRandom with
        | (.error code, sealings) => (.error code, sealings)
        | (.ok encrypted, sealings) =>
            match hmacSha256 platform keys.macKey (macData request.clientRandom
                draws.serverRandom.bytes draws.nonce.bytes encrypted) with
            | .error code => (.error code, sealings)
            | .ok mac =>
                if size : mac.length = 32 then
                  (.ok {
                    serverRandom := draws.serverRandom.bytes
                    salt := draws.salt.bytes
                    encryptedSessionKey := encrypted
                    nonce := draws.nonce
                    mac := ⟨mac, size⟩ }, sealings)
                else (.error .internal, sealings)

def pskHandshakeClientFinalize [DecidableEq β] (psk : List β) (request : AuthRequest β)
    (response : AuthResponse β) : Except ErrorCode (DerivedKeys β) :=
  if psk.length ≠ 32 then .error .invalidArg
  else
    match pskDeriveSessionKeys platform psk request.salt with
    | .error code => .error code
    | .ok keys =>
        match hmacSha256Verify platform keys.macKey (macData request.clientRandom
            response.serverRandom response.nonce.bytes response.encryptedSessionKey)
            response.mac.bytes with
        | .error code => .error code
        | .ok () =>
            -- the decrypted session key is dropped
            match pskAeadDecrypt platform keys.encKey response.nonce
                response.encryptedSessionKey request.clientRandom with
            | .error code => .error code
            | .ok _ => .ok { encKey := keys.encKey, macKey := keys.macKey }

end Udaf
