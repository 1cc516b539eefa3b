import Udaf.Crypto.Psk

/-!
`crypto/psk_authenticator.cpp`: the two wire formats, and `PskAuthenticator` with
its calls. What a call draws at random, and what lies in memory where the code reads
bytes it did not write, is passed in.
-/

namespace Udaf

open ByteString

variable {β : Type} (platform : Platform β)

def serializeRequest (request : AuthRequest β) : List β :=
  request.clientRandom ++ request.salt ++ [platform.byte (UInt8.ofNat request.identity.length)] ++
    request.identity

def deserializeRequest (buf : List β) : AuthRequest β :=
  if short : buf.length < 65 then {}
  else
    let idLen := (platform.value buf[64]).toNat
    if buf.length < 65 + idLen then {}
    else {
      clientRandom := buf.take 32
      salt := (buf.drop 32).take 32
      identity := (buf.drop 65).take idLen }

def serializeResponse (response : AuthResponse β) : List β :=
  response.serverRandom ++ response.salt ++ response.nonce.bytes ++ response.mac.bytes ++
    (leBytes 4 response.encryptedSessionKey.length).map platform.byte ++
    response.encryptedSessionKey

/-- Memory that the parser of a response may read without having written it: the arrays of a
response that is left as constructed, and what lies behind the message. -/
structure Residue (β : Type) where
  nonce : Nonce β
  mac : Mac β
  behind : List β := []

def deserializeResponse (residue : Residue β) (buf : List β) : AuthResponse β :=
  if short : buf.length < 112 then { nonce := residue.nonce, mac := residue.mac }
  else
    let nonce := Block.slice buf 64 12 (by omega)
    let mac := Block.slice buf 76 32 (by omega)
    let len := leNat (((buf.drop 108).take 4).map platform.value)
    -- the sum is a `uint32_t`, and wraps
    if buf.length < (112 + len) % 2 ^ 32 then { nonce := nonce, mac := mac }
    else {
      serverRandom := buf.take 32
      salt := (buf.drop 32).take 32
      encryptedSessionKey := ((buf ++ residue.behind).drop 112).take len
      nonce := nonce
      mac := mac }

structure PskAuthenticator (β : Type) where
  psk : List β
  identity : List β := []
  clientRequest : AuthRequest β := {}
  serverResponse : AuthResponse β
  keys : DerivedKeys β := {}
  isClient : Bool
  done : Bool := false
  deriving DecidableEq

structure Surroundings (β : Type) where
  clientDraws : ClientDraws β
  serverDraws : ServerDraws β
  residue : Residue β

structure AuthOutcome (β : Type) where
  result : Except ErrorCode (List β)
  after : PskAuthenticator β
  sealings : List (Sealing β) := []

def zeroNonce : Nonce β := Block.fill 12 (platform.byte 0)

namespace PskAuthenticator

def createClient (psk identity : List β) : PskAuthenticator β where
  psk := psk
  identity := identity
  serverResponse := { nonce := zeroNonce platform, mac := Block.fill 32 (platform.byte 0) }
  isClient := true

def createServer (psk : List β) : PskAuthenticator β where
  psk := psk
  serverResponse := { nonce := zeroNonce platform, mac := Block.fill 32 (platform.byte 0) }
  isClient := false

def isHandshakeDone (auth : PskAuthenticator β) : Bool := auth.done

def sessionKeys (auth : PskAuthenticator β) : Except ErrorCode (DerivedKeys β) :=
  if auth.done then .ok auth.keys else .error .notImplemented

def beginHandshake (auth : PskAuthenticator β) (draws : ClientDraws β) : AuthOutcome β :=
  if auth.isClient then
    let request := pskHandshakeClientNew auth.identity draws
    { result := .ok (serializeRequest platform request)
      after := { auth with clientRequest := request } }
  else { result := .error .invalidArg, after := auth }

def processResponse [DecidableEq β] (auth : PskAuthenticator β) (residue : Residue β)
    (peerMsg : List β) : AuthOutcome β :=
  let response := deserializeResponse platform residue peerMsg
  let received := { auth with serverResponse := response }
  match pskHandshakeClientFinalize platform auth.psk auth.clientRequest response with
  | .error code => { result := .error code, after := received }
  | .ok keys => { result := .ok [], after := { received with keys := keys, done := true } }

def processRequest (auth : PskAuthenticator β) (draws : ServerDraws β) (peerMsg : List β) :
    AuthOutcome β :=
  let request := deserializeRequest platform peerMsg
  if request.clientRandom.isEmpty then { result := .error .protocolInvalidMsgType, after := auth }
  else
    match pskHandshakeServerRespond platform auth.psk request draws with
    | (.error code, sealings) => { result := .error code, after := auth, sealings := sealings }
    | (.ok response, sealings) =>
        let answered := { auth with serverResponse := response }
        match pskDeriveSessionKeys platform auth.psk request.salt with
        | .error code => { result := .error code, after := answered, sealings := sealings }
        | .ok keys =>
            { result := .ok (serializeResponse platform response)
              after := { answered with keys := keys, done := true }
              sealings := sealings }

def processHandshake [DecidableEq β] (auth : PskAuthenticator β) (surroundings : Surroundings β)
    (peerMsg : List β) : AuthOutcome β :=
  if auth.isClient then auth.processResponse platform surroundings.residue peerMsg
  else auth.processRequest platform surroundings.serverDraws peerMsg

def encrypt (auth : PskAuthenticator β) (plaintext : List β) : AuthOutcome β :=
  if auth.done then
    match pskAeadEncrypt platform auth.keys.encKey (zeroNonce platform) plaintext [] with
    | (.error code, sealings) => { result := .error code, after := auth, sealings := sealings }
    | (.ok enc, sealings) =>
        { result := .ok ((zeroNonce platform).bytes ++ enc), after := auth, sealings := sealings }
  else { result := .error .notImplemented, after := auth }

def decrypt (auth : PskAuthenticator β) (ciphertext : List β) : AuthOutcome β :=
  if auth.done then
    if short : ciphertext.length < 12 then { result := .error .invalidArg, after := auth }
    else
      { result := pskAeadDecrypt platform auth.keys.encKey
          (Block.slice ciphertext 0 12 (by omega)) (ciphertext.drop 12) []
        after := auth }
  else { result := .error .notImplemented, after := auth }

end PskAuthenticator

inductive Call (β : Type) where
  | beginHandshake
  | processHandshake (peerMsg : List β)
  | encrypt (plaintext : List β)
  | decrypt (ciphertext : List β)
  deriving DecidableEq

def PskAuthenticator.perform [DecidableEq β] (auth : PskAuthenticator β)
    (surroundings : Surroundings β) : Call β → AuthOutcome β
  | .beginHandshake => auth.beginHandshake platform surroundings.clientDraws
  | .processHandshake peerMsg => auth.processHandshake platform surroundings peerMsg
  | .encrypt plaintext => auth.encrypt platform plaintext
  | .decrypt ciphertext => auth.decrypt platform ciphertext

/-- The output of a call goes over the network, apart from a decrypted text. -/
def Call.published (result : Except ErrorCode (List β)) : Call β → List (List β)
  | .decrypt _ => []
  | _ => match result with
    | .ok message => [message]
    | .error _ => []

@[simp] theorem published_beginHandshake (message : List β) :
    Call.published (.ok message) .beginHandshake = [message] := rfl

@[simp] theorem published_processHandshake (message peerMsg : List β) :
    Call.published (.ok message) (.processHandshake peerMsg) = [message] := rfl

@[simp] theorem published_encrypt (message plaintext : List β) :
    Call.published (.ok message) (.encrypt plaintext) = [message] := rfl

@[simp] theorem published_decrypt (result : Except ErrorCode (List β)) (ciphertext : List β) :
    Call.published result (.decrypt ciphertext) = [] := rfl

/-- The input of a call comes from the network, apart from a text to encrypt. -/
def Call.fromNetwork : Call β → List β
  | .beginHandshake => []
  | .processHandshake peerMsg => peerMsg
  | .encrypt _ => []
  | .decrypt ciphertext => ciphertext

end Udaf
