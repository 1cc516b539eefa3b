import Udaf.AbilityA.PeerWhitelist
import Udaf.AbilityA.ServiceRegistry
import Udaf.Audit.Core

/-!
The client of `sdk/sdk/sdk.cpp`: a registry nobody subscribes to, a whitelist and, with an
audit path, a logger. The file at that path goes with the client from call to call.
-/

namespace Udaf

open ByteString Hex OutStream

structure ClientConfig where
  nodeId : Bytes
  auditPath : Bytes := []
  deriving DecidableEq

structure Client where
  cfg : ClientConfig
  registry : ServiceRegistry Empty := {}
  auditLogger : Option AuditLogger := none
  whitelist : PeerWhitelist := .empty

structure TrustEntry where
  nodeId : Bytes
  fingerprintSha256Hex : Bytes
  capabilities : List Bytes
  deriving DecidableEq

/-- The clock and the file system, as the append of one call meets them. -/
structure Occasion where
  now : Int64 := 0
  attempt : Attempt := {}
  deriving DecidableEq

structure ClientSite where
  client : Client
  file : Option Bytes

def pushFileJson (src dstNode dstPath : Bytes) : Bytes :=
  ascii "\x7b\"src\":\"" ++ src ++ ascii "\",\"dst_node\":\"" ++ dstNode ++
    ascii "\",\"dst_path\":\"" ++ dstPath ++ ascii "\"\x7d"

def pullFileJson (srcNode srcPath dst : Bytes) : Bytes :=
  ascii "\x7b\"src_node\":\"" ++ srcNode ++ ascii "\",\"src_path\":\"" ++ srcPath ++
    ascii "\",\"dst\":\"" ++ dst ++ ascii "\"\x7d"

def runRemoteJson (command : Bytes) (args : List Bytes) : Bytes :=
  ascii "\x7b\"cmd\":\"" ++ command ++ ascii "\",\"args\":[" ++
    (ascii ",").intercalate (args.map fun arg => ascii "\"" ++ arg ++ ascii "\"") ++ ascii "]\x7d"

def pskRotateJson (newPskPath : Bytes) : Bytes :=
  ascii "\x7b\"new_psk_path\":\"" ++ newPskPath ++ ascii "\"\x7d"

def migrateJson (srcPath dstPath : Bytes) : Bytes :=
  ascii "\x7b\"src\":\"" ++ srcPath ++ ascii "\",\"dst\":\"" ++ dstPath ++ ascii "\"\x7d"

def startJson : Bytes := ascii "\x7b\"event\":\"start\"\x7d"

def stopJson : Bytes := ascii "\x7b\"event\":\"stop\"\x7d"

namespace ClientSite

section Digest

variable (sha512 : Bytes → Bytes)

def opened (cfg : ClientConfig) (file : Option Bytes) (genesis : Genesis) : ClientSite :=
  if cfg.auditPath.isEmpty then ⟨{ cfg := cfg }, file⟩
  else
    let (logger, file) := AuditLogger.construct sha512 file genesis
    ⟨{ cfg := cfg, auditLogger := some logger }, file⟩

def audit (site : ClientSite) (occasion : Occasion) (action : ActionType)
    (target paramsJson : Bytes) : Except ErrorCode UInt64 × ClientSite :=
  match site.client.auditLogger with
  | none => (.error .internal, site)
  | some logger =>
      let (result, logger, file) := logger.append sha512 site.file action site.client.cfg.nodeId
        target paramsJson occasion.now occasion.attempt
      (result, ⟨{ site.client with auditLogger := some logger }, file⟩)

/-- The outcome of the record is ignored, here and in `stop`. -/
def start (site : ClientSite) (occasion : Occasion) : ClientSite :=
  if site.client.auditLogger.isSome then
    (site.audit sha512 occasion .nodeRegister (ascii "client") startJson).2
  else site

def stop (site : ClientSite) (occasion : Occasion) : ClientSite :=
  if site.client.auditLogger.isSome then
    (site.audit sha512 occasion .nodeUnregister (ascii "client") stopJson).2
  else site

def checked (site : ClientSite) (occasion : Occasion) (checks : List (Bool × ErrorCode))
    (action : ActionType) (target paramsJson : Bytes) : Except ErrorCode UInt64 × ClientSite :=
  match checks.find? fun check => check.1 with
  | some (_, code) => (.error code, site)
  | none => site.audit sha512 occasion action target paramsJson

def pushFile (site : ClientSite) (occasion : Occasion) (src dstNode dstPath : Bytes) :
    Except ErrorCode UInt64 × ClientSite :=
  site.checked sha512 occasion
    [(site.client.auditLogger.isNone, .internal),
      (src.isEmpty || dstNode.isEmpty || dstPath.isEmpty, .invalidArg),
      (!site.client.whitelist.contains dstNode, .bizAuthUntrusted)]
    .fileTransfer dstNode (pushFileJson src dstNode dstPath)

def pullFile (site : ClientSite) (occasion : Occasion) (srcNode srcPath dst : Bytes) :
    Except ErrorCode UInt64 × ClientSite :=
  site.checked sha512 occasion
    [(site.client.auditLogger.isNone, .internal),
      (!site.client.whitelist.contains srcNode, .bizAuthUntrusted)]
    .fileTransfer srcNode (pullFileJson srcNode srcPath dst)

def runRemote (site : ClientSite) (occasion : Occasion) (nodeId command : Bytes)
    (args : List Bytes) : Except ErrorCode UInt64 × ClientSite :=
  site.checked sha512 occasion
    [(!site.client.whitelist.contains nodeId, .bizAuthUntrusted),
      (command.isEmpty, .invalidArg),
      (site.client.auditLogger.isNone, .internal)]
    .cmdExec nodeId (runRemoteJson command args)

def pskRotate (site : ClientSite) (occasion : Occasion) (newPskPath : Bytes) :
    Except ErrorCode UInt64 × ClientSite :=
  site.checked sha512 occasion
    [(site.client.auditLogger.isNone, .internal), (newPskPath.isEmpty, .invalidArg)]
    .credentialRotate (ascii "self") (pskRotateJson newPskPath)

def authPsk (site : ClientSite) (occasion : Occasion) (nodeId : Bytes) :
    Except ErrorCode UInt64 × ClientSite :=
  site.checked sha512 occasion
    [(site.client.auditLogger.isNone, .internal),
      (!site.client.whitelist.contains nodeId, .bizAuthUntrusted)]
    .pskHandshake nodeId (ascii "\x7b\"mode\":\"psk\"\x7d")

def migrate (site : ClientSite) (occasion : Occasion) (srcPath dstPath : Bytes) :
    Except ErrorCode UInt64 × ClientSite :=
  site.checked sha512 occasion
    [(site.client.auditLogger.isNone, .internal),
      (srcPath.isEmpty || dstPath.isEmpty, .invalidArg)]
    .auditExport (ascii "self") (migrateJson srcPath dstPath)

def auditTrust (site : ClientSite) (occasion : Occasion) (nodeId paramsJson : Bytes) : ClientSite :=
  if site.client.auditLogger.isSome then
    (site.audit sha512 occasion .whitelistUpdate nodeId paramsJson).2
  else site

def withWhitelist (site : ClientSite) (whitelist : PeerWhitelist) : ClientSite :=
  { site with client := { site.client with whitelist := whitelist } }

def trustAdd (site : ClientSite) (occasion : Occasion) (nodeId fingerprintHex : Bytes)
    (capabilities : List Bytes) : Except ErrorCode Bool × ClientSite :=
  if fingerprintHex.length ≠ 64 then (.error .invalidArg, site)
  else
    match unhex fingerprintHex with
    | none => (.error .invalidArg, site)
    | some fingerprintSha256 =>
        let (result, whitelist) := site.client.whitelist.add {
          nodeId := nodeId
          fingerprintSha256 := fingerprintSha256
          allowedCapabilities := Table.ofKeys capabilities }
        let changed := site.withWhitelist whitelist
        if result.isOk then
          (result, changed.auditTrust sha512 occasion nodeId (ascii "\x7b\"event\":\"add\"\x7d"))
        else (result, changed)

def trustRemove (site : ClientSite) (occasion : Occasion) (nodeId : Bytes) :
    Except ErrorCode Bool × ClientSite :=
  let (result, whitelist) := site.client.whitelist.remove nodeId
  let changed := site.withWhitelist whitelist
  match result with
  | .error code => (.error code, changed)
  | .ok false => (.error .nodeNotFound, changed)
  | .ok true =>
      (.ok true, changed.auditTrust sha512 occasion nodeId (ascii "\x7b\"event\":\"remove\"\x7d"))

end Digest

def sequence (site : ClientSite) : UInt64 :=
  match site.client.auditLogger with
  | none => 0
  | some logger => logger.sequence

def registerNode (site : ClientSite) (nodeId hostname bindAddr : Bytes) (bindPort : UInt16) :
    Except ErrorCode Bool × ClientSite :=
  let (result, registry) := site.client.registry.registerNode {
    nodeId := nodeId
    hostname := hostname
    bindAddress := bindAddr
    bindPort := bindPort }
  (result, { site with client := { site.client with registry := registry } })

def unregisterNode (site : ClientSite) (nodeId : Bytes) : Except ErrorCode Bool × ClientSite :=
  let (removed, registry) := site.client.registry.unregisterNode nodeId
  (.ok removed.isSome, { site with client := { site.client with registry := registry } })

def trustList (site : ClientSite) : List TrustEntry :=
  site.client.whitelist.snapshot.map fun entry =>
    { nodeId := entry.nodeId
      fingerprintSha256Hex := hexOf entry.fingerprintSha256
      capabilities := entry.allowedCapabilities.keys }

end ClientSite

end Udaf
