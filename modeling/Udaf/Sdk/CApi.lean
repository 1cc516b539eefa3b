import Udaf.Lib.Buffer
import Udaf.Sdk.ClientRuns
import Udaf.Sdk.TrustListC

/-!
The C interface of `sdk/udaf_c.cpp` on one client. A null pointer is `none`, or `false` for the
pointers that the results go to; the client itself is there, and is not destroyed.
-/

namespace Udaf

open ByteString

/-- A text that C passes ends at its first NUL. -/
abbrev CString := { text : Bytes // 0 ∉ text }

def copyCstr : Option CString → Bytes
  | none => []
  | some text => text.1

inductive CError where
  | ok
  | invalidArg
  | internal
  | notFound
  | authUntrusted
  | resourceBusy
  | netTimeout
  | whitelist
  | config
  | notImplemented
  deriving DecidableEq, Repr

structure CConfig where
  nodeId : Option CString
  auditPath : Option CString

structure CNodeEntry where
  nodeId : TextPointer
  hostname : TextPointer
  bindAddress : TextPointer
  bindPort : UInt16
  serviceCount : UInt32

structure CHandle where
  site : ClientSite
  rep : ClientRep := {}
  nodeEntries : Buffer CNodeEntry := {}

inductive COp where
  | start
  | stop
  | discover (capabilityFilter : Option CString) (outEntries outCount : Bool)
  | registerNode (nodeId hostname bindAddress : Option CString) (bindPort : UInt16)
  | unregisterNode (nodeId : Option CString)
  | topologyNodeCount
  | trustAdd (nodeId fingerprintHex : Option CString) (capabilities : List (Option CString))
  | trustRemove (nodeId : Option CString)
  | trustList (outEntries outCount : Bool)
  | runRemote (nodeId command : Option CString) (args : List (Option CString)) (out : Bool)
  | pushFile (srcPath dstNode dstPath : Option CString) (out : Bool)
  | pullFile (srcNode srcPath dstPath : Option CString) (out : Bool)

/-- `nodes` has the storage that the entries returned stand in. -/
inductive CReply where
  | status (error : CError)
  | nodes (entries : Nat) (count : UInt32)
  | trusts (count : UInt32)
  | count (number : UInt32)
  | audited (sequence : UInt64)

namespace CHandle

section Digest

variable (sha512 : Bytes → Bytes)

def create (cfg : CConfig) (file : Option Bytes) (genesis : Genesis) (occasion : Occasion) :
    CHandle where
  site := (ClientSite.opened sha512
    { nodeId := copyCstr cfg.nodeId, auditPath := copyCstr cfg.auditPath } file genesis).start
    sha512 occasion

def addNode (handle : CHandle) (e : RegistryEntry) : CHandle :=
  let strBuf := ((handle.rep.strBuf.pushBack e.nodeId).pushBack e.hostname).pushBack e.bindAddress
  let size := strBuf.strings.length
  { handle with
    rep := { handle.rep with strBuf := strBuf }
    nodeEntries := handle.nodeEntries.pushBack {
      nodeId := .strBuf strBuf.storage (size - 3)
      hostname := .strBuf strBuf.storage (size - 2)
      bindAddress := .strBuf strBuf.storage (size - 1)
      bindPort := e.bindPort
      serviceCount := UInt32.ofNat e.services.length } }

def cleared (handle : CHandle) (count : Nat) : CHandle :=
  { handle with
    rep := { handle.rep with strBuf := handle.rep.strBuf.clear.reserve (count * 3) }
    nodeEntries := handle.nodeEntries.clear.reserve count }

/-- The filter goes to `Client::discover`, which does not look at it. -/
def discover (handle : CHandle) (_capabilityFilter : Option CString) (outEntries outCount : Bool) :
    CReply × CHandle :=
  if outEntries && outCount then
    let entries := handle.site.client.registry.snapshot
    let after := entries.foldl addNode (handle.cleared entries.length)
    (.nodes after.nodeEntries.storage (UInt32.ofNat after.nodeEntries.items.length), after)
  else (.status .invalidArg, handle)

def registerNode (handle : CHandle) (nodeId hostname bindAddress : Option CString)
    (bindPort : UInt16) : CReply × CHandle :=
  match nodeId, hostname, bindAddress with
  | some nodeId, some hostname, some bindAddress =>
      let (result, site) := handle.site.registerNode nodeId.1 hostname.1 bindAddress.1 bindPort
      (.status (if result.isOk then .ok else .internal), { handle with site := site })
  | _, _, _ => (.status .invalidArg, handle)

def unregisterNode (handle : CHandle) (nodeId : Option CString) : CReply × CHandle :=
  match nodeId with
  | none => (.status .invalidArg, handle)
  | some nodeId =>
      let (result, site) := handle.site.unregisterNode nodeId.1
      let error := match result with
        | .ok true => .ok
        | _ => .notFound
      (.status error, { handle with site := site })

def topologyNodeCount (handle : CHandle) : CReply × CHandle :=
  (.count (UInt32.ofNat handle.site.client.registry.snapshot.length), handle)

def trustAdd (handle : CHandle) (occasion : Occasion) (nodeId fingerprintHex : Option CString)
    (capabilities : List (Option CString)) : CReply × CHandle :=
  match nodeId, fingerprintHex with
  | some nodeId, some fingerprintHex =>
      let (result, site) := handle.site.trustAdd sha512 occasion nodeId.1 fingerprintHex.1
        (capabilities.map copyCstr)
      let error := match result with
        | .ok _ => .ok
        | .error .invalidArg => .whitelist
        | .error _ => .internal
      (.status error, { handle with site := site })
  | _, _ => (.status .invalidArg, handle)

def trustRemove (handle : CHandle) (occasion : Occasion) (nodeId : Option CString) :
    CReply × CHandle :=
  match nodeId with
  | none => (.status .invalidArg, handle)
  | some nodeId =>
      let (result, site) := handle.site.trustRemove sha512 occasion nodeId.1
      (.status (if result.isOk then .ok else .notFound), { handle with site := site })

def trustList (handle : CHandle) (outEntries outCount : Bool) : CReply × CHandle :=
  if outEntries && outCount then
    let (count, rep) := handle.rep.trustList handle.site
    (.trusts count, { handle with rep := rep })
  else (.status .invalidArg, handle)

def runRemote (handle : CHandle) (occasion : Occasion) (nodeId command : Option CString)
    (args : List (Option CString)) (out : Bool) : CReply × CHandle :=
  match nodeId, command, out with
  | some nodeId, some command, true =>
      let (result, site) := handle.site.runRemote sha512 occasion nodeId.1 command.1
        (args.map copyCstr)
      let reply := match result with
        | .ok sequence => .audited sequence
        | .error .bizAuthUntrusted => .status .whitelist
        | .error .invalidArg => .status .invalidArg
        | .error .nodeNotFound => .status .notFound
        | .error _ => .status .internal
      (reply, { handle with site := site })
  | _, _, _ => (.status .invalidArg, handle)

/-- The reply of a transfer: every refusal but that of the whitelist is the caller's fault. -/
def transferReply : Except ErrorCode UInt64 → CReply
  | .ok sequence => .audited sequence
  | .error .bizAuthUntrusted => .status .whitelist
  | .error _ => .status .invalidArg

def pushFile (handle : CHandle) (occasion : Occasion) (srcPath dstNode dstPath : Option CString)
    (out : Bool) : CReply × CHandle :=
  match srcPath, dstNode, dstPath, out with
  | some srcPath, some dstNode, some dstPath, true =>
      let (result, site) := handle.site.pushFile sha512 occasion srcPath.1 dstNode.1 dstPath.1
      (transferReply result, { handle with site := site })
  | _, _, _, _ => (.status .invalidArg, handle)

def pullFile (handle : CHandle) (occasion : Occasion) (srcNode srcPath dstPath : Option CString)
    (out : Bool) : CReply × CHandle :=
  match srcNode, srcPath, dstPath, out with
  | some srcNode, some srcPath, some dstPath, true =>
      let (result, site) := handle.site.pullFile sha512 occasion srcNode.1 srcPath.1 dstPath.1
      (transferReply result, { handle with site := site })
  | _, _, _, _ => (.status .invalidArg, handle)

def exec (handle : CHandle) (occasion : Occasion) : COp → CReply × CHandle
  | .start => (.status .ok, { handle with site := handle.site.start sha512 occasion })
  | .stop => (.status .ok, { handle with site := handle.site.stop sha512 occasion })
  | .discover capabilityFilter outEntries outCount =>
      handle.discover capabilityFilter outEntries outCount
  | .registerNode nodeId hostname bindAddress bindPort =>
      handle.registerNode nodeId hostname bindAddress bindPort
  | .unregisterNode nodeId => handle.unregisterNode nodeId
  | .topologyNodeCount => handle.topologyNodeCount
  | .trustAdd nodeId fingerprintHex capabilities =>
      handle.trustAdd sha512 occasion nodeId fingerprintHex capabilities
  | .trustRemove nodeId => handle.trustRemove sha512 occasion nodeId
  | .trustList outEntries outCount => handle.trustList outEntries outCount
  | .runRemote nodeId command args out => handle.runRemote sha512 occasion nodeId command args out
  | .pushFile srcPath dstNode dstPath out =>
      handle.pushFile sha512 occasion srcPath dstNode dstPath out
  | .pullFile srcNode srcPath dstPath out =>
      handle.pullFile sha512 occasion srcNode srcPath dstPath out

end Digest

end CHandle

end Udaf
