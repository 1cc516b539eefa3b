import Udaf.Lib.Run
import Udaf.Sdk.Client

/-!
Runs of a client, and what one call can do to it: it fails and leaves the client as it was,
it writes a record, or it changes the whitelist or the registry.
-/

namespace Udaf

open ByteString Hex OutStream Runs

inductive ClientOp where
  | trustAdd (nodeId fingerprintHex : Bytes) (capabilities : List Bytes)
  | trustRemove (nodeId : Bytes)
  | pushFile (src dstNode dstPath : Bytes)
  | pullFile (srcNode srcPath dst : Bytes)
  | runRemote (nodeId command : Bytes) (args : List Bytes)
  | authPsk (nodeId : Bytes)
  | pskRotate (newPskPath : Bytes)
  | migrate (srcPath dstPath : Bytes)
  | audit (action : ActionType) (target paramsJson : Bytes)
  | registerNode (nodeId hostname bindAddr : Bytes) (bindPort : UInt16)
  | unregisterNode (nodeId : Bytes)
  deriving DecidableEq

def ClientOp.peer : ClientOp → Option Bytes
  | pushFile _ dstNode _ => some dstNode
  | pullFile srcNode _ _ => some srcNode
  | runRemote nodeId _ _ => some nodeId
  | authPsk nodeId => some nodeId
  | _ => none

inductive ClientReply where
  | audited (result : Except ErrorCode UInt64)
  | changed (result : Except ErrorCode Bool)

def ClientReply.isOk : ClientReply → Bool
  | audited result => result.isOk
  | changed result => result.isOk

def ClientReply.sequence : ClientReply → Option UInt64
  | audited (.ok sequence) => some sequence
  | _ => none

structure ClientCall where
  op : ClientOp
  occasion : Occasion
  reply : ClientReply

namespace ClientCall

def Adds (call : ClientCall) (nodeId : Bytes) : Prop :=
  ∃ fingerprintHex capabilities, call.op = .trustAdd nodeId fingerprintHex capabilities ∧
    call.reply.isOk = true

def Removes (call : ClientCall) (nodeId : Bytes) : Prop :=
  call.op = .trustRemove nodeId ∧ call.reply.isOk = true

def records (call : ClientCall) : Bool :=
  match call.op, call.reply with
  | _, .audited result => result.isOk
  | .trustAdd _ _ _, .changed result => result.isOk
  | .trustRemove _, .changed result => result.isOk
  | _, .changed _ => false

end ClientCall

namespace ClientSite

def exec (sha512 : Bytes → Bytes) (site : ClientSite) (occasion : Occasion) :
    ClientOp → ClientReply × ClientSite
  | .trustAdd nodeId fingerprintHex capabilities =>
      (site.trustAdd sha512 occasion nodeId fingerprintHex capabilities).map .changed id
  | .trustRemove nodeId => (site.trustRemove sha512 occasion nodeId).map .changed id
  | .pushFile src dstNode dstPath =>
      (site.pushFile sha512 occasion src dstNode dstPath).map .audited id
  | .pullFile srcNode srcPath dst =>
      (site.pullFile sha512 occasion srcNode srcPath dst).map .audited id
  | .runRemote nodeId command args =>
      (site.runRemote sha512 occasion nodeId command args).map .audited id
  | .authPsk nodeId => (site.authPsk sha512 occasion nodeId).map .audited id
  | .pskRotate newPskPath => (site.pskRotate sha512 occasion newPskPath).map .audited id
  | .migrate srcPath dstPath => (site.migrate sha512 occasion srcPath dstPath).map .audited id
  | .audit action target paramsJson =>
      (site.audit sha512 occasion action target paramsJson).map .audited id
  | .registerNode nodeId hostname bindAddr bindPort =>
      (site.registerNode nodeId hostname bindAddr bindPort).map .changed id
  | .unregisterNode nodeId => (site.unregisterNode nodeId).map .changed id

end ClientSite

def ClientStep (sha512 : Bytes → Bytes) (site : ClientSite) (call : ClientCall)
    (next : ClientSite) : Prop :=
  site.exec sha512 call.occasion call.op = (call.reply, next)

def ClientSite.SameTables (site next : ClientSite) : Prop :=
  next.client.whitelist = site.client.whitelist ∧ next.client.registry = site.client.registry

inductive Recorded (site : ClientSite) : Except ErrorCode UInt64 → ClientSite → Prop where
  | refused {code : ErrorCode} {next : ClientSite} :
      site.SameTables next → next.sequence = site.sequence → Recorded site (.error code) next
  | written {sequence : UInt64} {next : ClientSite} :
      site.SameTables next → sequence = site.sequence + 1 → next.sequence = sequence →
        Recorded site (.ok sequence) next

def ClientSite.Advanced (site next : ClientSite) : Prop :=
  next.sequence = site.sequence ∨ next.sequence = site.sequence + 1

inductive ClientEffect (site : ClientSite) : ClientOp → ClientReply → ClientSite → Prop where
  | refused {op : ClientOp} {reply : ClientReply} {next : ClientSite} :
      reply.isOk = false → site.SameTables next → next.sequence = site.sequence →
        ClientEffect site op reply next
  | recorded {op : ClientOp} {sequence : UInt64} {next : ClientSite} :
      (∀ nodeId fingerprintHex capabilities, op ≠ .trustAdd nodeId fingerprintHex capabilities) →
      (∀ nodeId, op ≠ .trustRemove nodeId) →
      (∀ nodeId, op.peer = some nodeId → site.client.whitelist.contains nodeId = true) →
      site.SameTables next → sequence = site.sequence + 1 → next.sequence = sequence →
        ClientEffect site op (.audited (.ok sequence)) next
  | added {nodeId fingerprintHex fingerprintSha256 : Bytes} {capabilities : List Bytes}
      {isNew : Bool} {next : ClientSite} :
      hexOf fingerprintSha256 = fingerprintHex.map lower →
      (∀ other, next.client.whitelist.entries.lookup other =
        if other = nodeId then some ⟨nodeId, fingerprintSha256, Table.ofKeys capabilities⟩
        else site.client.whitelist.entries.lookup other) →
      next.client.registry = site.client.registry → site.Advanced next →
        ClientEffect site (.trustAdd nodeId fingerprintHex capabilities) (.changed (.ok isNew)) next
  | removed {nodeId : Bytes} {next : ClientSite} :
      (∀ other, next.client.whitelist.entries.lookup other =
        if other = nodeId then none else site.client.whitelist.entries.lookup other) →
      next.client.registry = site.client.registry → site.Advanced next →
        ClientEffect site (.trustRemove nodeId) (.changed (.ok true)) next
  | registered {nodeId hostname bindAddr : Bytes} {bindPort : UInt16} {isNew : Bool}
      {next : ClientSite} :
      next.client.whitelist = site.client.whitelist → next.sequence = site.sequence →
        ClientEffect site (.registerNode nodeId hostname bindAddr bindPort) (.changed (.ok isNew)) next
  | unregistered {nodeId : Bytes} {removed : Bool} {next : ClientSite} :
      next.client.whitelist = site.client.whitelist → next.sequence = site.sequence →
        ClientEffect site (.unregisterNode nodeId) (.changed (.ok removed)) next

section Effect

variable {sha512 : Bytes → Bytes} {site next : ClientSite} {occasion : Occasion}

theorem audit_recorded (site : ClientSite) (occasion : Occasion) (action : ActionType)
    (target paramsJson : Bytes) :
    Recorded site (site.audit sha512 occasion action target paramsJson).1
      (site.audit sha512 occasion action target paramsJson).2 := by
  obtain ⟨⟨cfg, registry, auditLogger, whitelist⟩, file⟩ := site
  cases auditLogger with
  | none => exact .refused ⟨rfl, rfl⟩ rfl
  | some logger =>
      have back : logger.seq + 1 - 1 = logger.seq := by grind
      simp only [ClientSite.audit, AuditLogger.append]
      split_ifs with opens good
      · exact .written ⟨rfl, rfl⟩ rfl rfl
      · exact .refused ⟨rfl, rfl⟩ back
      · exact .refused ⟨rfl, rfl⟩ rfl

theorem Recorded.advanced {result : Except ErrorCode UInt64} (recorded : Recorded site result next) :
    site.SameTables next ∧ site.Advanced next := by
  cases recorded with
  | refused same sequence => exact ⟨same, .inl sequence⟩
  | written same following current => exact ⟨same, .inr (current.trans following)⟩

theorem Recorded.effect {result : Except ErrorCode UInt64} {op : ClientOp}
    (recorded : Recorded site result next)
    (noAdd : ∀ nodeId fingerprintHex capabilities, op ≠ .trustAdd nodeId fingerprintHex capabilities)
    (noRemove : ∀ nodeId, op ≠ .trustRemove nodeId)
    (trusted : ∀ nodeId, op.peer = some nodeId → site.client.whitelist.contains nodeId = true) :
    ClientEffect site op (.audited result) next := by
  cases recorded with
  | refused same sequence => exact .refused rfl same sequence
  | written same following current =>
      exact .recorded noAdd noRemove trusted same following current

theorem auditTrust_advanced (site : ClientSite) (occasion : Occasion) (nodeId paramsJson : Bytes) :
    site.SameTables (site.auditTrust sha512 occasion nodeId paramsJson) ∧
      site.Advanced (site.auditTrust sha512 occasion nodeId paramsJson) := by
  rw [ClientSite.auditTrust]
  split_ifs with audited
  · exact (audit_recorded site occasion .whitelistUpdate nodeId paramsJson).advanced
  · exact ⟨⟨rfl, rfl⟩, .inl rfl⟩

theorem checked_effect {op : ClientOp} {checks : List (Bool × ErrorCode)} {action : ActionType}
    {target paramsJson : Bytes}
    (noAdd : ∀ nodeId fingerprintHex capabilities, op ≠ .trustAdd nodeId fingerprintHex capabilities)
    (noRemove : ∀ nodeId, op ≠ .trustRemove nodeId)
    (asked : ∀ nodeId, op.peer = some nodeId →
      (!site.client.whitelist.contains nodeId, .bizAuthUntrusted) ∈ checks) :
    ClientEffect site op (.audited (site.checked sha512 occasion checks action target paramsJson).1)
      (site.checked sha512 occasion checks action target paramsJson).2 := by
  rw [ClientSite.checked]
  cases failed : checks.find? fun check => check.1 with
  | some check => exact .refused rfl ⟨rfl, rfl⟩ rfl
  | none =>
      refine (audit_recorded site occasion action target paramsJson).effect noAdd noRemove ?_
      intro nodeId needed
      simpa using List.find?_eq_none.mp failed _ (asked nodeId needed)

theorem trustAdd_effect (nodeId fingerprintHex : Bytes) (capabilities : List Bytes) :
    ClientEffect site (.trustAdd nodeId fingerprintHex capabilities)
      (.changed (site.trustAdd sha512 occasion nodeId fingerprintHex capabilities).1)
      (site.trustAdd sha512 occasion nodeId fingerprintHex capabilities).2 := by
  rw [ClientSite.trustAdd]
  split_ifs with length
  · exact .refused rfl ⟨rfl, rfl⟩ rfl
  · cases read : unhex fingerprintHex with
    | none => exact .refused rfl ⟨rfl, rfl⟩ rfl
    | some fingerprintSha256 =>
        obtain ⟨printed, -⟩ := hexOf_unhex (by omega) read
        by_cases valid : WhitelistEntry.Valid ⟨nodeId, fingerprintSha256, Table.ofKeys capabilities⟩
        · simp only [PeerWhitelist.add_valid valid, Except.isOk, Except.toBool, if_true]
          obtain ⟨⟨whitelist, registry⟩, advanced⟩ := @auditTrust_advanced sha512
            (site.withWhitelist (site.client.whitelist.put _ valid)) occasion nodeId
            (ascii "\x7b\"event\":\"add\"\x7d")
          refine .added printed ?_ registry advanced
          intro other
          rw [whitelist]
          exact Table.lookup_set _ _ _ _
        · simp only [PeerWhitelist.add_invalid valid, Except.isOk, Except.toBool]
          exact .refused rfl ⟨rfl, rfl⟩ rfl

theorem trustRemove_effect (nodeId : Bytes) :
    ClientEffect site (.trustRemove nodeId)
      (.changed (site.trustRemove sha512 occasion nodeId).1)
      (site.trustRemove sha512 occasion nodeId).2 := by
  simp only [ClientSite.trustRemove, PeerWhitelist.remove]
  cases found : site.client.whitelist.entries.lookup nodeId with
  | none => exact .refused rfl ⟨PeerWhitelist.erase_absent found, rfl⟩ rfl
  | some entry =>
      obtain ⟨⟨whitelist, registry⟩, advanced⟩ := @auditTrust_advanced sha512
        (site.withWhitelist (site.client.whitelist.erase nodeId)) occasion nodeId
        (ascii "\x7b\"event\":\"remove\"\x7d")
      simp only [Option.isSome_some]
      refine .removed ?_ registry advanced
      intro other
      rw [whitelist]
      exact Table.lookup_remove _ _ _

theorem registerNode_effect (nodeId hostname bindAddr : Bytes) (bindPort : UInt16) :
    ClientEffect site (.registerNode nodeId hostname bindAddr bindPort)
      (.changed (site.registerNode nodeId hostname bindAddr bindPort).1)
      (site.registerNode nodeId hostname bindAddr bindPort).2 := by
  simp only [ClientSite.registerNode, ServiceRegistry.registerNode]
  split_ifs with blank
  · exact .refused rfl ⟨rfl, rfl⟩ rfl
  · exact .registered rfl rfl

theorem exec_effect (op : ClientOp) :
    ClientEffect site op (site.exec sha512 occasion op).1 (site.exec sha512 occasion op).2 := by
  cases op with
  | trustAdd nodeId fingerprintHex capabilities => exact trustAdd_effect _ _ _
  | trustRemove nodeId => exact trustRemove_effect _
  | pushFile src dstNode dstPath => exact checked_effect (by simp) (by simp) (by simp [ClientOp.peer])
  | pullFile srcNode srcPath dst => exact checked_effect (by simp) (by simp) (by simp [ClientOp.peer])
  | runRemote nodeId command args => exact checked_effect (by simp) (by simp) (by simp [ClientOp.peer])
  | authPsk nodeId => exact checked_effect (by simp) (by simp) (by simp [ClientOp.peer])
  | pskRotate newPskPath => exact checked_effect (by simp) (by simp) (by simp [ClientOp.peer])
  | migrate srcPath dstPath => exact checked_effect (by simp) (by simp) (by simp [ClientOp.peer])
  | audit action target paramsJson =>
      exact (audit_recorded site occasion action target paramsJson).effect (by simp) (by simp)
        (by simp [ClientOp.peer])
  | registerNode nodeId hostname bindAddr bindPort => exact registerNode_effect _ _ _ _
  | unregisterNode nodeId => exact .unregistered rfl rfl

theorem ClientStep.effect {call : ClientCall} (step : ClientStep sha512 site call next) :
    ClientEffect site call.op call.reply next := by
  have effect := @exec_effect sha512 site call.occasion call.op
  rw [step] at effect
  exact effect

end Effect

end Udaf
