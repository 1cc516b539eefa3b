import Udaf.Core.ErrorCode
import Udaf.Lib.Decimal
import Udaf.Lib.Hex
import Udaf.Lib.OutStream
import Udaf.Lib.Text

/-!
The audit log of `audit/audit.cpp`. A logger holds its sequence and the head of
the hash chain; the file at its path is passed to each member and handed back,
`none` while there is none. `sha512` stands for the digest of OpenSSL.
-/

namespace Udaf

open ByteString Decimal Hex OutStream Text

inductive ActionType where
  | nodeRegister
  | nodeUnregister
  | nodeHeartbeat
  | servicePublish
  | serviceSubscribe
  | topologyUpdate
  | crossHostSchedule
  | pskHandshake
  | pkiHandshake
  | authSuccess
  | authFailure
  | credentialRotate
  | cmdExec
  | fileTransfer
  | configChange
  | auditExport
  | whitelistUpdate
  | rateLimitTriggered
  | replayDetected
  deriving DecidableEq, Repr

namespace ActionType

def value : ActionType → Nat
  | nodeRegister => 1
  | nodeUnregister => 2
  | nodeHeartbeat => 3
  | servicePublish => 4
  | serviceSubscribe => 5
  | topologyUpdate => 6
  | crossHostSchedule => 7
  | pskHandshake => 8
  | pkiHandshake => 9
  | authSuccess => 10
  | authFailure => 11
  | credentialRotate => 12
  | cmdExec => 13
  | fileTransfer => 14
  | configChange => 15
  | auditExport => 16
  | whitelistUpdate => 17
  | rateLimitTriggered => 18
  | replayDetected => 19

def all : List ActionType :=
  [nodeRegister, nodeUnregister, nodeHeartbeat, servicePublish, serviceSubscribe, topologyUpdate,
    crossHostSchedule, pskHandshake, pkiHandshake, authSuccess, authFailure, credentialRotate,
    cmdExec, fileTransfer, configChange, auditExport, whitelistUpdate, rateLimitTriggered,
    replayDetected]

end ActionType

def actionName : ActionType → Bytes
  | .nodeRegister => ascii "node_register"
  | .nodeUnregister => ascii "node_unregister"
  | .nodeHeartbeat => ascii "node_heartbeat"
  | .servicePublish => ascii "service_publish"
  | .serviceSubscribe => ascii "service_subscribe"
  | .topologyUpdate => ascii "topology_update"
  | .crossHostSchedule => ascii "cross_host_schedule"
  | .pskHandshake => ascii "psk_handshake"
  | .pkiHandshake => ascii "pki_handshake"
  | .authSuccess => ascii "auth_success"
  | .authFailure => ascii "auth_failure"
  | .credentialRotate => ascii "credential_rotate"
  | .cmdExec => ascii "cmd_exec"
  | .fileTransfer => ascii "file_transfer"
  | .configChange => ascii "config_change"
  | .auditExport => ascii "audit_export"
  | .whitelistUpdate => ascii "whitelist_update"
  | .rateLimitTriggered => ascii "rate_limit_triggered"
  | .replayDetected => ascii "replay_detected"

structure AuditEvent where
  sequence : UInt64 := 0
  action : ActionType := .nodeHeartbeat
  actor : Bytes := []
  target : Bytes := []
  paramsJson : Bytes := []
  timestampNs : Int64 := 0
  prevHash : Bytes := []
  paramsHash : Bytes := []
  deriving DecidableEq, Repr

def bar : UInt8 := 124

def AuditEvent.pieces (event : AuditEvent) : List Bytes :=
  [decimal event.sequence.toNat, [bar], actionName event.action, [bar],
    event.actor, [bar], event.target, [bar],
    decimalInt event.timestampNs.toInt, [bar], event.prevHash, [bar],
    event.paramsHash, [bar], event.paramsJson, [newline]]

def actionOf (name : Bytes) : ActionType :=
  (ActionType.all.find? fun action => name = actionName action).getD .nodeHeartbeat

/-- The event of a line and its json tail; the event keeps no parameters. -/
def parseEventLine (line : Bytes) : Option (AuditEvent × Bytes) :=
  match cutFields bar 7 line with
  | some ([sequence, action, actor, target, timestampNs, prevHash, paramsHash], jsonTail) =>
      match stoull sequence, stoll timestampNs with
      | some sequence, some timestampNs =>
          some ({
            sequence := sequence
            action := actionOf action
            actor := actor
            target := target
            timestampNs := timestampNs
            prevHash := prevHash
            paramsHash := paramsHash }, jsonTail)
      | _, _ => none
  | _ => none

def genesisTag : Bytes := ascii "GENESIS|"

structure AuditLogger where
  seq : UInt64 := 0
  prevHash : Bytes
  deriving DecidableEq, Repr

def AuditLogger.sequence (logger : AuditLogger) : UInt64 := logger.seq

structure Genesis where
  random : Bytes
  clock : Int64
  attempt : Attempt := {}
  deriving DecidableEq, Repr

def Genesis.seed (genesis : Genesis) : Bytes :=
  ascii "udaf-bootstrap-" ++ hexOf genesis.random ++ ascii "-" ++ decimalInt genesis.clock.toInt

section Digest

variable (sha512 : Bytes → Bytes)

def sha512Hex (data : Bytes) : Bytes := hexOf (sha512 data)

def computeParamsHash (json : Bytes) : Bytes := sha512Hex sha512 json

def linkInput (head paramsHash : Bytes) (sequence : UInt64) (action : ActionType) : Bytes :=
  head ++ bar :: paramsHash ++ bar :: decimal sequence.toNat ++ bar :: decimal action.value

def nextHash (head : Bytes) (event : AuditEvent) : Bytes :=
  sha512Hex sha512 (linkInput head event.paramsHash event.sequence event.action)

/-- The replay of the constructor: it ends at the first line that does not parse or does not
continue the chain. -/
def replayLines : List Bytes → AuditLogger → AuditLogger
  | [], logger => logger
  | line :: rest, logger =>
      if line.isEmpty then replayLines rest logger
      else
        match parseEventLine line with
        | none => logger
        | some (event, _) =>
            if event.prevHash = logger.prevHash then
              replayLines rest {
                seq := event.sequence
                prevHash := nextHash sha512 logger.prevHash event }
            else logger

def Genesis.hash (genesis : Genesis) : Bytes := sha512Hex sha512 genesis.seed

def AuditLogger.fresh (file : Option Bytes) (genesis : Genesis) : AuditLogger × Option Bytes :=
  let prevHash := genesis.hash sha512
  if genesis.attempt.opens then
    let written := print (file.getD []) [genesisTag, prevHash, [newline]] genesis.attempt
    ({ prevHash := prevHash }, some written.2)
  else ({ prevHash := prevHash }, file)

def AuditLogger.construct (file : Option Bytes) (genesis : Genesis) : AuditLogger × Option Bytes :=
  match lines (file.getD []) with
  | first :: rest =>
      if first.take 8 = genesisTag then
        (replayLines sha512 rest { prevHash := first.drop 8 }, file)
      else fresh sha512 file genesis
  | [] => fresh sha512 file genesis

def AuditLogger.nextEvent (logger : AuditLogger) (action : ActionType)
    (actor target paramsJson : Bytes) (now : Int64) : AuditEvent where
  sequence := logger.seq + 1
  action := action
  actor := actor
  target := target
  paramsJson := paramsJson
  timestampNs := now
  prevHash := logger.prevHash
  paramsHash := computeParamsHash sha512 paramsJson

def AuditLogger.append (logger : AuditLogger) (file : Option Bytes) (action : ActionType)
    (actor target paramsJson : Bytes) (now : Int64) (attempt : Attempt) :
    Except ErrorCode UInt64 × AuditLogger × Option Bytes :=
  if attempt.opens then
    let event := logger.nextEvent sha512 action actor target paramsJson now
    let advanced : AuditLogger :=
      { seq := event.sequence, prevHash := nextHash sha512 logger.prevHash event }
    let (good, written) := print (file.getD []) event.pieces attempt
    -- the rollback undoes the sequence and leaves the head advanced
    if good then (.ok event.sequence, advanced, some written)
    else (.error .internal, { advanced with seq := advanced.seq - 1 }, some written)
  else (.error .internal, logger, file)

def verifyLines : List Bytes → Bytes → Bool
  | [], _ => true
  | line :: rest, expectedPrev =>
      if line.isEmpty then verifyLines rest expectedPrev
      else
        match parseEventLine line with
        | none => false
        | some (event, jsonTail) =>
            if event.prevHash ≠ expectedPrev then false
            else if computeParamsHash sha512 jsonTail ≠ event.paramsHash then false
            else verifyLines rest (nextHash sha512 expectedPrev event)

def AuditLogger.verifyChain (file : Option Bytes) : Except ErrorCode Bool :=
  match file with
  | none => .error .internal
  | some content =>
      match lines content with
      | [] => .error .internal
      | first :: rest =>
          if first.take 8 ≠ genesisTag then .error .protocolVersionMismatch
          else .ok (verifyLines sha512 rest (first.drop 8))

end Digest

end Udaf
