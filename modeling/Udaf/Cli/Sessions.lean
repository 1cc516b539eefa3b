import Mathlib.Logic.Function.Basic
import Udaf.Audit.Integrity
import Udaf.Cli.Commands
import Udaf.Lib.FileNames

/-!
Any number of processes of the command line, one after the other on each id. A process keeps
its client to itself, so all that one leaves for the next is the log at the path of its id.
-/

namespace Udaf

open ByteString Decimal FileNames Hex OutStream Runs Text

namespace Cli

def startsClient : Subcommand → List Bytes → Bool
  | .run, flag :: _ :: _ :: _ => decide (flag = ascii "--node")
  | .run, _ => false
  | .completion, _ => false
  | .version, _ => false
  | .help, _ => false
  | _, _ => true

def entriesOf : Subcommand → List Bytes → List (ActionType × Bytes × Bytes)
  | .trust, first :: nodeId :: fingerprintHex :: _ :: _ =>
      if first = ascii "add" ∧ fingerprintHex.length = 64 ∧ (unhex fingerprintHex).isSome ∧
          nodeId ≠ [] then
        [(.whitelistUpdate, nodeId, ascii "\x7b\"event\":\"add\"\x7d")]
      else []
  | .psk, first :: newPskPath :: _ =>
      if first = ascii "rotate" ∧ newPskPath ≠ [] then
        [(.credentialRotate, ascii "self", pskRotateJson newPskPath)]
      else []
  | .migrate, srcPath :: dstPath :: _ =>
      if srcPath ≠ [] ∧ dstPath ≠ [] then
        [(.auditExport, ascii "self", migrateJson srcPath dstPath)]
      else []
  | _, _ => []

def requestOf (process : Process) (entry : ActionType × Bytes × Bytes) : AuditRequest where
  action := entry.1
  actor := nodeId process.pid
  target := entry.2.1
  paramsJson := entry.2.2
  now := process.occasion.now

def startRequest (process : Process) : AuditRequest where
  action := .nodeRegister
  actor := nodeId process.pid
  target := ascii "client"
  paramsJson := startJson
  now := process.started.now

def commandOf : List Bytes → Option Subcommand
  | [] => none
  | sub :: _ =>
      if sub = ascii "-h" ∨ sub = ascii "--help" then none else Subcommand.find sub

/-- The records that the process adds to the log of its id. -/
def requestsOf (process : Process) (argv : List Bytes) : List AuditRequest :=
  match commandOf argv with
  | none => []
  | some command =>
      if startsClient command argv.tail then
        startRequest process :: (entriesOf command argv.tail).map (requestOf process)
      else []

structure Invocation where
  process : Process
  argv : List Bytes
  exit : Option ExitCode

def noFiles : Files := fun _ => none

/-- A whole process; those that run at once have other ids, and touch other files. -/
structure Step (sha512 : Bytes → Bytes) (files : Files) (call : Invocation) (next : Files) :
    Prop where
  exit : (main sha512 call.process call.argv ⟨none, files (auditPath call.process.pid)⟩).1 = call.exit
  effect : next = Function.update files (auditPath call.process.pid)
    (main sha512 call.process call.argv ⟨none, files (auditPath call.process.pid)⟩).2.file
  genesis : call.process.genesis.attempt.Succeeds
  started : call.process.started.attempt.Succeeds
  occasion : call.process.occasion.attempt.Succeeds
  plain : ∀ arg ∈ call.argv, Plain arg

def recordsOf (pid : Nat) (calls : List Invocation) : List AuditRequest :=
  calls.flatMap fun call =>
    if call.process.pid = pid then requestsOf call.process call.argv else []

def Subcommand.remote : List Subcommand := [.run, .push, .pull, .auth]

section Audited

variable {sha512 : Bytes → Bytes} {head : Bytes} {requests : List AuditRequest}
  {site : ClientSite} {process : Process} {occasion : Occasion} {file : Option Bytes}

structure Logged (sha512 : Bytes → Bytes) (head : Bytes) (requests : List AuditRequest)
    (site : ClientSite) : Prop where
  logger : site.client.auditLogger = some (chainSite sha512 head requests).logger
  file : site.file = (chainSite sha512 head requests).file

theorem append_chain (succeeds : occasion.attempt.Succeeds) (request : AuditRequest) :
    (chainSite sha512 head requests).logger.append sha512 (chainSite sha512 head requests).file
        request.action request.actor request.target request.paramsJson request.now
        occasion.attempt =
      (.ok (UInt64.ofNat (requests.length + 1)),
        (chainSite sha512 head (requests ++ [request])).logger,
        (chainSite sha512 head (requests ++ [request])).file) := by
  have appended := @append_site sha512 occasion.attempt succeeds head requests request
  simp only [AuditSite.exec, Prod.mk.injEq, AuditReply.appended.injEq] at appended
  obtain ⟨result, site⟩ := appended
  rw [← site, ← result]

theorem Logged.audit (logged : Logged sha512 head requests site)
    (succeeds : occasion.attempt.Succeeds) (action : ActionType) (target paramsJson : Bytes) :
    ∃ next, site.audit sha512 occasion action target paramsJson =
        (.ok (UInt64.ofNat (requests.length + 1)), next) ∧
      Logged sha512 head
        (requests ++ [⟨action, site.client.cfg.nodeId, target, paramsJson, occasion.now⟩]) next ∧
      next.client.cfg = site.client.cfg ∧ next.client.whitelist = site.client.whitelist := by
  have appended := @append_chain sha512 head requests occasion succeeds
    ⟨action, site.client.cfg.nodeId, target, paramsJson, occasion.now⟩
  rw [ClientSite.audit, logged.logger, logged.file]
  simp only [appended]
  exact ⟨_, rfl, ⟨rfl, rfl⟩, rfl, rfl⟩

structure Fresh (sha512 : Bytes → Bytes) (head : Bytes) (requests : List AuditRequest)
    (process : Process) (site : ClientSite) : Prop where
  logged : Logged sha512 head requests site
  cfg : site.client.cfg = clientConfig process.pid
  whitelist : site.client.whitelist = .empty

theorem currentClient_fresh
    (opens : AuditSite.opened sha512 file process.genesis = chainSite sha512 head requests)
    (succeeds : process.started.attempt.Succeeds) :
    Fresh sha512 head (requests ++ [startRequest process]) process
      (currentClient sha512 process ⟨none, file⟩) := by
  have path : (clientConfig process.pid).auditPath.isEmpty = false := rfl
  have site : ClientSite.opened sha512 (clientConfig process.pid) file process.genesis =
      ⟨{ cfg := clientConfig process.pid,
          auditLogger := some (chainSite sha512 head requests).logger },
        (chainSite sha512 head requests).file⟩ := by
    rw [← opens, ClientSite.opened, path]
    rfl
  have logged : Logged sha512 head requests
      (ClientSite.opened sha512 (clientConfig process.pid) file process.genesis) := by
    rw [site]
    exact ⟨rfl, rfl⟩
  obtain ⟨next, audited, after, cfg, whitelist⟩ :=
    logged.audit succeeds .nodeRegister (ascii "client") startJson
  have started : currentClient sha512 process ⟨none, file⟩ = next := by
    simp only [currentClient, ClientSite.start, logged.logger,
      Option.isSome_some, if_true, audited]
  rw [started]
  refine ⟨?_, ?_, ?_⟩
  · rw [site] at after
    exact after
  · rw [cfg, site]
  · rw [whitelist, site]

structure Serves (sha512 : Bytes → Bytes) (head : Bytes) (requests : List AuditRequest)
    (process : Process) (command : Subcommand) (args : List Bytes) (exit : Option ExitCode)
    (left : Option Bytes) : Prop where
  file : left = (chainSite sha512 head
    (requests ++ (entriesOf command args).map (requestOf process))).file
  remote : exit = some .kOk → command ∉ Subcommand.remote

section Commands

variable {command : Subcommand} {args : List Bytes} {exit : Option ExitCode}
  {checks : List (Bool × ErrorCode)}

theorem Fresh.idle (fresh : Fresh sha512 head requests process site)
    (silent : entriesOf command args = [])
    (remote : exit = some .kOk → command ∉ Subcommand.remote) :
    Serves sha512 head requests process command args exit site.file := by
  refine ⟨?_, remote⟩
  rw [silent, List.map_nil, List.append_nil]
  exact fresh.logged.file

theorem Fresh.recorded (fresh : Fresh sha512 head requests process site)
    (succeeds : process.occasion.attempt.Succeeds) (passed : ∀ check ∈ checks, check.1 = false)
    {entry : ActionType × Bytes × Bytes} (told : entriesOf command args = [entry])
    (here : command ∉ Subcommand.remote) (failed : ExitCode) :
    Serves sha512 head requests process command args
      (some (exitOf failed
        (site.checked sha512 process.occasion checks entry.1 entry.2.1 entry.2.2).1))
      (site.checked sha512 process.occasion checks entry.1 entry.2.1 entry.2.2).2.file := by
  obtain ⟨next, audited, after, -, -⟩ :=
    fresh.logged.audit succeeds entry.1 entry.2.1 entry.2.2
  have none : checks.find? (fun check => check.1) = none := by
    rw [List.find?_eq_none]
    intro check member
    rw [passed check member]
    exact Bool.false_ne_true
  rw [ClientSite.checked, none]
  refine ⟨?_, fun _ => here⟩
  rw [audited, told, after.file, fresh.cfg]
  rfl

theorem Fresh.untrusted (fresh : Fresh sha512 head requests process site) (nodeId : Bytes) :
    (!site.client.whitelist.contains nodeId) = true := by
  rw [fresh.whitelist]
  rfl

theorem Fresh.refused (fresh : Fresh sha512 head requests process site)
    (nodeId : Bytes) (asked : (!site.client.whitelist.contains nodeId, .bizAuthUntrusted) ∈ checks)
    (silent : entriesOf command args = []) {failed : ExitCode} (nonzero : failed ≠ .kOk) (action : ActionType) (target paramsJson : Bytes) :
    Serves sha512 head requests process command args
      (some (exitOf failed (site.checked sha512 occasion checks action target paramsJson).1))
      (site.checked sha512 occasion checks action target paramsJson).2.file := by
  rw [ClientSite.checked]
  cases found : checks.find? fun check => check.1 with
  | none => exact absurd (fresh.untrusted nodeId) (List.find?_eq_none.mp found _ asked)
  | some first => exact fresh.idle silent fun ok => absurd (Option.some.inj ok) nonzero

theorem usage_serves (fresh : Fresh sha512 head requests process site)
    (silent : entriesOf command args = []) :
    Serves sha512 head requests process command args (some .kUsage) site.file :=
  fresh.idle silent (by simp)

theorem run_serves
    (fresh : Fresh sha512 head requests process (currentClient sha512 process ⟨none, file⟩))
    (starts : startsClient .run args = true) :
    Serves sha512 head requests process .run args (cmdRun sha512 process args ⟨none, file⟩).1
      (cmdRun sha512 process args ⟨none, file⟩).2.file := by
  have silent : entriesOf .run args = [] := by cases args <;> rfl
  match args, starts, silent with
  | flag :: nodeId :: separator :: rest, starts, silent =>
      have flagged : flag = ascii "--node" := by simpa [startsClient] using starts
      simp only [cmdRun, flagged, ne_eq, not_true_eq_false, if_false, withClient]
      generalize currentClient sha512 process ⟨none, file⟩ = site at fresh ⊢
      rw [flagged] at silent
      by_cases separated : separator = ascii "--"
      · simp only [separated, not_true_eq_false, if_false]
        cases rest with
        | nil =>
            rw [separated] at silent
            exact usage_serves fresh silent
        | cons command cmdArgs =>
            rw [separated] at silent
            exact fresh.refused nodeId (by simp) silent (by decide) _ _ _
      · simp only [separated, not_false_eq_true, if_true]
        exact usage_serves fresh silent

theorem push_serves
    (fresh : Fresh sha512 head requests process (currentClient sha512 process ⟨none, file⟩)) :
    Serves sha512 head requests process .push args (cmdPush sha512 process args ⟨none, file⟩).1
      (cmdPush sha512 process args ⟨none, file⟩).2.file := by
  simp only [cmdPush, withClient]
  generalize currentClient sha512 process ⟨none, file⟩ = site at fresh ⊢
  have silent : entriesOf .push args = [] := by cases args <;> rfl
  split
  · rename_i src dstNode dstPath rest
    exact fresh.refused dstNode (by simp) silent (by decide) _ _ _
  · exact usage_serves fresh silent

theorem pull_serves
    (fresh : Fresh sha512 head requests process (currentClient sha512 process ⟨none, file⟩)) :
    Serves sha512 head requests process .pull args (cmdPull sha512 process args ⟨none, file⟩).1
      (cmdPull sha512 process args ⟨none, file⟩).2.file := by
  simp only [cmdPull, withClient]
  generalize currentClient sha512 process ⟨none, file⟩ = site at fresh ⊢
  have silent : entriesOf .pull args = [] := by cases args <;> rfl
  split
  · rename_i srcNode srcPath dst rest
    exact fresh.refused srcNode (by simp) silent (by decide) _ _ _
  · exact usage_serves fresh silent

theorem auth_serves
    (fresh : Fresh sha512 head requests process (currentClient sha512 process ⟨none, file⟩)) :
    Serves sha512 head requests process .auth args (cmdAuth sha512 process args ⟨none, file⟩).1
      (cmdAuth sha512 process args ⟨none, file⟩).2.file := by
  simp only [cmdAuth, withClient]
  generalize currentClient sha512 process ⟨none, file⟩ = site at fresh ⊢
  have silent : entriesOf .auth args = [] := by cases args <;> rfl
  split
  · rename_i first nodeId rest
    split_ifs with psk
    · exact fresh.refused nodeId (by simp) silent (by decide) _ _ _
    · exact usage_serves fresh silent
  · exact usage_serves fresh silent

theorem psk_serves
    (fresh : Fresh sha512 head requests process (currentClient sha512 process ⟨none, file⟩))
    (succeeds : process.occasion.attempt.Succeeds) :
    Serves sha512 head requests process .psk args (cmdPsk sha512 process args ⟨none, file⟩).1
      (cmdPsk sha512 process args ⟨none, file⟩).2.file := by
  simp only [cmdPsk, withClient]
  generalize currentClient sha512 process ⟨none, file⟩ = site at fresh ⊢
  split
  · rename_i first newPskPath rest
    split_ifs with rotate
    · by_cases blank : newPskPath = []
      · subst blank
        have failed : site.pskRotate sha512 process.occasion [] = (.error .invalidArg, site) := by
          simp [ClientSite.pskRotate, ClientSite.checked, fresh.logged.logger]
        rw [failed]
        exact fresh.idle (by simp [entriesOf]) (by simp [exitOf])
      · have told : entriesOf .psk (first :: newPskPath :: rest) =
            [(.credentialRotate, ascii "self", pskRotateJson newPskPath)] := by
          simp [entriesOf, rotate, blank]
        refine fresh.recorded succeeds ?_ told (by decide) .kInvalidArg
        simp [fresh.logged.logger, blank]
    · exact usage_serves fresh (by simp [entriesOf, rotate])
  · rename_i short
    refine usage_serves fresh ?_
    match args, short with
    | [], _ => rfl
    | [_], _ => rfl
    | first :: path :: rest, short => exact absurd rfl (short first path rest)

theorem migrate_serves
    (fresh : Fresh sha512 head requests process (currentClient sha512 process ⟨none, file⟩))
    (succeeds : process.occasion.attempt.Succeeds) :
    Serves sha512 head requests process .migrate args
      (cmdMigrate sha512 process args ⟨none, file⟩).1
      (cmdMigrate sha512 process args ⟨none, file⟩).2.file := by
  simp only [cmdMigrate, withClient]
  generalize currentClient sha512 process ⟨none, file⟩ = site at fresh ⊢
  split
  · rename_i srcPath dstPath rest
    by_cases full : srcPath ≠ [] ∧ dstPath ≠ []
    · have told : entriesOf .migrate (srcPath :: dstPath :: rest) =
          [(.auditExport, ascii "self", migrateJson srcPath dstPath)] := by
        simp [entriesOf, full]
      refine fresh.recorded succeeds ?_ told (by decide) .kInvalidArg
      simp [fresh.logged.logger, full]
    · have failed : site.migrate sha512 process.occasion srcPath dstPath =
          (.error .invalidArg, site) := by
        have blank : srcPath = [] ∨ dstPath = [] := by grind
        simp [ClientSite.migrate, ClientSite.checked, fresh.logged.logger, blank]
      rw [failed]
      exact fresh.idle (by simp only [entriesOf, full, if_false]) (by simp [exitOf])
  · rename_i short
    refine usage_serves fresh ?_
    match args, short with
    | [], _ => rfl
    | [_], _ => rfl
    | first :: path :: rest, short => exact absurd rfl (short first path rest)

theorem trustAdd_serves (fresh : Fresh sha512 head requests process site)
    (succeeds : process.occasion.attempt.Succeeds) (nodeId fingerprintHex capability : Bytes)
    (more : List Bytes) :
    Serves sha512 head requests process .trust
      (ascii "add" :: nodeId :: fingerprintHex :: capability :: more)
      (some (exitOf .kInvalidArg (site.trustAdd sha512 process.occasion nodeId fingerprintHex
        (capability :: more)).1))
      (site.trustAdd sha512 process.occasion nodeId fingerprintHex (capability :: more)).2.file := by
  have here : Subcommand.trust ∉ Subcommand.remote := by decide
  rw [ClientSite.trustAdd]
  split_ifs with length
  · exact fresh.idle (by simp [entriesOf, length]) fun _ => here
  · cases read : unhex fingerprintHex with
    | none => exact fresh.idle (by simp [entriesOf, read]) fun _ => here
    | some fingerprintSha256 =>
        obtain ⟨-, bytes⟩ := hexOf_unhex (by omega) read
        by_cases blank : nodeId = []
        · have invalid : ¬ WhitelistEntry.Valid
              ⟨nodeId, fingerprintSha256, Table.ofKeys (capability :: more)⟩ := by
            simp [WhitelistEntry.Valid, blank]
          simp only [PeerWhitelist.add_invalid invalid, Except.isOk, Except.toBool]
          exact fresh.idle (by simp [entriesOf, blank]) fun _ => here
        · have valid : WhitelistEntry.Valid
              ⟨nodeId, fingerprintSha256, Table.ofKeys (capability :: more)⟩ := by
            simp only [WhitelistEntry.Valid, blank, false_or, not_not]
            omega
          have told : entriesOf .trust
              (ascii "add" :: nodeId :: fingerprintHex :: capability :: more) =
              [(.whitelistUpdate, nodeId, ascii "\x7b\"event\":\"add\"\x7d")] := by
            simp [entriesOf, read, blank, not_not.mp length]
          have logged : Logged sha512 head requests
              (site.withWhitelist (site.client.whitelist.put _ valid)) :=
            ⟨fresh.logged.logger, fresh.logged.file⟩
          obtain ⟨next, audited, after, -, -⟩ := logged.audit succeeds .whitelistUpdate nodeId
            (ascii "\x7b\"event\":\"add\"\x7d")
          simp only [PeerWhitelist.add_valid valid, Except.isOk, Except.toBool, if_true,
            ClientSite.auditTrust, logged.logger, Option.isSome_some, audited]
          refine ⟨?_, fun _ => here⟩
          have actor : (site.withWhitelist (site.client.whitelist.put _ valid)).client.cfg =
            clientConfig process.pid := fresh.cfg
          rw [told, after.file, actor]
          rfl

theorem trust_silent {first : Bytes} (other : first ≠ ascii "add") (rest : List Bytes) :
    entriesOf .trust (first :: rest) = [] := by
  match rest with
  | [] => rfl
  | [_] => rfl
  | [_, _] => rfl
  | nodeId :: fingerprintHex :: capability :: more => simp [entriesOf, other]

theorem trust_serves
    (fresh : Fresh sha512 head requests process (currentClient sha512 process ⟨none, file⟩))
    (succeeds : process.occasion.attempt.Succeeds) :
    Serves sha512 head requests process .trust args (cmdTrust sha512 process args ⟨none, file⟩).1
      (cmdTrust sha512 process args ⟨none, file⟩).2.file := by
  simp only [cmdTrust, withClient]
  generalize currentClient sha512 process ⟨none, file⟩ = site at fresh ⊢
  cases args with
  | nil => exact usage_serves fresh rfl
  | cons first rest =>
      have here : Subcommand.trust ∉ Subcommand.remote := by decide
      by_cases add : first = ascii "add"
      · subst add
        have differ : ascii "add" ≠ ascii "list" := by decide
        simp only [differ, if_false, if_true]
        match rest with
        | [] => exact usage_serves fresh rfl
        | [_] => exact usage_serves fresh rfl
        | [_, _] => exact usage_serves fresh rfl
        | nodeId :: fingerprintHex :: capability :: more =>
            exact trustAdd_serves fresh succeeds nodeId fingerprintHex capability more
      · have silent := trust_silent add rest
        simp only [add, if_false]
        split_ifs with list remove
        · exact fresh.idle silent fun _ => here
        · cases rest with
          | nil => exact usage_serves fresh silent
          | cons nodeId more =>
              have absent : site.client.whitelist.entries.lookup nodeId = none := by
                rw [fresh.whitelist]
                rfl
              simp only [ClientSite.trustRemove, PeerWhitelist.remove, absent, Option.isSome_none]
              exact fresh.idle silent fun _ => here
        · exact usage_serves fresh silent

theorem node_serves
    (fresh : Fresh sha512 head requests process (currentClient sha512 process ⟨none, file⟩)) :
    Serves sha512 head requests process .node args (cmdNode sha512 process args ⟨none, file⟩).1
      (cmdNode sha512 process args ⟨none, file⟩).2.file := by
  simp only [cmdNode, withClient]
  generalize currentClient sha512 process ⟨none, file⟩ = site at fresh ⊢
  have silent : entriesOf .node args = [] := by cases args <;> rfl
  have idle := fun exit => @Fresh.idle sha512 head requests site process .node args exit fresh silent
    fun _ => by decide
  cases args with
  | nil => exact idle _
  | cons first rest =>
      dsimp only
      split_ifs with list register unregister
      · exact idle _
      · match rest with
        | [] => exact idle _
        | [_] => exact idle _
        | [_, _] => exact idle _
        | [_, _, _] => exact idle _
        | nodeId :: hostname :: bindAddr :: port :: more =>
            dsimp only
            cases stoi port with
            | none => exact idle _
            | some number => exact idle _
      · cases rest with
        | nil => exact idle _
        | cons nodeId more => exact idle _
      · exact idle _

theorem handler_serves
    (fresh : Fresh sha512 head requests process (currentClient sha512 process ⟨none, file⟩))
    (succeeds : process.occasion.attempt.Succeeds) (starts : startsClient command args = true) :
    Serves sha512 head requests process command args
      (handler sha512 process args ⟨none, file⟩ command).1
      (handler sha512 process args ⟨none, file⟩ command).2.file := by
  cases command with
  | discover => exact fresh.idle (by cases args <;> rfl) fun _ => by decide
  | run => exact run_serves fresh starts
  | push => exact push_serves fresh
  | pull => exact pull_serves fresh
  | topology =>
      simp only [handler, cmdTopology, withClient]
      split_ifs with shown
      · exact fresh.idle (by cases args <;> rfl) fun _ => by decide
      · exact fresh.idle (by cases args <;> rfl) fun _ => by decide
  | node => exact node_serves fresh
  | trust => exact trust_serves fresh succeeds
  | psk => exact psk_serves fresh succeeds
  | auth => exact auth_serves fresh
  | migrate => exact migrate_serves fresh succeeds
  | config =>
      simp only [handler, cmdConfig, withClient]
      split_ifs with shown
      · exact fresh.idle (by cases args <;> rfl) fun _ => by decide
      · exact fresh.idle (by cases args <;> rfl) fun _ => by decide
  | completion => cases starts
  | version => cases starts
  | help => cases starts

theorem handler_idle (idle : startsClient command args = false) :
    (handler sha512 process args ⟨none, file⟩ command).2.file = file ∧
      ((handler sha512 process args ⟨none, file⟩ command).1 = some .kOk →
        command ∉ Subcommand.remote) := by
  cases command with
  | completion =>
      simp only [handler, cmdCompletion]
      split_ifs with known
      · exact ⟨rfl, fun _ => by decide⟩
      · exact ⟨rfl, fun _ => by decide⟩
  | version => exact ⟨rfl, fun _ => by decide⟩
  | help => exact ⟨rfl, fun _ => by decide⟩
  | run =>
      match args with
      | [] => exact ⟨rfl, fun ok => by cases ok⟩
      | [_] => exact ⟨rfl, fun ok => by cases ok⟩
      | [_, _] => exact ⟨rfl, fun ok => by cases ok⟩
      | flag :: nodeId :: separator :: rest =>
          have other : flag ≠ ascii "--node" := by simpa [startsClient] using idle
          simp only [handler, cmdRun, other, ne_eq, not_false_eq_true, if_true]
          exact ⟨trivial, fun ok => by cases ok⟩
  | _ => cases idle

theorem find_name (command : Subcommand) : Subcommand.find command.name = some command := by
  cases command <;> decide

theorem main_serves {argv : List Bytes}
    (opens : AuditSite.opened sha512 file process.genesis = chainSite sha512 head requests)
    (started : process.started.attempt.Succeeds) (succeeds : process.occasion.attempt.Succeeds) :
    (main sha512 process argv ⟨none, file⟩).2.file =
        (if requestsOf process argv = [] then file
          else (chainSite sha512 head (requests ++ requestsOf process argv)).file) ∧
      ((main sha512 process argv ⟨none, file⟩).1 = some .kOk →
        ∀ command ∈ Subcommand.remote, argv.head? ≠ some command.name) := by
  cases argv with
  | nil => exact ⟨rfl, by simp⟩
  | cons sub rest =>
      by_cases asked : sub = ascii "-h" ∨ sub = ascii "--help"
      · simp only [main, requestsOf, commandOf, asked, if_true]
        refine ⟨trivial, fun _ command _ same => ?_⟩
        have name := Option.some.inj same
        subst name
        revert asked
        cases command <;> decide
      · simp only [main, requestsOf, commandOf, asked, if_false, List.tail_cons]
        cases found : Subcommand.find sub with
        | none => exact ⟨rfl, fun ok => by cases ok⟩
        | some command =>
            have named : ∀ other ∈ Subcommand.remote, some sub = some other.name →
                command ∈ Subcommand.remote := by
              intro other member same
              have name := Option.some.inj same
              rw [name, find_name] at found
              rwa [Option.some.inj found] at member
            by_cases starts : startsClient command rest = true
            · have fresh := currentClient_fresh opens started
              have served := handler_serves fresh succeeds starts
              simp only [starts, if_true, reduceCtorEq, if_false]
              refine ⟨?_, fun ok other member same => served.remote ok (named other member same)⟩
              rw [served.file, List.append_assoc]
              rfl
            · have silent := @handler_idle sha512 process file command rest (by simpa using starts)
              simp only [starts, if_false, if_true, Bool.false_eq_true]
              exact ⟨silent.1, fun ok other member same => silent.2 ok (named other member same)⟩

end Commands

end Audited

section Runs

variable {sha512 : Bytes → Bytes}

theorem auditPath_injective {pid other : Nat} (same : auditPath pid = auditPath other) :
    pid = other := by
  simp only [auditPath, nodeId, List.append_assoc, List.append_cancel_left_eq,
    List.append_cancel_right_eq] at same
  exact decimal_injective same

theorem nodeId_plain (pid : Nat) : Plain (nodeId pid) := by
  obtain ⟨bars, newlines⟩ := decimal_plain pid
  have front : Plain (ascii "cli-") := by decide
  exact ⟨by simp [nodeId, front.1, bars], by simp [nodeId, front.2, newlines]⟩

theorem entriesOf_clean {command : Subcommand} {args : List Bytes} {entry : ActionType × Bytes × Bytes}
    (plain : ∀ arg ∈ args, Plain arg) (member : entry ∈ entriesOf command args) :
    (Plain entry.2.1 ∧ newline ∉ entry.2.2) ∧
      entry.1 ∈ [ActionType.whitelistUpdate, .credentialRotate, .auditExport] := by
  have framed : ∀ front back text : Bytes, newline ∉ front → newline ∉ back → newline ∉ text →
      newline ∉ front ++ text ++ back := by
    intro front back text before behind inside
    simp [before, behind, inside]
  unfold entriesOf at member
  split at member
  · rename_i first nodeId fingerprintHex capability more
    have json : newline ∉ ascii "\x7b\"event\":\"add\"\x7d" := by decide
    split_ifs at member
    · rw [List.mem_singleton.mp member]
      exact ⟨⟨plain nodeId (by simp), json⟩, List.mem_cons_self⟩
    · cases member
  · rename_i first newPskPath more
    have self : Plain (ascii "self") := by decide
    split_ifs at member
    · rw [List.mem_singleton.mp member]
      have json := framed (ascii "\x7b\"new_psk_path\":\"") (ascii "\"\x7d") newPskPath (by decide)
        (by decide) (plain newPskPath (by simp)).2
      exact ⟨⟨self, json⟩, by simp⟩
    · cases member
  · rename_i srcPath dstPath more
    have self : Plain (ascii "self") := by decide
    split_ifs at member
    · rw [List.mem_singleton.mp member]
      have front := framed (ascii "\x7b\"src\":\"") (ascii "\",\"dst\":\"") srcPath (by decide)
        (by decide) (plain srcPath (by simp)).2
      have json := framed _ (ascii "\"\x7d") dstPath front (by decide) (plain dstPath (by simp)).2
      exact ⟨⟨self, json⟩, by simp⟩
    · cases member
  · cases member

theorem requestsOf_clean {process : Process} {argv : List Bytes} {request : AuditRequest}
    (plain : ∀ arg ∈ argv, Plain arg) (member : request ∈ requestsOf process argv) :
    request.Clean ∧
      request.action ∈ [ActionType.nodeRegister, .whitelistUpdate, .credentialRotate, .auditExport] := by
  rw [requestsOf] at member
  split at member
  · cases member
  · split_ifs at member with starts
    · rcases List.mem_cons.mp member with rfl | told
      · have client : Plain (ascii "client") := by decide
        have start : newline ∉ startJson := by decide
        exact ⟨⟨nodeId_plain _, client, start⟩, List.mem_cons_self⟩
      · obtain ⟨entry, inside, rfl⟩ := List.mem_map.mp told
        obtain ⟨⟨target, json⟩, action⟩ :=
          entriesOf_clean (fun arg within => plain arg (List.mem_of_mem_tail within)) inside
        exact ⟨⟨nodeId_plain _, target, json⟩, List.mem_cons_of_mem _ action⟩
    · cases member

/-- What the processes so far leave at the path of each id. -/
structure Audited (sha512 : Bytes → Bytes) (calls : List Invocation) (files : Files) : Prop where
  absent : ∀ pid, recordsOf pid calls = [] → files (auditPath pid) = none
  kept : ∀ pid, recordsOf pid calls ≠ [] → ∃ genesis : Genesis,
    files (auditPath pid) = (chainSite sha512 (genesis.hash sha512) (recordsOf pid calls)).file
  clean : ∀ pid, ∀ request ∈ recordsOf pid calls, request.Clean

theorem recordsOf_concat (pid : Nat) (calls : List Invocation) (call : Invocation) :
    recordsOf pid (calls ++ [call]) = recordsOf pid calls ++
      if call.process.pid = pid then requestsOf call.process call.argv else [] := by
  rw [recordsOf, List.flatMap_append, List.flatMap_singleton]
  rfl

variable {past : List Invocation} {files next : Files} {call : Invocation}

theorem Audited.opens (audited : Audited sha512 past files)
    (genesis : call.process.genesis.attempt.Succeeds) : ∃ started : Genesis,
    AuditSite.opened sha512 (files (auditPath call.process.pid)) call.process.genesis =
        chainSite sha512 (started.hash sha512) (recordsOf call.process.pid past) ∧
      (recordsOf call.process.pid past ≠ [] → files (auditPath call.process.pid) =
        (chainSite sha512 (started.hash sha512) (recordsOf call.process.pid past)).file) := by
  by_cases none : recordsOf call.process.pid past = []
  · refine ⟨call.process.genesis, ?_, fun some => absurd none some⟩
    rw [audited.absent _ none, none]
    exact fresh_site genesis
  · obtain ⟨started, file⟩ := audited.kept _ none
    refine ⟨started, ?_, fun _ => file⟩
    rw [file]
    exact construct_chain (sha512Hex_plain _) (audited.clean _) call.process.genesis

theorem Audited.step (audited : Audited sha512 past files) (step : Step sha512 files call next) :
    Audited sha512 (past ++ [call]) next ∧
      (call.exit = some .kOk → ∀ command ∈ Subcommand.remote, call.argv.head? ≠ some command.name) := by
  obtain ⟨started, opens, file⟩ := audited.opens step.genesis
  obtain ⟨left, remote⟩ := @main_serves sha512 _ _ call.process _ call.argv opens step.started
    step.occasion
  rw [step.exit] at remote
  refine ⟨⟨?_, ?_, ?_⟩, remote⟩
  · intro pid none
    rw [recordsOf_concat, List.append_eq_nil_iff] at none
    by_cases same : call.process.pid = pid
    · subst same
      rw [if_pos rfl] at none
      rw [step.effect, Function.update_self, left, if_pos none.2]
      exact audited.absent _ none.1
    · have elsewhere : auditPath pid ≠ auditPath call.process.pid :=
        fun paths => same (auditPath_injective paths).symm
      rw [step.effect, Function.update_of_ne elsewhere]
      exact audited.absent _ none.1
  · intro pid some
    rw [recordsOf_concat] at some ⊢
    by_cases same : call.process.pid = pid
    · subst same
      rw [if_pos rfl] at some ⊢
      refine ⟨started, ?_⟩
      rw [step.effect, Function.update_self, left]
      split_ifs with silent
      · rw [silent, List.append_nil] at some ⊢
        exact file some
      · rfl
    · rw [if_neg same, List.append_nil] at some ⊢
      have elsewhere : auditPath pid ≠ auditPath call.process.pid :=
        fun paths => same (auditPath_injective paths).symm
      rw [step.effect, Function.update_of_ne elsewhere]
      exact audited.kept _ some
  · intro pid request member
    rw [recordsOf_concat] at member
    rcases List.mem_append.mp member with before | new
    · exact audited.clean pid request before
    · split_ifs at new
      · exact (requestsOf_clean step.plain new).1
      · cases new

theorem recordsOf_local {calls : List Invocation} {pid : Nat} {request : AuditRequest}
    (plain : ∀ call ∈ calls, ∀ arg ∈ call.argv, Plain arg) (member : request ∈ recordsOf pid calls) :
    request.action ∈ [ActionType.nodeRegister, .whitelistUpdate, .credentialRotate, .auditExport] := by
  obtain ⟨call, inside, told⟩ := List.mem_flatMap.mp member
  split_ifs at told
  · exact (requestsOf_clean (plain call inside) told).2
  · cases told

/-- Whatever is run in whichever order: the log of an id is one chain of what its processes have
recorded, no process acts on another node, and none says that it did. -/
theorem cli_audited {calls : List Invocation}
    (run : Run (Step sha512) noFiles calls files) :
    (∀ pid, recordsOf pid calls = [] → files (auditPath pid) = none) ∧
    (∀ pid, recordsOf pid calls ≠ [] →
      (∃ genesis : Genesis, files (auditPath pid) =
        (chainSite sha512 (genesis.hash sha512) (recordsOf pid calls)).file) ∧
      AuditLogger.verifyChain sha512 (files (auditPath pid)) = .ok true) ∧
    (∀ pid, ∀ request ∈ recordsOf pid calls, request.action ∈
      [ActionType.nodeRegister, .whitelistUpdate, .credentialRotate, .auditExport]) ∧
    ∀ call ∈ calls, call.exit = some .kOk →
      ∀ command ∈ Subcommand.remote, call.argv.head? ≠ some command.name := by
  have all := @Run.history _ _ (Step sha512) (fun past files =>
    Audited sha512 past files ∧ ∀ call ∈ past, (∀ arg ∈ call.argv, Plain arg) ∧
      (call.exit = some .kOk → ∀ command ∈ Subcommand.remote, call.argv.head? ≠ some command.name)) (by
    rintro past files call next step ⟨audited, before⟩
    obtain ⟨after, remote⟩ := audited.step step
    refine ⟨after, fun other member => ?_⟩
    rcases List.mem_append.mp member with early | last
    · exact before other early
    · rw [List.mem_singleton.mp last]
      exact ⟨step.plain, remote⟩) [] _ _ _ run
    ⟨⟨fun _ _ => rfl, fun _ some => absurd rfl some, by simp [recordsOf]⟩, by simp⟩
  obtain ⟨audited, told⟩ := all
  refine ⟨audited.absent, fun pid some => ?_, ?_, fun call member => (told call member).2⟩
  · obtain ⟨genesis, file⟩ := audited.kept pid some
    refine ⟨⟨genesis, file⟩, ?_⟩
    rw [file]
    exact verify_chain (sha512Hex_plain _) (audited.clean pid)
  · intro pid request member
    exact recordsOf_local (fun call inside => (told call inside).1) member


def execAll (sha512 : Bytes → Bytes) : List (Process × List Bytes) → Files → List Invocation × Files
  | [], files => ([], files)
  | (process, argv) :: rest, files =>
      let (exit, state) := main sha512 process argv ⟨none, files (auditPath process.pid)⟩
      let (calls, final) :=
        execAll sha512 rest (Function.update files (auditPath process.pid) state.file)
      (⟨process, argv, exit⟩ :: calls, final)

def sampleProcess : Process := { pid := 7, genesis := { random := List.replicate 16 7, clock := 0 } }

def sampleCommands : List (Process × List Bytes) :=
  [(sampleProcess, [ascii "trust", ascii "add", ascii "node-1", List.replicate 64 70, ascii "exec"]),
    (sampleProcess, [ascii "run", ascii "--node", ascii "node-1", ascii "--", ascii "ls"])]

theorem execAll_run (commands : List (Process × List Bytes))
    (succeed : ∀ command ∈ commands, command.1.genesis.attempt.Succeeds ∧
      command.1.started.attempt.Succeeds ∧ command.1.occasion.attempt.Succeeds)
    (plain : ∀ command ∈ commands, ∀ arg ∈ command.2, Plain arg) (files : Files) :
    Run (Step sha512) files (execAll sha512 commands files).1 (execAll sha512 commands files).2 := by
  induction commands generalizing files with
  | nil => exact .nil
  | cons command rest ih =>
      obtain ⟨genesis, started, occasion⟩ := succeed command (by simp)
      exact .cons ⟨rfl, rfl, genesis, started, occasion, plain command (by simp)⟩
        (ih (fun other member => succeed other (by simp [member]))
          (fun other member => plain other (by simp [member])) _)

theorem cli_audited_sample :
    (execAll sampleSha512 sampleCommands noFiles).1.map Invocation.exit =
        [some .kOk, some .kWhitelistDenied] ∧
      AuditLogger.verifyChain sampleSha512
        ((execAll sampleSha512 sampleCommands noFiles).2 (auditPath 7)) = .ok true := by
  have run := @execAll_run sampleSha512 sampleCommands (by decide +kernel) (by decide +kernel)
    noFiles
  refine ⟨by decide +kernel, ((cli_audited run).2.1 7 ?_).2⟩
  decide +kernel

end Runs

end Cli

end Udaf
