import Udaf.Lib.Decimal
import Udaf.Sdk.Client

/-!
The command line of `cli/cli.cpp` and `cli/main.cpp`: a process runs the handler of one
subcommand, over a client that the process keeps for itself. Exit `none` is an exception that
nothing catches; what the handlers print is left out.
-/

namespace Udaf

open ByteString Decimal OutStream

inductive ExitCode where
  | kOk
  | kUsage
  | kUnknownCmd
  | kAuth
  | kNet
  | kTimeout
  | kResourceBusy
  | kInvalidArg
  | kInternal
  | kNotImplemented
  | kWhitelistDenied
  | kPartial
  | kPermission
  | kConfig
  deriving DecidableEq, Repr

/-- What a process meets: its id, the entropy of a new log, and the clock and the file system
at the start of its client and at the call that follows. -/
structure Process where
  pid : Nat
  genesis : Genesis
  started : Occasion := {}
  occasion : Occasion := {}
  deriving DecidableEq

inductive Subcommand where
  | discover
  | run
  | push
  | pull
  | topology
  | node
  | trust
  | psk
  | auth
  | migrate
  | config
  | completion
  | version
  | help
  deriving DecidableEq, Repr

namespace Subcommand

def name : Subcommand → Bytes
  | discover => ascii "discover"
  | run => ascii "run"
  | push => ascii "push"
  | pull => ascii "pull"
  | topology => ascii "topology"
  | node => ascii "node"
  | trust => ascii "trust"
  | psk => ascii "psk"
  | auth => ascii "auth"
  | migrate => ascii "migrate"
  | config => ascii "config"
  | completion => ascii "completion"
  | version => ascii "version"
  | help => ascii "help"

def all : List Subcommand :=
  [discover, run, push, pull, topology, node, trust, psk, auth, migrate, config, completion,
    version, help]

def find (sub : Bytes) : Option Subcommand := all.find? fun command => command.name = sub

end Subcommand

namespace Cli

def nodeId (pid : Nat) : Bytes := ascii "cli-" ++ decimal pid

def auditPath (pid : Nat) : Bytes := ascii "/tmp/udaf_cli_" ++ nodeId pid ++ ascii ".log"

def clientConfig (pid : Nat) : ClientConfig where
  nodeId := nodeId pid
  auditPath := auditPath pid

structure State where
  globalClient : Option Client
  file : Option Bytes

def exitOf {α : Type} (failed : ExitCode) : Except ErrorCode α → ExitCode
  | .ok _ => .kOk
  | .error _ => failed

section Digest

variable (sha512 : Bytes → Bytes)

def currentClient (process : Process) (state : State) : ClientSite :=
  match state.globalClient with
  | some client => ⟨client, state.file⟩
  | none =>
      (ClientSite.opened sha512 (clientConfig process.pid) state.file process.genesis).start sha512
        process.started

def withClient (process : Process) (state : State)
    (body : ClientSite → Option ExitCode × ClientSite) : Option ExitCode × State :=
  let (exit, site) := body (currentClient sha512 process state)
  (exit, ⟨some site.client, site.file⟩)

/-- The `--filter` option is read, printed and passed to a `discover` that ignores it. -/
def cmdDiscover (process : Process) (_args : List Bytes) (state : State) : Option ExitCode × State :=
  withClient sha512 process state fun site => (some .kOk, site)

def cmdRun (process : Process) (args : List Bytes) (state : State) : Option ExitCode × State :=
  match args with
  | flag :: nodeId :: separator :: rest =>
      if flag ≠ ascii "--node" then (some .kUsage, state)
      else
        withClient sha512 process state fun site =>
          if separator ≠ ascii "--" then (some .kUsage, site)
          else
            match rest with
            | [] => (some .kUsage, site)
            | command :: cmdArgs =>
                let (result, site) := site.runRemote sha512 process.occasion nodeId command cmdArgs
                (some (exitOf .kWhitelistDenied result), site)
  | _ => (some .kUsage, state)

def cmdTopology (process : Process) (args : List Bytes) (state : State) : Option ExitCode × State :=
  withClient sha512 process state fun site =>
    if args.head? = some (ascii "show") then (some .kOk, site) else (some .kUnknownCmd, site)

def cmdNode (process : Process) (args : List Bytes) (state : State) : Option ExitCode × State :=
  withClient sha512 process state fun site =>
    match args with
    | [] => (some .kUsage, site)
    | first :: rest =>
        if first = ascii "list" then (some .kOk, site)
        else if first = ascii "register" then
          match rest with
          | nodeId :: hostname :: bindAddr :: port :: _ =>
              match stoi port with
              | none => (none, site)
              | some number =>
                  let (result, site) :=
                    site.registerNode nodeId hostname bindAddr (UInt16.ofInt number.toInt)
                  (some (exitOf .kInvalidArg result), site)
          | _ => (some .kUsage, site)
        else if first = ascii "unregister" then
          match rest with
          | nodeId :: _ =>
              let (result, site) := site.unregisterNode nodeId
              (some (exitOf .kInvalidArg result), site)
          | [] => (some .kUsage, site)
        else (some .kUsage, site)

def cmdTrust (process : Process) (args : List Bytes) (state : State) : Option ExitCode × State :=
  withClient sha512 process state fun site =>
    match args with
    | [] => (some .kUsage, site)
    | first :: rest =>
        if first = ascii "list" then (some .kOk, site)
        else if first = ascii "add" then
          match rest with
          | nodeId :: fingerprintHex :: capability :: more =>
              let (result, site) :=
                site.trustAdd sha512 process.occasion nodeId fingerprintHex (capability :: more)
              (some (exitOf .kInvalidArg result), site)
          | _ => (some .kUsage, site)
        else if first = ascii "remove" then
          match rest with
          | nodeId :: _ =>
              let (result, site) := site.trustRemove sha512 process.occasion nodeId
              (some (exitOf .kInvalidArg result), site)
          | [] => (some .kUsage, site)
        else (some .kUsage, site)

def cmdPsk (process : Process) (args : List Bytes) (state : State) : Option ExitCode × State :=
  withClient sha512 process state fun site =>
    match args with
    | first :: newPskPath :: _ =>
        if first = ascii "rotate" then
          let (result, site) := site.pskRotate sha512 process.occasion newPskPath
          (some (exitOf .kInvalidArg result), site)
        else (some .kUsage, site)
    | _ => (some .kUsage, site)

def cmdAuth (process : Process) (args : List Bytes) (state : State) : Option ExitCode × State :=
  withClient sha512 process state fun site =>
    match args with
    | first :: nodeId :: _ =>
        if first = ascii "psk" then
          let (result, site) := site.authPsk sha512 process.occasion nodeId
          (some (exitOf .kWhitelistDenied result), site)
        else (some .kUsage, site)
    | _ => (some .kUsage, site)

def cmdMigrate (process : Process) (args : List Bytes) (state : State) : Option ExitCode × State :=
  withClient sha512 process state fun site =>
    match args with
    | srcPath :: dstPath :: _ =>
        let (result, site) := site.migrate sha512 process.occasion srcPath dstPath
        (some (exitOf .kInvalidArg result), site)
    | _ => (some .kUsage, site)

def cmdConfig (process : Process) (args : List Bytes) (state : State) : Option ExitCode × State :=
  withClient sha512 process state fun site =>
    if args.head? = some (ascii "show") then (some .kOk, site) else (some .kUsage, site)

def cmdPush (process : Process) (args : List Bytes) (state : State) : Option ExitCode × State :=
  withClient sha512 process state fun site =>
    match args with
    | src :: dstNode :: dstPath :: _ =>
        let (result, site) := site.pushFile sha512 process.occasion src dstNode dstPath
        (some (exitOf .kWhitelistDenied result), site)
    | _ => (some .kUsage, site)

def cmdPull (process : Process) (args : List Bytes) (state : State) : Option ExitCode × State :=
  withClient sha512 process state fun site =>
    match args with
    | srcNode :: srcPath :: dst :: _ =>
        let (result, site) := site.pullFile sha512 process.occasion srcNode srcPath dst
        (some (exitOf .kWhitelistDenied result), site)
    | _ => (some .kUsage, site)

def cmdCompletion (args : List Bytes) (state : State) : Option ExitCode × State :=
  let shell := args.head?.getD (ascii "bash")
  if shell = ascii "bash" ∨ shell = ascii "zsh" ∨ shell = ascii "fish" then (some .kOk, state)
  else (some .kUnknownCmd, state)

def handler (process : Process) (args : List Bytes) (state : State) :
    Subcommand → Option ExitCode × State
  | .discover => cmdDiscover sha512 process args state
  | .run => cmdRun sha512 process args state
  | .push => cmdPush sha512 process args state
  | .pull => cmdPull sha512 process args state
  | .topology => cmdTopology sha512 process args state
  | .node => cmdNode sha512 process args state
  | .trust => cmdTrust sha512 process args state
  | .psk => cmdPsk sha512 process args state
  | .auth => cmdAuth sha512 process args state
  | .migrate => cmdMigrate sha512 process args state
  | .config => cmdConfig sha512 process args state
  | .completion => cmdCompletion args state
  | .version => (some .kOk, state)
  | .help => (some .kOk, state)

def main (process : Process) (argv : List Bytes) (state : State) : Option ExitCode × State :=
  match argv with
  | [] => (some .kUsage, state)
  | sub :: rest =>
      if sub = ascii "-h" ∨ sub = ascii "--help" then (some .kOk, state)
      else
        match Subcommand.find sub with
        | none => (some .kUnknownCmd, state)
        | some command => handler sha512 process rest state command

end Digest

end Cli

end Udaf
