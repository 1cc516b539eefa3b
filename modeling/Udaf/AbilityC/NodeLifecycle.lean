import Udaf.Core.ErrorCode
import Udaf.Lib.Run

/-!
`init`, `start`, `stop` and `reload` of the nodes in `ability_c/nodes/nodes.cpp` that have a
worker thread. The state of the node is a variable of its own beside the flag that the
worker obeys, and `init` and `reload` set it without a look at the flag.
-/

namespace Udaf

open Runs

inductive LifecycleState where
  | init
  | starting
  | running
  | reloading
  | stopping
  | stopped
  deriving DecidableEq

/-- `state_`, `running_`, and whether `worker_` is joinable. -/
structure WorkerNode where
  state : LifecycleState := .init
  running : Bool := false
  joinable : Bool := false
  deriving DecidableEq

namespace WorkerNode

/-- A call returns its result with the node after it; `none` when it ends the program. -/
abbrev Outcome := Option (Except ErrorCode Unit × WorkerNode)

def setState (node : WorkerNode) (s : LifecycleState) : WorkerNode := { node with state := s }

def init (node : WorkerNode) : Outcome := some (.ok (), node.setState .init)

/-- A thread that is still joinable cannot be assigned to. -/
def start (node : WorkerNode) : Outcome :=
  if node.running then some (.error .resourceBusy, node)
  else if node.joinable then none
  else some (.ok (), { node with running := true, joinable := true }.setState .running)

def stop (node : WorkerNode) : Outcome :=
  if node.running = false then some (.ok (), node.setState .stopped)
  else some (.ok (), { node with running := false, joinable := false }.setState .stopped)

def reload (node : WorkerNode) : Outcome :=
  some (.ok (), (node.setState .reloading).setState .running)

inductive Call where
  | init
  | start
  | stop
  | reload
  deriving DecidableEq

def call (node : WorkerNode) : Call → Outcome
  | .init => node.init
  | .start => node.start
  | .stop => node.stop
  | .reload => node.reload

end WorkerNode

namespace CmdExecNode

def init := WorkerNode.init

def start := WorkerNode.start

def stop := WorkerNode.stop

def reload := WorkerNode.reload

end CmdExecNode

namespace FileXferNode

def init := WorkerNode.init

def start := WorkerNode.start

def stop := WorkerNode.stop

def reload := WorkerNode.reload

end FileXferNode

namespace NetInfoNode

def init := WorkerNode.init

def start := WorkerNode.start

def stop := WorkerNode.stop

def reload := WorkerNode.reload

end NetInfoNode

inductive NodeKind where
  | cmdExec
  | fileXfer
  | netInfo

namespace WorkerNode

def callOf (kind : NodeKind) (node : WorkerNode) (called : Call) : Outcome :=
  match kind, called with
  | .cmdExec, .init => CmdExecNode.init node
  | .cmdExec, .start => CmdExecNode.start node
  | .cmdExec, .stop => CmdExecNode.stop node
  | .cmdExec, .reload => CmdExecNode.reload node
  | .fileXfer, .init => FileXferNode.init node
  | .fileXfer, .start => FileXferNode.start node
  | .fileXfer, .stop => FileXferNode.stop node
  | .fileXfer, .reload => FileXferNode.reload node
  | .netInfo, .init => NetInfoNode.init node
  | .netInfo, .start => NetInfoNode.start node
  | .netInfo, .stop => NetInfoNode.stop node
  | .netInfo, .reload => NetInfoNode.reload node

theorem callOf_eq (kind : NodeKind) (node : WorkerNode) (called : Call) :
    node.callOf kind called = node.call called := by
  cases kind <;> cases called <;> rfl

structure Event where
  call : Call
  before : WorkerNode
  result : Except ErrorCode Unit
  after : WorkerNode

def runCalls (kind : NodeKind) (node : WorkerNode) : List Call → Option (List Event)
  | [] => some []
  | called :: rest => do
      let (result, after) ← node.callOf kind called
      let events ← runCalls kind after rest
      some (⟨called, node, result, after⟩ :: events)

def Event.Revives (event : Event) : Prop :=
  (event.call = .start ∨ event.call = .init) ∧ event.result = .ok ()

structure Contract (events : List Event) : Prop where
  matching : ∀ event ∈ events, (event.after.state = .running ↔ event.after.running = true)
  busy : ∀ event ∈ events, event.call = .start → event.before.running = true →
    event.result = .error .resourceBusy ∧ event.after = event.before
  stopped : ∀ past first middle later, events = past ++ first :: (middle ++ later) →
    first.call = .stop → (∀ event ∈ middle, ¬ event.Revives) →
    ∀ event ∈ first :: middle, event.after.state = .stopped

def WellUsed : Bool → List Call → Prop
  | _, [] => True
  | up, .init :: rest => up = false ∧ WellUsed up rest
  | _, .start :: rest => WellUsed true rest
  | _, .stop :: rest => WellUsed false rest
  | up, .reload :: rest => up = true ∧ WellUsed up rest

inductive Effect (node : WorkerNode) : Call → Except ErrorCode Unit → WorkerNode → Prop where
  | init : Effect node .init (.ok ()) (node.setState .init)
  | busy (running : node.running = true) : Effect node .start (.error .resourceBusy) node
  | starts (idle : node.running = false) : Effect node .start (.ok ()) ⟨.running, true, true⟩
  | stop : Effect node .stop (.ok ()) ⟨.stopped, false, false⟩
  | reload : Effect node .reload (.ok ()) (node.setState .running)

theorem call_effect (kind : NodeKind) {node : WorkerNode} (joined : node.joinable = node.running)
    (called : Call) : ∃ result after, node.callOf kind called = some (result, after) ∧
      Effect node called result after ∧ after.joinable = after.running := by
  rw [callOf_eq]
  obtain ⟨state, running, joinable⟩ := node
  cases joined
  cases called with
  | init => exact ⟨_, _, rfl, .init, rfl⟩
  | start =>
      cases running with
      | true => exact ⟨_, _, rfl, .busy rfl, rfl⟩
      | false => exact ⟨_, _, rfl, .starts rfl, rfl⟩
  | stop => cases running <;> exact ⟨_, _, rfl, .stop, rfl⟩
  | reload => exact ⟨_, _, rfl, .reload, rfl⟩

def Step (node : WorkerNode) (event : Event) (next : WorkerNode) : Prop :=
  event.before = node ∧ event.after = next ∧ Effect node event.call event.result next

theorem runCalls_run (kind : NodeKind) {node : WorkerNode} (joined : node.joinable = node.running)
    (calls : List Call) : ∃ events final, runCalls kind node calls = some events ∧
      events.map Event.call = calls ∧ Run Step node events final := by
  induction calls generalizing node with
  | nil => exact ⟨[], node, rfl, rfl, .nil⟩
  | cons called rest ih =>
      obtain ⟨result, after, returns, effect, kept⟩ := call_effect kind joined called
      obtain ⟨events, final, ran, same, run⟩ := ih kept
      refine ⟨⟨called, node, result, after⟩ :: events, final, ?_, ?_, .cons ⟨rfl, rfl, effect⟩ run⟩
      · simp only [runCalls, returns, ran, Option.bind_eq_bind, Option.bind_some]
      · rw [List.map_cons, same]

theorem Effect.wellUsed {node next : WorkerNode} {called : Call} {result : Except ErrorCode Unit}
    (effect : Effect node called result next) (rest : List Call) :
    WellUsed node.running (called :: rest) ↔
      ((called = .init → node.running = false) ∧ (called = .reload → node.running = true)) ∧
        WellUsed next.running rest := by
  cases effect with
  | init => simp [WellUsed, setState]
  | busy running => simp [WellUsed, running]
  | starts => simp [WellUsed]
  | stop => simp [WellUsed]
  | reload => simp [WellUsed, setState]

def Matching (node : WorkerNode) : Prop := node.state = .running ↔ node.running = true

theorem Effect.matching_iff {node next : WorkerNode} {called : Call}
    {result : Except ErrorCode Unit} (effect : Effect node called result next)
    (matching : node.Matching) : next.Matching ↔
      (called = .init → node.running = false) ∧ (called = .reload → node.running = true) := by
  cases effect with
  | init => simp [Matching, setState]
  | busy => simpa using matching
  | starts => simp [Matching]
  | stop => simp [Matching]
  | reload => simp [Matching, setState]

theorem run_matching_iff {node final : WorkerNode} {events : List Event}
    (run : Run Step node events final) (matching : node.Matching) :
    (∀ event ∈ events, event.after.Matching) ↔ WellUsed node.running (events.map Event.call) := by
  induction run with
  | nil => simp [WellUsed]
  | @cons node next final event events step rest ih =>
      obtain ⟨-, after, effect⟩ := step
      rw [List.forall_mem_cons, List.map_cons, effect.wellUsed, after]
      have one := effect.matching_iff matching
      constructor
      · rintro ⟨here, later⟩
        exact ⟨one.mp here, (ih here).mp later⟩
      · rintro ⟨allowed, later⟩
        have here := one.mpr allowed
        exact ⟨here, (ih here).mpr later⟩

theorem run_wellUsed {node middle : WorkerNode} {front : List Event} (run : Run Step node front middle)
    {back : List Call} (used : WellUsed node.running (front.map Event.call ++ back)) :
    WellUsed middle.running back := by
  induction run with
  | nil => exact used
  | cons step _ ih =>
      obtain ⟨-, -, effect⟩ := step
      exact ih ((effect.wellUsed _).mp used).2

theorem run_stopped {node final : WorkerNode} {events : List Event} (run : Run Step node events final)
    {back : List Call} (used : WellUsed node.running (events.map Event.call ++ back))
    (idle : node.running = false) (stopped : node.state = .stopped)
    (quiet : ∀ event ∈ events, ¬ event.Revives) :
    ∀ event ∈ events, event.after.state = .stopped := by
  induction run with
  | nil => exact fun _ member => nomatch member
  | @cons node next final event events step rest ih =>
      obtain ⟨-, after, effect⟩ := step
      obtain ⟨first, later⟩ := List.forall_mem_cons.mp quiet
      obtain ⟨⟨-, reloads⟩, usedLater⟩ := (effect.wellUsed _).mp used
      have still : next.running = false ∧ next.state = .stopped := by
        obtain ⟨called, before, result, after⟩ := event
        cases effect with
        | init => exact absurd ⟨.inr rfl, rfl⟩ first
        | busy running =>
            rw [idle] at running
            cases running
        | starts => exact absurd ⟨.inl rfl, rfl⟩ first
        | stop => exact ⟨rfl, rfl⟩
        | reload =>
            have running := reloads rfl
            rw [idle] at running
            cases running
      rw [List.forall_mem_cons, after]
      exact ⟨still.2, ih usedLater still.1 still.2 later⟩

theorem Step.busy {node next : WorkerNode} {event : Event} (step : Step node event next)
    (called : event.call = .start) (running : event.before.running = true) :
    event.result = .error .resourceBusy ∧ event.after = event.before := by
  obtain ⟨before, after, effect⟩ := step
  rw [before, after]
  rw [before] at running
  obtain ⟨call, _, result, _⟩ := event
  cases called
  cases effect with
  | busy => exact ⟨rfl, rfl⟩
  | starts idle =>
      rw [running] at idle
      cases idle

theorem contract_of_run {node final : WorkerNode} {events : List Event}
    (run : Run Step node events final) (matching : node.Matching) :
    Contract events ↔ WellUsed node.running (events.map Event.call) := by
  constructor
  · intro contract
    exact (run_matching_iff run matching).mp contract.matching
  · intro used
    refine ⟨(run_matching_iff run matching).mpr used, ?_, ?_⟩
    · intro event member called running
      obtain ⟨past, later, rfl⟩ := List.append_of_mem member
      obtain ⟨_, _, _, step⟩ := run.before
      exact step.busy called running
    · rintro past first middle later rfl called quiet
      obtain ⟨before, front, back⟩ := run.split
      rw [List.map_append] at used
      have usedBack := run_wellUsed front used
      cases back with
      | cons step rest =>
          obtain ⟨-, after, effect⟩ := step
          obtain ⟨_, during, _⟩ := rest.split
          rw [List.map_cons, effect.wellUsed, List.map_append] at usedBack
          rw [List.forall_mem_cons, after]
          obtain ⟨call, _, result, _⟩ := first
          cases called
          cases effect with
          | stop => exact ⟨rfl, run_stopped during usedBack.2 rfl rfl quiet⟩

/-- Any calls can be made, and the state tells the truth exactly if they are made in good order. -/
theorem lifecycle_contract_iff (kind : NodeKind) (calls : List Call) :
    ∃ events, runCalls kind {} calls = some events ∧ events.map Event.call = calls ∧
      (Contract events ↔ WellUsed false calls) := by
  obtain ⟨events, final, ran, same, run⟩ := @runCalls_run kind {} rfl calls
  refine ⟨events, ran, same, ?_⟩
  rw [← same]
  exact contract_of_run run ⟨nofun, nofun⟩

/-- A `reload` on a node that was never started makes it look like a running one. -/
theorem reload_without_start :
    ¬ ∀ (kind : NodeKind) (calls : List Call) (events : List Event),
      runCalls kind {} calls = some events → Contract events := by
  intro claimed
  have contract := claimed .cmdExec [.reload] _ rfl
  have running := (contract.matching _ List.mem_cons_self).mp rfl
  cases running

end WorkerNode

end Udaf
