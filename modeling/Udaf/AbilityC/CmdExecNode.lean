import Udaf.AbilityC.FileXferAcks
import Udaf.AbilityC.NodeLifecycle
import Udaf.AbilityC.ProcessExecutor
import Udaf.Lib.Conveyor

/-!
The worker of `CmdExecNode` between its two ports, with the child that it runs: what is asked
for, what is run, and what is answered. `start` and `stop` are there as what they do to the
flag and the thread.
-/

namespace Udaf

open ByteString Runs Conveyor
open ProcessExecutor (Child Execution bytesOf)

structure CmdRequest where
  command : Bytes
  args : List Bytes := []
  deriving DecidableEq

structure CmdResult where
  exitCode : Int := -1
  stdoutText : Bytes := []
  stderrText : Bytes := []
  deriving DecidableEq

namespace CmdExecNode

/-- What became of a request: the child that was run for it, or the error of `execute`. -/
structure Outcome where
  request : CmdRequest
  ran : Except ErrorCode Child

inductive Worker where
  | ended
  | loop
  | waits
  | handles (request : CmdRequest)
  | executes (request : CmdRequest) (child : Child) (execution : Execution)
  | sends (outcome : Outcome) (result : CmdResult)

def Worker.afterTurn : InputPort.RecvTurn CmdRequest → Worker
  | .done (.ok request) => .handles request
  | .done (.error _) => .loop
  | .waits => .waits

structure System where
  allowed : List Bytes := []
  running : Bool := false
  inCmd : InputPort CmdRequest := { capacity := 64 }
  outResult : OutputPort CmdResult := ⟨none⟩
  worker : Worker := .ended

def options (allowed : List Bytes) (request : CmdRequest) : ProcessExecutor.Options where
  executable := request.command
  args := request.args
  allowedExecutables := allowed

def resultOf (returned : ProcessExecutor.Result) : CmdResult where
  exitCode := returned.exitCode
  stdoutText := returned.stdoutText
  stderrText := returned.stderrText

def execFailed : CmdResult := { exitCode := -1, stderrText := ascii "exec failed" }

inductive Event where
  | started
  | stopped
  | left
  | offered (request : CmdRequest) (result : Except ErrorCode Unit)
  | turned (turn : InputPort.RecvTurn CmdRequest)
  | spawned (request : CmdRequest) (child : Child)
  | failed (request : CmdRequest) (code : ErrorCode)
  | ran (event : ProcessExecutor.Event)
  | returned (result : CmdResult)
  | sent (result : CmdResult) (reply : Except ErrorCode Unit)
  | consumed (label : InputPort.Label CmdResult)

/-- A pipe of the child holds `capacity` bytes. A node is started again only when the `stop` before
has seen its thread end. -/
inductive Step (capacity : Nat) : System → Event → System → Prop where
  | start {system : System} (down : system.running = false) (joined : system.worker = .ended) :
      Step capacity system .started { system with running := true, worker := .loop }
  | stop {system : System} : Step capacity system .stopped { system with running := false }
  | leave {system : System} (loop : system.worker = .loop) (down : system.running = false) :
      Step capacity system .left { system with worker := .ended }
  | push {system : System} (request : CmdRequest) {result : Except ErrorCode Unit}
      {after : InputPort CmdRequest} (pushed : system.inCmd.push request = (result, after)) :
      Step capacity system (.offered request result) { system with inCmd := after }
  | recvEnters {system : System} (loop : system.worker = .loop) (up : system.running = true)
      {turn : InputPort.RecvTurn CmdRequest} {after : InputPort CmdRequest}
      (entered : system.inCmd.recvEnter 100 = (turn, after)) :
      Step capacity system (.turned turn) { system with inCmd := after, worker := .afterTurn turn }
  | rechecks {system : System} (waits : system.worker = .waits) (expired : Bool)
      {turn : InputPort.RecvTurn CmdRequest} {after : InputPort CmdRequest}
      (rechecked : system.inCmd.recheck expired = (turn, after)) :
      Step capacity system (.turned turn) { system with inCmd := after, worker := .afterTurn turn }
  | spawns {system : System} {request : CmdRequest} (handles : system.worker = .handles request)
      (posixSpawnp : List Bytes → Option Child) {child : Child}
      (found : posixSpawnp (request.command :: request.args) = some child) {execution : Execution}
      (spawned : ProcessExecutor.spawn (options system.allowed request) true posixSpawnp = .ok execution) :
      Step capacity system (.spawned request child)
        { system with worker := .executes request child execution }
  | fails {system : System} {request : CmdRequest} (handles : system.worker = .handles request)
      (piped : Bool) (posixSpawnp : List Bytes → Option Child) {code : ErrorCode}
      (failed : ProcessExecutor.spawn (options system.allowed request) piped posixSpawnp = .error code) :
      Step capacity system (.failed request code)
        { system with worker := .sends ⟨request, .error code⟩ execFailed }
  | runs {system : System} {request : CmdRequest} {child : Child} {execution next : Execution}
      (executes : system.worker = .executes request child execution) {event : ProcessExecutor.Event}
      (step : ProcessExecutor.Step capacity execution event next) :
      Step capacity system (.ran event) { system with worker := .executes request child next }
  | returns {system : System} {request : CmdRequest} {child : Child} {execution : Execution}
      (executes : system.worker = .executes request child execution) {result : ProcessExecutor.Result}
      (returned : execution.parent = .returned result) :
      Step capacity system (.returned (resultOf result))
        { system with worker := .sends ⟨request, .ok child⟩ (resultOf result) }
  | trySend {system : System} {outcome : Outcome} {result : CmdResult}
      (sends : system.worker = .sends outcome result) {reply : Except ErrorCode Unit}
      {after : OutputPort CmdResult} (sent : system.outResult.trySend result = (reply, after)) :
      Step capacity system (.sent result reply) { system with outResult := after, worker := .loop }
  | consume {system : System} {port after : InputPort CmdResult}
      (bound : system.outResult.target = some port) {label : InputPort.Label CmdResult}
      (receives : FileXferNode.Receives port label after) :
      Step capacity system (.consumed label) { system with outResult := ⟨some after⟩ }

def Event.accepted : Event → List CmdRequest
  | .offered request (.ok _) => [request]
  | _ => []

def Event.outcomes : Event → List Outcome
  | .spawned request child => [⟨request, .ok child⟩]
  | .failed request code => [⟨request, .error code⟩]
  | _ => []

def Event.attempted : Event → List CmdResult
  | .sent result _ => [result]
  | _ => []

def Event.delivered : Event → List CmdResult
  | .sent result reply => (InputPort.Label.pushed result reply).accepted
  | _ => []

def Event.received : Event → List CmdResult
  | .consumed label => label.returned
  | _ => []

def Worker.taken : Worker → List CmdRequest
  | .handles request => [request]
  | _ => []

def Worker.decided : Worker → List Outcome
  | .executes request child _ => [⟨request, .ok child⟩]
  | .sends outcome _ => [outcome]
  | _ => []

def Permitted (allowed : List Bytes) (request : CmdRequest) : Prop :=
  request.command ≠ [] ∧ request.command ∈ allowed

instance decidablePermitted (allowed : List Bytes) (request : CmdRequest) :
    Decidable (Permitted allowed request) :=
  inferInstanceAs (Decidable (_ ∧ _))

/-- The answer that an outcome calls for: the exit code and the output of the child that was run. -/
def Outcome.answer (outcome : Outcome) : CmdResult :=
  match outcome.ran with
  | .ok child => ⟨child.status.exitCode, bytesOf .stdout child.writes, bytesOf .stderr child.writes⟩
  | .error _ => execFailed

structure Decides (allowed : List Bytes) (request : CmdRequest) (outcome : Outcome) : Prop where
  same : outcome.request = request
  runs : ∀ child, outcome.ran = .ok child → Permitted allowed request
  fails : ∀ code, outcome.ran = .error code → (code = .internal ↔ Permitted allowed request)

theorem spawn_decides {allowed : List Bytes} {request : CmdRequest} {piped : Bool}
    {posixSpawnp : List Bytes → Option Child} {code : ErrorCode}
    (failed : ProcessExecutor.spawn (options allowed request) piped posixSpawnp = .error code) :
    code = .internal ↔ Permitted allowed request := by
  rw [Permitted, ← ProcessExecutor.inWhitelist_iff]
  unfold ProcessExecutor.spawn options at failed
  simp only at failed
  split at failed
  · rename_i empty
    cases failed
    have unnamed : request.command = [] := List.isEmpty_iff.mp empty
    simp [unnamed]
  · rename_i named
    have some_name : request.command ≠ [] := by simpa using named
    split at failed
    · rename_i refused
      cases failed
      simp [refused]
    · rename_i allowed
      have listed : ProcessExecutor.inWhitelist request.command _ = true := Bool.of_not_eq_false allowed
      have internal : code = .internal := by
        split at failed
        · cases failed
          rfl
        · split at failed
          · cases failed
            rfl
          · cases failed
      simp [internal, listed, some_name]

structure RunsOn (child : Child) (execution : Execution) : Prop where
  books : ProcessExecutor.Invariant child.writes execution
  status : execution.status = child.status
  code : ∀ result, execution.parent = .returned result → result.exitCode = child.status.exitCode

theorem started_runsOn (child : Child) : RunsOn child (ProcessExecutor.started child) where
  books := ProcessExecutor.start_invariant child
  status := rfl
  code := by
    intro result returned
    cases returned

theorem RunsOn.step {capacity : Nat} {child : Child} {execution next : Execution}
    {event : ProcessExecutor.Event} (runs : RunsOn child execution)
    (step : ProcessExecutor.Step capacity execution event next) : RunsOn child next := by
  refine ⟨ProcessExecutor.step_invariant step runs.books, ?_, ?_⟩
  · cases step <;> exact runs.status
  · intro result returned
    cases step with
    | write | exit | read => exact runs.code result returned
    | @ends stream => cases stream <;> cases returned
    | waitpid =>
        cases returned
        rw [runs.status]

theorem RunsOn.answer {child : Child} {execution : Execution} (runs : RunsOn child execution)
    {result : ProcessExecutor.Result} (returned : execution.parent = .returned result)
    (request : CmdRequest) : resultOf result = (⟨request, .ok child⟩ : Outcome).answer := by
  obtain ⟨out, err⟩ := runs.books.returned returned
  rw [resultOf, runs.code result returned, out, err]
  rfl

theorem turn_queue {τ : Type} {port after : InputPort τ} {turn : InputPort.RecvTurn τ}
    (effect : InputPort.Effect port turn.label after) :
    port.queue = turn.label.returned ++ after.queue := by
  have none_accepted : turn.label.accepted = [] := by cases turn <;> rfl
  rw [← effect.queue, none_accepted, List.append_nil]

theorem push_queue {τ : Type} {port after : InputPort τ} {v : τ} {result : Except ErrorCode Unit}
    (pushed : port.push v = (result, after)) :
    after.queue = port.queue ++ (InputPort.Label.pushed v result).accepted := by
  have effect := InputPort.push_effect port v
  rw [pushed] at effect
  exact effect.queue.symm

structure Flow (allowed : List Bytes) (past : List Event) (system : System) : Prop where
  listed : system.allowed = allowed
  requests : Carried (Decides allowed) (past.flatMap Event.accepted)
    (system.worker.taken ++ system.inCmd.queue) (past.flatMap Event.outcomes)
  results : Carried (fun outcome result => result = outcome.answer) (past.flatMap Event.outcomes)
    system.worker.decided (past.flatMap Event.attempted)
  executes : ∀ request child execution, system.worker = .executes request child execution →
    RunsOn child execution
  sends : ∀ outcome result, system.worker = .sends outcome result → result = outcome.answer

section Steps

variable {capacity : Nat} {allowed : List Bytes} {past : List Event} {system next : System}
  {event : Event}

theorem Flow.quiet (flow : Flow allowed past system) (same : next.allowed = system.allowed)
    (requests : next.worker.taken ++ next.inCmd.queue = system.worker.taken ++ system.inCmd.queue)
    (decided : next.worker.decided = system.worker.decided)
    (silent : event.accepted = [] ∧ event.outcomes = [] ∧ event.attempted = [])
    (executes : ∀ request child execution, next.worker = .executes request child execution →
      RunsOn child execution)
    (sends : ∀ outcome result, next.worker = .sends outcome result → result = outcome.answer) :
    Flow allowed (past ++ [event]) next := by
  obtain ⟨accepted, outcomes, attempted⟩ := silent
  refine ⟨same.trans flow.listed, ?_, ?_, executes, sends⟩
  · rw [requests]
    simpa [accepted, outcomes] using flow.requests
  · rw [decided]
    simpa [outcomes, attempted] using flow.results

theorem Flow.turn (flow : Flow allowed past system) (free : system.worker.taken = [])
    (none_decided : system.worker.decided = []) {turn : InputPort.RecvTurn CmdRequest}
    {after : InputPort CmdRequest} (effect : InputPort.Effect system.inCmd turn.label after) :
    Flow allowed (past ++ [.turned turn])
      { system with inCmd := after, worker := .afterTurn turn } := by
  have queue := turn_queue effect
  have taken : (Worker.afterTurn turn).taken = turn.label.returned := by
    cases turn with
    | done result => cases result <;> rfl
    | waits => rfl
  have decided : (Worker.afterTurn turn).decided = [] := by
    cases turn with
    | done result => cases result <;> rfl
    | waits => rfl
  refine flow.quiet rfl ?_ (decided.trans none_decided.symm) ⟨rfl, rfl, rfl⟩ ?_ ?_
  · rw [free, queue, taken]
    rfl
  · intro request child execution executes
    cases turn with
    | done result => cases result <;> cases executes
    | waits => cases executes
  · intro outcome result sends
    cases turn with
    | done result => cases result <;> cases sends
    | waits => cases sends

theorem Flow.decides (flow : Flow allowed past system) {request : CmdRequest}
    (handles : system.worker = .handles request) {worker : Worker} {outcome : Outcome}
    (decides : Decides allowed request outcome) (taken : worker.taken = [])
    (decided : worker.decided = [outcome]) (accepted : event.accepted = [])
    (outcomes : event.outcomes = [outcome]) (attempted : event.attempted = [])
    (executes : ∀ request child execution, worker = .executes request child execution →
      RunsOn child execution)
    (sends : ∀ outcome result, worker = .sends outcome result → result = outcome.answer) :
    Flow allowed (past ++ [event]) { system with worker := worker } := by
  have requests := flow.requests
  have results := flow.results
  have empty : system.worker.decided = [] := by
    rw [handles]
    rfl
  rw [handles] at requests
  rw [empty] at results
  refine ⟨flow.listed, ?_, ?_, executes, sends⟩
  · simpa [accepted, outcomes, taken] using requests.leave decides
  · simpa [outcomes, attempted, decided] using results.enter [outcome]

theorem step_flow (step : Step capacity system event next) (flow : Flow allowed past system) :
    Flow allowed (past ++ [event]) next := by
  cases step with
  | start down joined =>
      refine flow.quiet rfl ?_ ?_ ⟨rfl, rfl, rfl⟩ (fun _ _ _ none => by cases none)
        (fun _ _ none => by cases none)
      · rw [joined]
        rfl
      · rw [joined]
        rfl
  | stop => exact flow.quiet rfl rfl rfl ⟨rfl, rfl, rfl⟩ flow.executes flow.sends
  | leave loop down =>
      refine flow.quiet rfl ?_ ?_ ⟨rfl, rfl, rfl⟩ (fun _ _ _ none => by cases none)
        (fun _ _ none => by cases none)
      · rw [loop]
        rfl
      · rw [loop]
        rfl
  | @push request result after pushed =>
      have queue := push_queue pushed
      have entered := flow.requests.enter (InputPort.Label.pushed request result).accepted
      have accepted : (Event.offered request result).accepted =
          (InputPort.Label.pushed request result).accepted := by
        cases result <;> rfl
      refine ⟨flow.listed, ?_, ?_, flow.executes, flow.sends⟩
      · rw [List.append_assoc, ← queue] at entered
        simpa [accepted, Event.outcomes] using entered
      · simpa [Event.outcomes, Event.attempted] using flow.results
  | recvEnters loop up entered =>
      have effect := InputPort.recvEnter_effect system.inCmd 100
      rw [entered] at effect
      exact flow.turn (by rw [loop]; rfl) (by rw [loop]; rfl) effect
  | rechecks waits expired rechecked =>
      have effect := InputPort.recheck_effect system.inCmd expired
      rw [rechecked] at effect
      exact flow.turn (by rw [waits]; rfl) (by rw [waits]; rfl) effect
  | @spawns request handles posixSpawnp child found execution spawned =>
      obtain ⟨named, listed, -, other, same, started⟩ := ProcessExecutor.spawn_ok_iff.mp spawned
      have one : other = child := by
        have both : some other = some child := same.symm.trans found
        cases both
        rfl
      rw [one] at started
      subst started
      rw [flow.listed] at listed
      have decides : Decides allowed request ⟨request, .ok child⟩ :=
        ⟨rfl, fun _ _ => ⟨named, listed⟩, (fun _ failed => by cases failed)⟩
      refine flow.decides handles decides rfl rfl rfl rfl rfl ?_ (fun _ _ none => by cases none)
      intro other ran now executes
      cases executes
      exact started_runsOn child
  | @fails request handles piped posixSpawnp code failed =>
      rw [flow.listed] at failed
      have decides : Decides allowed request ⟨request, .error code⟩ := by
        refine ⟨rfl, (fun _ ran => by cases ran), ?_⟩
        intro other same
        cases same
        exact spawn_decides failed
      refine flow.decides handles decides rfl rfl rfl rfl rfl (fun _ _ _ none => by cases none) ?_
      intro outcome result sends
      cases sends
      rfl
  | @runs request child execution next executes event step =>
      refine flow.quiet rfl ?_ ?_ ⟨rfl, rfl, rfl⟩ ?_ (fun _ _ none => by cases none)
      · rw [executes]
        rfl
      · rw [executes]
        rfl
      · intro other ran now still
        cases still
        exact (flow.executes _ _ _ executes).step step
  | @returns request child execution executes result returned =>
      refine flow.quiet rfl ?_ ?_ ⟨rfl, rfl, rfl⟩ (fun _ _ _ none => by cases none) ?_
      · rw [executes]
        rfl
      · rw [executes]
        rfl
      · intro outcome answer sends
        cases sends
        exact (flow.executes _ _ _ executes).answer returned request
  | @trySend outcome result sends reply after sent =>
      have requests := flow.requests
      have results := flow.results
      rw [sends] at requests results
      refine ⟨flow.listed, ?_, ?_, (fun _ _ _ none => by cases none), (fun _ _ none => by cases none)⟩
      · simpa [Event.accepted, Event.outcomes, Worker.taken] using requests
      · simpa [Event.outcomes, Event.attempted, Worker.decided] using
          results.leave (flow.sends outcome result sends)
  | consume => exact flow.quiet rfl rfl rfl ⟨rfl, rfl, rfl⟩ flow.executes flow.sends

end Steps

def Event.run : Event → List CmdRequest
  | .spawned request _ => [request]
  | _ => []

def Outcome.run (outcome : Outcome) : List CmdRequest :=
  match outcome.ran with
  | .ok _ => [outcome.request]
  | .error _ => []

/-- What the port of the answers held and took is what its readers have got and what it holds. -/
def Arrives (outResult : OutputPort CmdResult) (past : List Event) (system : System) : Prop :=
  Buffered outResult.held (past.flatMap Event.delivered) (past.flatMap Event.received)
    system.outResult.held

/-- The node against the requests that its port accepted. -/
structure Contract (allowed : List Bytes) (outResult : OutputPort CmdResult) (events : List Event)
    (final : System) : Prop where
  /-- Each request is decided once and in order: a child is run for it, or `execute` fails. Each of
  these is then answered once and in order, with the output of that very child. -/
  answers : ∃ taken decided, taken.length + decided.length ≤ 1 ∧
    Carried (Decides allowed) (events.flatMap Event.accepted) (taken ++ final.inCmd.queue)
      (events.flatMap Event.outcomes) ∧
    Carried (fun outcome result => result = outcome.answer) (events.flatMap Event.outcomes) decided
      (events.flatMap Event.attempted)
  /-- The answers that the port takes come out of it in order; the others are lost. -/
  arrives : Arrives outResult events final
  /-- Only permitted requests are run, once each and in order. -/
  runs : (events.flatMap Event.run).Sublist
    ((events.flatMap Event.accepted).filter fun request => Permitted allowed request)

end CmdExecNode

end Udaf
