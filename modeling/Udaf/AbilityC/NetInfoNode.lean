import Udaf.AbilityC.CmdExecNode
import Udaf.Lib.FileNames
import Mathlib.Data.List.DropRight

/-!
The worker of `NetInfoNode` between its three ports. It looks at the port of the queries
first, and at the other one only when it has found that one empty.
-/

namespace Udaf

open ByteString FileNames Runs Conveyor

structure NetInterfaceQuery where
  ifname : Bytes
  deriving DecidableEq

structure NetInterfaceSet where
  ifname : Bytes
  up : Bool := true
  address : Bytes := []
  deriving DecidableEq

structure NetInterfaceResult where
  ifname : Bytes := []
  address : Bytes := []
  up : Bool := true
  mtu : Int := 0
  deriving DecidableEq

namespace NetInfoNode

def operstatePath (ifname : Bytes) : Bytes := ascii "/sys/class/net/" ++ ifname ++ ascii "/operstate"

/-- The text that `query_one` reads: at most fifteen bytes, up to the first NUL, without the line
ends behind it. -/
def stateText (content : Bytes) : Bytes :=
  ((content.take 15).takeWhile (· ≠ 0)).rdropWhile fun byte => byte = 10 ∨ byte = 13

def queryOne (files : Files) (ifname : Bytes) : NetInterfaceResult :=
  if ifname.isEmpty then { ifname := ifname, address := [], up := false, mtu := 0 }
  else
    match files (cString (operstatePath ifname)) with
    | none => { ifname := ifname, up := false }
    | some content => { ifname := ifname, up := stateText content = ascii "up" }

def applySet (s : NetInterfaceSet) : NetInterfaceResult where
  ifname := s.ifname
  up := s.up
  address := s.address

inductive Request where
  | query (query : NetInterfaceQuery)
  | set (set : NetInterfaceSet)

inductive Worker where
  | ended
  | loop
  | looksFurther
  | handles (request : Request)
  | sends (request : Request) (result : NetInterfaceResult)

structure System where
  running : Bool := false
  inQuery : InputPort NetInterfaceQuery := { capacity := 32 }
  inSet : InputPort NetInterfaceSet := { capacity := 16 }
  outResult : OutputPort NetInterfaceResult := ⟨none⟩
  worker : Worker := .ended

inductive Event where
  | started
  | stopped
  | left
  | queryOffered (query : NetInterfaceQuery) (result : Except ErrorCode Unit)
  | setOffered (set : NetInterfaceSet) (result : Except ErrorCode Unit)
  | took (request : Request)
  | noQuery
  | slept
  | handled (request : Request) (result : NetInterfaceResult)
  | sent (result : NetInterfaceResult) (reply : Except ErrorCode Unit)
  | consumed (label : InputPort.Label NetInterfaceResult)

def answer (files : Files) : Request → NetInterfaceResult
  | .query query => queryOne files query.ifname
  | .set set => applySet set

inductive Step : System → Event → System → Prop where
  | start {system : System} (down : system.running = false) (joined : system.worker = .ended) :
      Step system .started { system with running := true, worker := .loop }
  | stop {system : System} : Step system .stopped { system with running := false }
  | leave {system : System} (loop : system.worker = .loop) (down : system.running = false) :
      Step system .left { system with worker := .ended }
  | pushQuery {system : System} (query : NetInterfaceQuery) {result : Except ErrorCode Unit}
      {after : InputPort NetInterfaceQuery} (pushed : system.inQuery.push query = (result, after)) :
      Step system (.queryOffered query result) { system with inQuery := after }
  | pushSet {system : System} (set : NetInterfaceSet) {result : Except ErrorCode Unit}
      {after : InputPort NetInterfaceSet} (pushed : system.inSet.push set = (result, after)) :
      Step system (.setOffered set result) { system with inSet := after }
  | takesQuery {system : System} (loop : system.worker = .loop) (up : system.running = true)
      {query : NetInterfaceQuery} {after : InputPort NetInterfaceQuery}
      (tried : system.inQuery.tryRecv = (.ok query, after)) :
      Step system (.took (.query query))
        { system with inQuery := after, worker := .handles (.query query) }
  | findsNoQuery {system : System} (loop : system.worker = .loop) (up : system.running = true)
      {code : ErrorCode} {after : InputPort NetInterfaceQuery}
      (tried : system.inQuery.tryRecv = (.error code, after)) :
      Step system .noQuery { system with inQuery := after, worker := .looksFurther }
  | takesSet {system : System} (looks : system.worker = .looksFurther)
      {set : NetInterfaceSet} {after : InputPort NetInterfaceSet}
      (tried : system.inSet.tryRecv = (.ok set, after)) :
      Step system (.took (.set set)) { system with inSet := after, worker := .handles (.set set) }
  | sleeps {system : System} (looks : system.worker = .looksFurther)
      {code : ErrorCode} {after : InputPort NetInterfaceSet}
      (tried : system.inSet.tryRecv = (.error code, after)) :
      Step system .slept { system with inSet := after, worker := .loop }
  | handle {system : System} {request : Request} (handles : system.worker = .handles request)
      (files : Files) :
      Step system (.handled request (answer files request))
        { system with worker := .sends request (answer files request) }
  | trySend {system : System} {request : Request} {result : NetInterfaceResult}
      (sends : system.worker = .sends request result) {reply : Except ErrorCode Unit}
      {after : OutputPort NetInterfaceResult}
      (sent : system.outResult.trySend result = (reply, after)) :
      Step system (.sent result reply) { system with outResult := after, worker := .loop }
  | consume {system : System} {port after : InputPort NetInterfaceResult}
      (bound : system.outResult.target = some port) {label : InputPort.Label NetInterfaceResult}
      (receives : FileXferNode.Receives port label after) :
      Step system (.consumed label) { system with outResult := ⟨some after⟩ }

def Event.queries : Event → List NetInterfaceQuery
  | .queryOffered query (.ok _) => [query]
  | _ => []

def Event.sets : Event → List NetInterfaceSet
  | .setOffered set (.ok _) => [set]
  | _ => []

def Event.taken : Event → List Request
  | .took request => [request]
  | _ => []

def Event.attempted : Event → List NetInterfaceResult
  | .sent result _ => [result]
  | _ => []

def Event.delivered : Event → List NetInterfaceResult
  | .sent result reply => (InputPort.Label.pushed result reply).accepted
  | _ => []

def Event.received : Event → List NetInterfaceResult
  | .consumed label => label.returned
  | _ => []

def Request.asQuery : Request → List NetInterfaceQuery
  | .query asked => [asked]
  | .set _ => []

def Request.asSet : Request → List NetInterfaceSet
  | .query _ => []
  | .set change => [change]

def Worker.inHand : Worker → List Request
  | .handles request => [request]
  | .sends request _ => [request]
  | _ => []

def Event.OfWorker : Event → Prop
  | .queryOffered _ _ | .setOffered _ _ | .stopped | .consumed _ => False
  | _ => True

/-- Since the worker found the port of the queries empty it has done nothing else, and before that
it had answered all that it had accepted. -/
def Cleared (past : List Event) : Prop :=
  ∃ early between, past = early ++ .noQuery :: between ∧ (∀ event ∈ between, ¬ event.OfWorker) ∧
    (early.flatMap Event.taken).flatMap Request.asQuery = early.flatMap Event.queries ∧
    (early.flatMap Event.attempted).length = (early.flatMap Event.taken).length

def Answered (request : Request) (result : NetInterfaceResult) : Prop :=
  ∃ files, result = answer files request

structure Flow (past : List Event) (system : System) : Prop where
  queries : past.flatMap Event.queries =
    (past.flatMap Event.taken).flatMap Request.asQuery ++ system.inQuery.queue
  sets : past.flatMap Event.sets =
    (past.flatMap Event.taken).flatMap Request.asSet ++ system.inSet.queue
  answers : Carried Answered (past.flatMap Event.taken) system.worker.inHand
    (past.flatMap Event.attempted)
  sends : ∀ request result, system.worker = .sends request result → Answered request result
  looks : system.worker = .looksFurther → Cleared past

theorem tryRecv_ok {τ : Type} {port after : InputPort τ} {v : τ}
    (tried : port.tryRecv = (.ok v, after)) : port.queue = v :: after.queue := by
  rw [InputPort.tryRecv, InputPort.takeFront] at tried
  split at tried
  · cases tried
  · cases tried
    assumption

theorem tryRecv_error {τ : Type} {port after : InputPort τ} {code : ErrorCode}
    (tried : port.tryRecv = (.error code, after)) : port.queue = [] ∧ after = port := by
  rw [InputPort.tryRecv, InputPort.takeFront] at tried
  split at tried
  · cases tried
    exact ⟨by assumption, rfl⟩
  · cases tried

theorem Cleared.later {past : List Event} (cleared : Cleared past) {event : Event}
    (other : ¬ event.OfWorker) : Cleared (past ++ [event]) := by
  obtain ⟨early, between, rfl, idle, answered, all⟩ := cleared
  refine ⟨early, between ++ [event], by simp, ?_, answered, all⟩
  intro later member
  rcases List.mem_append.mp member with before | last
  · exact idle later before
  · rw [List.mem_singleton.mp last]
    exact other

theorem pushed_queries {port after : InputPort NetInterfaceQuery} {query : NetInterfaceQuery}
    {result : Except ErrorCode Unit} (pushed : port.push query = (result, after)) :
    after.queue = port.queue ++ (Event.queryOffered query result).queries := by
  rw [CmdExecNode.push_queue pushed]
  cases result <;> rfl

theorem pushed_sets {port after : InputPort NetInterfaceSet} {set : NetInterfaceSet}
    {result : Except ErrorCode Unit} (pushed : port.push set = (result, after)) :
    after.queue = port.queue ++ (Event.setOffered set result).sets := by
  rw [CmdExecNode.push_queue pushed]
  cases result <;> rfl

section Steps

variable {past : List Event} {system next : System} {event : Event}

theorem Flow.quiet (flow : Flow past system)
    (queries : next.inQuery.queue = system.inQuery.queue ++ event.queries)
    (sets : next.inSet.queue = system.inSet.queue ++ event.sets)
    (hand : next.worker.inHand = system.worker.inHand)
    (silent : event.taken = [] ∧ event.attempted = [])
    (sends : ∀ request result, next.worker = .sends request result → Answered request result)
    (looks : next.worker = .looksFurther → Cleared (past ++ [event])) :
    Flow (past ++ [event]) next := by
  obtain ⟨taken, attempted⟩ := silent
  refine ⟨?_, ?_, ?_, sends, looks⟩
  · simp [taken, queries, flow.queries]
  · simp [taken, sets, flow.sets]
  · simpa [taken, attempted, hand] using flow.answers

theorem Flow.takes (flow : Flow past system) (free : system.worker.inHand = []) {request : Request}
    {inQuery : InputPort NetInterfaceQuery} {inSet : InputPort NetInterfaceSet}
    (queries : system.inQuery.queue = request.asQuery ++ inQuery.queue)
    (sets : system.inSet.queue = request.asSet ++ inSet.queue) :
    Flow (past ++ [.took request])
      { system with inQuery := inQuery, inSet := inSet, worker := .handles request } := by
  have answers := flow.answers.enter [request]
  rw [free] at answers
  refine ⟨?_, ?_, ?_, (fun _ _ none => by cases none), (fun none => by cases none)⟩
  · simp [Event.queries, Event.taken, flow.queries, queries]
  · simp [Event.sets, Event.taken, flow.sets, sets]
  · simpa [Event.taken, Event.attempted, Worker.inHand] using answers

theorem step_flow (step : Step system event next) (flow : Flow past system) :
    Flow (past ++ [event]) next := by
  cases step with
  | start down joined =>
      refine flow.quiet (List.append_nil _).symm (List.append_nil _).symm ?_ ⟨rfl, rfl⟩
        (fun _ _ none => by cases none) (fun none => by cases none)
      rw [joined]
      rfl
  | stop =>
      exact flow.quiet (List.append_nil _).symm (List.append_nil _).symm rfl ⟨rfl, rfl⟩ flow.sends
        fun looks => (flow.looks looks).later id
  | leave loop down =>
      refine flow.quiet (List.append_nil _).symm (List.append_nil _).symm ?_ ⟨rfl, rfl⟩
        (fun _ _ none => by cases none) (fun none => by cases none)
      rw [loop]
      rfl
  | pushQuery query pushed =>
      exact flow.quiet (pushed_queries pushed) (List.append_nil _).symm rfl ⟨rfl, rfl⟩ flow.sends
        fun looks => (flow.looks looks).later id
  | pushSet set pushed =>
      exact flow.quiet (List.append_nil _).symm (pushed_sets pushed) rfl ⟨rfl, rfl⟩ flow.sends
        fun looks => (flow.looks looks).later id
  | @takesQuery loop up query after tried =>
      exact flow.takes (by rw [loop]; rfl) (tryRecv_ok tried) rfl
  | @findsNoQuery loop up code after tried =>
      obtain ⟨empty, rfl⟩ := tryRecv_error tried
      refine flow.quiet (List.append_nil _).symm (List.append_nil _).symm ?_ ⟨rfl, rfl⟩
        (fun _ _ none => by cases none) ?_
      · rw [loop]
        rfl
      · intro looks
        have queries := flow.queries
        have answers := flow.answers.length_eq
        rw [empty, List.append_nil] at queries
        rw [loop] at answers
        exact ⟨past, [], rfl, (fun _ member => by cases member), queries.symm, answers.symm⟩
  | @takesSet looks set after tried =>
      exact flow.takes (by rw [looks]; rfl) rfl (tryRecv_ok tried)
  | @sleeps looks code after tried =>
      obtain ⟨empty, rfl⟩ := tryRecv_error tried
      refine flow.quiet (List.append_nil _).symm (List.append_nil _).symm ?_ ⟨rfl, rfl⟩
        (fun _ _ none => by cases none) (fun none => by cases none)
      rw [looks]
      rfl
  | @handle request handles files =>
      refine flow.quiet (List.append_nil _).symm (List.append_nil _).symm ?_ ⟨rfl, rfl⟩ ?_
        (fun none => by cases none)
      · rw [handles]
        rfl
      · intro other result sends
        cases sends
        exact ⟨files, rfl⟩
  | @trySend request result sends reply after sent =>
      have answers := flow.answers
      rw [sends] at answers
      refine ⟨?_, ?_, ?_, (fun _ _ none => by cases none), (fun none => by cases none)⟩
      · simpa [Event.queries, Event.taken] using flow.queries
      · simpa [Event.sets, Event.taken] using flow.sets
      · simpa [Event.taken, Event.attempted, Worker.inHand] using
          answers.leave (flow.sends request result sends)
  | consume bound receives =>
      exact flow.quiet (List.append_nil _).symm (List.append_nil _).symm rfl ⟨rfl, rfl⟩ flow.sends
        fun looks => (flow.looks looks).later id

end Steps

def Arrives (outResult : OutputPort NetInterfaceResult) (past : List Event) (system : System) : Prop :=
  Buffered outResult.held (past.flatMap Event.delivered) (past.flatMap Event.received)
    system.outResult.held

/-- The node against what its two ports accepted. -/
structure Contract (outResult : OutputPort NetInterfaceResult) (events : List Event) (final : System) :
    Prop where
  /-- Each port is emptied in order, and nothing that it accepted is lost. -/
  queries : events.flatMap Event.queries =
    (events.flatMap Event.taken).flatMap Request.asQuery ++ final.inQuery.queue
  sets : events.flatMap Event.sets =
    (events.flatMap Event.taken).flatMap Request.asSet ++ final.inSet.queue
  /-- What is taken is answered once, in that order, before anything else is taken. -/
  answers : ∃ inHand, inHand.length ≤ 1 ∧
    Carried Answered (events.flatMap Event.taken) inHand (events.flatMap Event.attempted)
  /-- The answers that the port takes come out of it in order; the others are lost. -/
  arrives : Arrives outResult events final
  /-- A set is taken only when no query that was there at the last look is left without its answer. -/
  order : ∀ past set later, events = past ++ .took (.set set) :: later → Cleared past

end NetInfoNode

end Udaf
