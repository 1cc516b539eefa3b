import Udaf.AbilityB.PortQueue
import Udaf.AbilityC.FileXfer
import Mathlib.Data.List.Forall2

/-!
A running `FileXferNode` between two ports: producers push chunks, the worker takes them one
after the other, and consumers take the acknowledgements. The worker does not look at what
its `try_send` returns.
-/

namespace Udaf

open ByteString FileNames Runs

namespace FileXferNode

inductive Worker where
  | loop
  | waits
  | handles (chunk : FileChunk)
  | sends (chunk : FileChunk) (ack : FileAck)

def Worker.afterTurn : InputPort.RecvTurn FileChunk → Worker
  | .done (.ok chunk) => .handles chunk
  | .done (.error _) => .loop
  | .waits => .waits

structure System where
  allowedRoots : List Bytes := []
  inChunk : InputPort FileChunk := { capacity := 16 }
  outAck : InputPort FileAck
  files : Files := fun _ => none
  worker : Worker := .loop

inductive Event where
  | offered (chunk : FileChunk) (result : Except ErrorCode Unit)
  | turned (turn : InputPort.RecvTurn FileChunk)
  | handled (chunk : FileChunk) (ack : FileAck)
  | sent (before : InputPort FileAck) (ack : FileAck) (result : Except ErrorCode Unit)
  | consumed (label : InputPort.Label FileAck)

inductive Receives {τ : Type} (port : InputPort τ) : InputPort.Label τ → InputPort τ → Prop where
  | tries : Receives port (.received port.tryRecv.1) port.tryRecv.2
  | enters (timeoutMs : Int) :
      Receives port (port.recvEnter timeoutMs).1.label (port.recvEnter timeoutMs).2
  | rechecks (expired : Bool) :
      Receives port (port.recheck expired).1.label (port.recheck expired).2

inductive Step : System → Event → System → Prop where
  | push {system : System} (chunk : FileChunk) {result : Except ErrorCode Unit}
      {after : InputPort FileChunk} (pushed : system.inChunk.push chunk = (result, after)) :
      Step system (.offered chunk result) { system with inChunk := after }
  | recvEnters {system : System} (loop : system.worker = .loop)
      {turn : InputPort.RecvTurn FileChunk} {after : InputPort FileChunk}
      (entered : system.inChunk.recvEnter 100 = (turn, after)) :
      Step system (.turned turn) { system with inChunk := after, worker := .afterTurn turn }
  | rechecks {system : System} (waits : system.worker = .waits) (expired : Bool)
      {turn : InputPort.RecvTurn FileChunk} {after : InputPort FileChunk}
      (rechecked : system.inChunk.recheck expired = (turn, after)) :
      Step system (.turned turn) { system with inChunk := after, worker := .afterTurn turn }
  | handle {system : System} {chunk : FileChunk} (handles : system.worker = .handles chunk)
      (outcome : StdioOutcome) {ack : FileAck} {files : Files}
      (handled : handle system.allowedRoots system.files chunk outcome = (ack, files)) :
      Step system (.handled chunk ack) { system with files := files, worker := .sends chunk ack }
  | trySend {system : System} {chunk : FileChunk} {ack : FileAck}
      (sends : system.worker = .sends chunk ack) {result : Except ErrorCode Unit}
      {after : InputPort FileAck}
      (sent : (⟨some system.outAck⟩ : OutputPort FileAck).trySend ack = (result, ⟨some after⟩)) :
      Step system (.sent system.outAck ack result) { system with outAck := after, worker := .loop }
  | consume {system : System} {label : InputPort.Label FileAck} {after : InputPort FileAck}
      (receives : Receives system.outAck label after) :
      Step system (.consumed label) { system with outAck := after }

def Worker.inHand : Worker → List FileChunk
  | .handles chunk => [chunk]
  | .sends chunk _ => [chunk]
  | _ => []

def Event.accepted : Event → List FileChunk
  | .offered chunk (.ok _) => [chunk]
  | _ => []

def Event.attempted : Event → List FileAck
  | .sent _ ack _ => [ack]
  | _ => []

def Event.arrived : Event → List FileAck
  | .sent _ ack (.ok _) => [ack]
  | _ => []

def Event.delivered : Event → List FileAck
  | .consumed label => label.returned
  | _ => []

def AnsweredBy (chunk : FileChunk) (ack : FileAck) : Prop :=
  ack.path = chunk.path ∧ ack.offset = chunk.offset

/-- Every accepted chunk is queued, in the worker's hand, or answered by an acknowledgement that
reached the port, in the order of the chunks. -/
def NoAckLost (events : List Event) (final : System) : Prop :=
  ∃ answered, events.flatMap Event.accepted = answered ++ final.worker.inHand ++ final.inChunk.queue ∧
    List.Forall₂ AnsweredBy answered (events.flatMap Event.arrived)

def Event.Refused : Event → Prop
  | .sent before _ _ => 0 < before.capacity ∧ before.capacity ≤ before.queue.length
  | _ => False

theorem Receives.effect {τ : Type} {port after : InputPort τ} {label : InputPort.Label τ}
    (receives : Receives port label after) : InputPort.Effect port label after := by
  cases receives with
  | tries => exact InputPort.takeFront_effect port (.inl rfl)
  | enters timeoutMs => exact InputPort.recvEnter_effect port timeoutMs
  | rechecks expired => exact InputPort.recheck_effect port expired

theorem Receives.accepts_nothing {τ : Type} {port after : InputPort τ} {label : InputPort.Label τ}
    (receives : Receives port label after) : label.accepted = [] := by
  have quiet (turn : InputPort.RecvTurn τ) : turn.label.accepted = [] := by
    cases turn <;> rfl
  cases receives with
  | tries => rfl
  | enters => exact quiet _
  | rechecks => exact quiet _

theorem trySend_effect {τ : Type} {port after : InputPort τ} {v : τ}
    {result : Except ErrorCode Unit}
    (sent : (⟨some port⟩ : OutputPort τ).trySend v = (result, ⟨some after⟩)) :
    InputPort.Effect port (.pushed v result) after :=
  InputPort.Sends.effect (.inr sent)

structure Flow (past : List Event) (system : System) (answered : List FileChunk) : Prop where
  chunks : system.inChunk.Ledger (past.flatMap Event.accepted) (answered ++ system.worker.inHand)
  acks : system.outAck.Ledger (past.flatMap Event.arrived) (past.flatMap Event.delivered)
  named : List.Forall₂ AnsweredBy answered (past.flatMap Event.attempted)
  ready : ∀ chunk ack, system.worker = .sends chunk ack → AnsweredBy chunk ack

theorem Flow.turn {past : List Event} {system : System} {answered : List FileChunk}
    (flow : Flow past system answered) (free : system.worker.inHand = [])
    {turn : InputPort.RecvTurn FileChunk} {after : InputPort FileChunk}
    (effect : InputPort.Effect system.inChunk turn.label after) :
    Flow (past ++ [.turned turn])
      { system with inChunk := after, worker := .afterTurn turn } answered := by
  have ledger := flow.chunks.effect effect
  rw [free, List.append_nil] at ledger
  have taken : (Worker.afterTurn turn).inHand = turn.label.returned := by
    cases turn with
    | done result => cases result <;> rfl
    | waits => rfl
  have offers : turn.label.accepted = [] := by
    cases turn <;> rfl
  rw [offers, List.append_nil] at ledger
  refine ⟨?_, ?_, ?_, ?_⟩
  · simpa [Event.accepted, taken] using ledger
  · simpa [Event.arrived, Event.delivered] using flow.acks
  · simpa [Event.attempted] using flow.named
  · intro chunk ack sends
    cases turn with
    | done result => cases result <;> cases sends
    | waits => cases sends

theorem step_flow {past : List Event} {system next : System} {event : Event}
    (step : Step system event next) (flowing : ∃ answered, Flow past system answered) :
    ∃ answered, Flow (past ++ [event]) next answered := by
  obtain ⟨answered, flow⟩ := flowing
  cases step with
  | push chunk pushed =>
      have effect := InputPort.push_effect system.inChunk chunk
      rw [pushed] at effect
      rename_i result after
      have ledger := flow.chunks.effect effect
      have accepted : (Event.offered chunk result).accepted =
          (InputPort.Label.pushed chunk result).accepted := by
        cases result <;> rfl
      refine ⟨answered, ?_, ?_, ?_, flow.ready⟩
      · simpa [accepted, InputPort.Label.returned] using ledger
      · simpa [Event.arrived, Event.delivered] using flow.acks
      · simpa [Event.attempted] using flow.named
  | recvEnters loop entered =>
      have effect := InputPort.recvEnter_effect system.inChunk 100
      rw [entered] at effect
      exact ⟨answered, flow.turn (by rw [loop]; rfl) effect⟩
  | rechecks waits expired rechecked =>
      have effect := InputPort.recheck_effect system.inChunk expired
      rw [rechecked] at effect
      exact ⟨answered, flow.turn (by rw [waits]; rfl) effect⟩
  | handle handles outcome handled =>
      rename_i chunk ack files
      have names := handle_names system.allowedRoots system.files chunk outcome
      rw [handled] at names
      have ledger := flow.chunks
      rw [handles] at ledger
      refine ⟨answered, ?_, ?_, ?_, ?_⟩
      · simpa [Event.accepted, Worker.inHand] using ledger
      · simpa [Event.arrived, Event.delivered] using flow.acks
      · simpa [Event.attempted] using flow.named
      · intro other answer sends
        cases sends
        exact names
  | trySend sends sent =>
      rename_i chunk ack result after
      have ledger := flow.chunks
      rw [sends] at ledger
      have acks := flow.acks.effect (trySend_effect sent)
      have arrived : (Event.sent system.outAck ack result).arrived =
          (InputPort.Label.pushed ack result).accepted := by
        cases result <;> rfl
      refine ⟨answered ++ [chunk], ?_, ?_, ?_, ?_⟩
      · simpa [Event.accepted, Worker.inHand] using ledger
      · simpa [arrived, Event.delivered, InputPort.Label.returned] using acks
      · rw [List.flatMap_append]
        exact List.rel_append flow.named (.cons (flow.ready chunk ack sends) .nil)
      · intro other answer more
        cases more
  | consume receives =>
      have acks := flow.acks.effect receives.effect
      rw [receives.accepts_nothing] at acks
      refine ⟨answered, ?_, ?_, ?_, flow.ready⟩
      · simpa [Event.accepted] using flow.chunks
      · simpa [Event.arrived, Event.delivered] using acks
      · simpa [Event.attempted] using flow.named

theorem run_flow {system final : System} (fresh : Flow [] system []) {events : List Event}
    (run : Run Step system events final) : ∃ answered, Flow events final answered :=
  @Run.history _ _ _ (fun past system => ∃ answered, Flow past system answered) step_flow [] _ _ _
    run ⟨[], fresh⟩

def Event.Decided (event : Event) : Prop :=
  (event.Refused → event.arrived = [] ∧ ∃ ack, event.attempted = [ack]) ∧
    (¬ event.Refused → event.arrived = event.attempted)

theorem step_decided {system next : System} {event : Event} (step : Step system event next) :
    event.Decided := by
  cases step with
  | trySend sends sent =>
      rename_i chunk ack result after
      obtain ⟨busy, otherwise_⟩ := (trySend_effect sent).busy_iff
      constructor
      · intro refused
        rw [busy.mpr refused]
        exact ⟨rfl, ack, rfl⟩
      · intro room
        rw [otherwise_ fun refused => room (busy.mp refused)]
        rfl
  | push => exact ⟨False.elim, fun _ => rfl⟩
  | recvEnters => exact ⟨False.elim, fun _ => rfl⟩
  | rechecks => exact ⟨False.elim, fun _ => rfl⟩
  | handle => exact ⟨False.elim, fun _ => rfl⟩
  | consume => exact ⟨False.elim, fun _ => rfl⟩

theorem arrived_of_room {events : List Event} (decided : ∀ event ∈ events, event.Decided)
    (room : ∀ event ∈ events, ¬ event.Refused) :
    events.flatMap Event.arrived = events.flatMap Event.attempted := by
  induction events with
  | nil => rfl
  | cons event rest ih =>
      obtain ⟨first, later⟩ := List.forall_mem_cons.mp room
      obtain ⟨decides, others⟩ := List.forall_mem_cons.mp decided
      rw [List.flatMap_cons, List.flatMap_cons, decides.2 first, ih others later]

theorem refused_shorter {events : List Event} (decided : ∀ event ∈ events, event.Decided) :
    (events.flatMap Event.arrived).length ≤ (events.flatMap Event.attempted).length ∧
      ((∃ event ∈ events, event.Refused) →
        (events.flatMap Event.arrived).length < (events.flatMap Event.attempted).length) := by
  induction events with
  | nil => exact ⟨Nat.le_refl _, fun ⟨_, member, _⟩ => nomatch member⟩
  | cons event rest ih =>
      obtain ⟨decides, others⟩ := List.forall_mem_cons.mp decided
      obtain ⟨weak, strict⟩ := ih others
      simp only [List.flatMap_cons, List.length_append]
      by_cases refused : event.Refused
      · obtain ⟨none, ack, one⟩ := decides.1 refused
        rw [none, one, List.length_nil, List.length_singleton]
        constructor
        · omega
        · intro _
          omega
      · rw [decides.2 refused]
        constructor
        · omega
        · rintro ⟨other, member, lost⟩
          rcases List.mem_cons.mp member with rfl | later
          · exact absurd lost refused
          · have fewer := strict ⟨other, later, lost⟩
            omega

/-- What the consumers get is what arrived, in that order; and nothing is lost exactly in the runs
in which no send meets a full port. -/
theorem noAckLost_iff {allowedRoots : List Bytes} {files : Files} {ackCapacity : Nat}
    {events : List Event} {final : System}
    (run : Run Step { allowedRoots := allowedRoots, files := files,
                      outAck := { capacity := ackCapacity } } events final) :
    events.flatMap Event.arrived = events.flatMap Event.delivered ++ final.outAck.queue ∧
      (NoAckLost events final ↔ ∀ event ∈ events, ¬ event.Refused) := by
  have decided : ∀ event ∈ events, event.Decided := by
    intro event member
    obtain ⟨past, later, rfl⟩ := List.append_of_mem member
    obtain ⟨_, _, _, step⟩ := run.before
    exact step_decided step
  have idle : ∀ chunk ack, Worker.loop = .sends chunk ack → AnsweredBy chunk ack :=
    fun _ _ sends => nomatch sends
  obtain ⟨answered, flow⟩ := run_flow
    ⟨⟨rfl, fun _ => Nat.zero_le _⟩, ⟨rfl, fun _ => Nat.zero_le _⟩, .nil, idle⟩ run
  refine ⟨flow.acks.balance, ?_⟩
  constructor
  · rintro ⟨acknowledged, chunks, named⟩ event member refused
    have fewer := (refused_shorter decided).2 ⟨event, member, refused⟩
    have tried := flow.named.length_eq
    have reached := named.length_eq
    have total := congrArg List.length (chunks.symm.trans flow.chunks.balance)
    simp only [List.length_append] at total
    omega
  · intro room
    refine ⟨answered, flow.chunks.balance, ?_⟩
    rw [arrived_of_room decided room]
    exact flow.named

def sampleChunk (offset : UInt64) : FileChunk := { path := ascii "f", offset := offset, data := [1] }

def answering (offset : UInt64) (before : InputPort FileAck) (result : Except ErrorCode Unit) :
    List Event :=
  [.turned (.done (.ok (sampleChunk offset))),
    .handled (sampleChunk offset) (ackOf (sampleChunk offset)),
    .sent before (ackOf (sampleChunk offset)) result]

theorem answering_run {system : System} (roots : system.allowedRoots = []) {offset : UInt64}
    (small : offset.toNat + 1 < 2 ^ 63) {behind : List FileChunk}
    (queued : system.inChunk.queue = sampleChunk offset :: behind) (loop : system.worker = .loop)
    {result : Except ErrorCode Unit} {after : InputPort FileAck}
    (sent : (⟨some system.outAck⟩ : OutputPort FileAck).trySend (ackOf (sampleChunk offset)) =
      (result, ⟨some after⟩)) :
    ∃ files, Run Step system (answering offset system.outAck result)
      { system with
        inChunk := { system.inChunk with queue := behind }
        outAck := after
        files := files
        worker := .loop } := by
  have entered : system.inChunk.recvEnter 100 =
      (.done (.ok (sampleChunk offset)), { system.inChunk with queue := behind }) := by
    simp only [InputPort.recvEnter, InputPort.takeFront, queued, List.isEmpty_cons,
      Bool.false_eq_true, false_and, if_false]
  have allowed : pathAllowed system.allowedRoots (sampleChunk offset).path = true := by
    have name : pathAllowed [] (ascii "f") = true := by decide
    rw [roots]
    exact name
  have handled := handle_succeeds allowed small system.files
  exact ⟨_, .cons (.recvEnters loop entered) (.cons (.handle rfl {} handled)
    (.cons (.trySend rfl sent) .nil))⟩

def offering : List Event := [.offered (sampleChunk 0) (.ok ()), .offered (sampleChunk 1) (.ok ())]

theorem offering_run (ackCapacity : Nat) :
    Run Step { outAck := { capacity := ackCapacity } } offering
      { outAck := { capacity := ackCapacity },
        inChunk := { capacity := 16, queue := [sampleChunk 0, sampleChunk 1] } } :=
  .cons (.push (sampleChunk 0) rfl) (.cons (.push (sampleChunk 1) rfl) .nil)

/-- Two chunks, a port for one acknowledgement, and nobody who takes it in between. -/
theorem ack_lost :
    ¬ ∀ (ackCapacity : Nat) (events : List Event) (final : System),
      Run Step { outAck := { capacity := ackCapacity } } events final → NoAckLost events final := by
  intro claimed
  obtain ⟨files, first⟩ := @answering_run
    { outAck := { capacity := 1 },
      inChunk := { capacity := 16, queue := [sampleChunk 0, sampleChunk 1] } }
    rfl 0 (by decide) [sampleChunk 1] rfl rfl (.ok ()) _ rfl
  obtain ⟨_, second⟩ := @answering_run
    { outAck := { capacity := 1, queue := [ackOf (sampleChunk 0)] },
      inChunk := { capacity := 16, queue := [sampleChunk 1] }, files := files }
    rfl 1 (by decide) [] rfl rfl (.error .resourceBusy) _ rfl
  obtain ⟨answered, chunks, named⟩ := claimed 1 _ _ ((offering_run 1).append (first.append second))
  have two : [sampleChunk 0, sampleChunk 1] = answered ++ [] ++ [] := chunks
  have one : answered.length = 1 := named.length_eq
  rw [List.append_nil, List.append_nil] at two
  rw [← two] at one
  exact absurd one (by decide)

theorem noAckLost_sample : ∃ events final,
    Run Step { outAck := { capacity := 1 } } events final ∧ NoAckLost events final ∧
      events.flatMap Event.arrived = [ackOf (sampleChunk 0)] := by
  obtain ⟨files, first⟩ := @answering_run
    { outAck := { capacity := 1 },
      inChunk := { capacity := 16, queue := [sampleChunk 0, sampleChunk 1] } }
    rfl 0 (by decide) [sampleChunk 1] rfl rfl (.ok ()) _ rfl
  have run := (offering_run 1).append first
  refine ⟨_, _, run, (noAckLost_iff run).2.mpr ?_, rfl⟩
  simp [offering, answering, Event.Refused]

end FileXferNode

end Udaf
