import Udaf.Lib.Priority
import Udaf.AbilityB.InprocLoss

/-!
Calls on the channel that do not overlap: they answer as one queue of frames would, from
which the oldest frame of the highest priority is taken.
-/

namespace Udaf

open ByteString Runs Priority

namespace InprocChannel

def sendBase (channel : InprocChannel) (m : MessageFrame) : SendResult × InprocChannel :=
  match channel.sendChecks m with
  | some result => (result, channel)
  | none =>
      if inside : m.priority.value.toNat < 3 then
        match channel.push m inside with
        | none => (.full, channel)
        | some (_, after) => (.ok, after)
      else (.error, channel)

inductive ChannelCall where
  | send (m : MessageFrame)
  | recv (m : MessageFrame)
  | close

inductive Answer where
  | sent (result : SendResult)
  | received (turn : RecvTurn)
  | closed
  deriving DecidableEq

def call (channel : InprocChannel) : ChannelCall → Answer × InprocChannel
  | .send m => (.sent (channel.sendBase m).1, (channel.sendBase m).2)
  | .recv m => (.received (channel.recvEnter m 0).1, (channel.recvEnter m 0).2)
  | .close => (.closed, { channel with closed := true })

def runCalls (channel : InprocChannel) : List ChannelCall → List (ChannelCall × Answer) × InprocChannel
  | [] => ([], channel)
  | first :: rest =>
      let (answer, after) := channel.call first
      let (answers, final) := after.runCalls rest
      ((first, answer) :: answers, final)

end InprocChannel

/-- What the channel is for: the frames that were accepted, and those of them still pending. -/
structure PriorityQueue where
  capacity : Nat
  closed : Bool := false
  accepted : List MessageFrame := []
  pending : List MessageFrame := []

namespace PriorityQueue

open InprocChannel

def priorityOf (frame : MessageFrame) : Nat := frame.priority.value.toNat

def held (queue : PriorityQueue) (m : MessageFrame) : Nat :=
  (withKey priorityOf queue.pending (priorityOf m)).length

def accept (queue : PriorityQueue) (m : MessageFrame) : PriorityQueue :=
  let m := { m with seq := UInt64.ofNat (queue.accepted.length + 1) }
  { queue with accepted := queue.accepted ++ [m], pending := queue.pending ++ [m] }

inductive Step : PriorityQueue → ChannelCall × Answer → PriorityQueue → Prop where
  | refuses {queue : PriorityQueue} (m : MessageFrame) (closed : queue.closed = true) :
      Step queue (.send m, .sent .closed) queue
  | rejects {queue : PriorityQueue} {m : MessageFrame} (isOpen : queue.closed = false)
      (outside : 3 ≤ priorityOf m) : Step queue (.send m, .sent .error) queue
  | full {queue : PriorityQueue} {m : MessageFrame} (isOpen : queue.closed = false)
      (inside : priorityOf m < 3) (droppable : m.priority ≠ .heartbeat)
      (reached : queue.capacity ≤ queue.held m) : Step queue (.send m, .sent .full) queue
  | accepts {queue : PriorityQueue} {m : MessageFrame} (isOpen : queue.closed = false)
      (inside : priorityOf m < 3)
      (room : m.priority = .heartbeat ∨ queue.held m < queue.capacity) :
      Step queue (.send m, .sent .ok) (queue.accept m)
  | returns {queue : PriorityQueue} (m : MessageFrame) {frame : MessageFrame}
      {rest : List MessageFrame} (takes : Takes priorityOf queue.pending frame rest) :
      Step queue (.recv m, .received (.done .ok frame)) { queue with pending := rest }
  | finds {queue : PriorityQueue} (m : MessageFrame) (empty : queue.pending = []) :
      Step queue (.recv m, .received (.done .timeout m)) queue
  | close {queue : PriorityQueue} : Step queue (.close, .closed) { queue with closed := true }

end PriorityQueue

namespace InprocChannel

open PriorityQueue

structure Refines (channel : InprocChannel) (queue : PriorityQueue) : Prop where
  capacity : channel.capacity = queue.capacity
  closed : channel.closed = queue.closed
  numbered : channel.nextSeq = UInt64.ofNat queue.accepted.length
  levels (level : Fin 3) : channel.queues level = withKey priorityOf queue.pending level.val
  inside : ∀ frame ∈ queue.pending, priorityOf frame < 3

theorem refines_start (capacity : Nat) :
    Refines { capacity := capacity } { capacity := capacity } :=
  ⟨rfl, rfl, rfl, fun _ => rfl, fun _ member => nomatch member⟩

theorem Refines.empty_iff {channel : InprocChannel} {queue : PriorityQueue}
    (refines : channel.Refines queue) : (∀ level, channel.queues level = []) ↔ queue.pending = [] := by
  constructor
  · intro empty
    apply List.eq_nil_iff_forall_not_mem.mpr
    intro frame member
    have here := empty ⟨priorityOf frame, refines.inside frame member⟩
    rw [refines.levels] at here
    have none := List.filter_eq_nil_iff.mp here frame member
    simp at none
  · intro empty level
    rw [refines.levels, empty]
    rfl

theorem pickFrom_first {queues after : Fin 3 → List MessageFrame} {levels : List (Fin 3)}
    {front : MessageFrame} (sorted : levels.Pairwise (· < ·))
    (picked : pickFrom queues levels = some (front, after)) :
    ∃ level behind, level ∈ levels ∧ queues level = front :: behind ∧
      after = Function.update queues level behind ∧
      ∀ lower ∈ levels, lower < level → queues lower = [] := by
  induction levels with
  | nil => cases picked
  | cons level rest ih =>
      obtain ⟨first, tail⟩ := List.pairwise_cons.mp sorted
      rw [pickFrom] at picked
      cases holds : queues level with
      | nil =>
          rw [holds] at picked
          obtain ⟨found, behind, member, front, update, least⟩ := ih tail picked
          refine ⟨found, behind, List.mem_cons_of_mem _ member, front, update, ?_⟩
          intro lower lowerMember below
          rcases List.mem_cons.mp lowerMember with rfl | later
          · exact holds
          · exact least lower later below
      | cons first' behind =>
          rw [holds] at picked
          cases picked
          refine ⟨level, behind, List.mem_cons_self, holds, rfl, ?_⟩
          intro lower lowerMember below
          rcases List.mem_cons.mp lowerMember with rfl | later
          · exact absurd below (Nat.lt_irrefl _)
          · exact absurd below (Nat.lt_asymm (first lower later))

theorem Refines.pick {channel : InprocChannel} {queue : PriorityQueue}
    (refines : channel.Refines queue) {front : MessageFrame} {after : Fin 3 → List MessageFrame}
    (picked : pick channel.queues = some (front, after)) :
    ∃ rest, Takes priorityOf queue.pending front rest ∧
      Refines { channel with queues := after } { queue with pending := rest } := by
  obtain ⟨level, behind, -, holds, rfl, least⟩ := pickFrom_first (by decide) picked
  rw [refines.levels] at holds
  have all : ∀ level : Fin 3, level ∈ [0, 1, 2] := by decide
  obtain ⟨rest, takes, here, others⟩ := takes_of_front holds fun lower below => by
    rw [← refines.levels ⟨lower, lt_trans below level.isLt⟩]
    exact least _ (all _) below
  refine ⟨rest, takes, refines.capacity, refines.closed, refines.numbered, ?_, ?_⟩
  · intro other
    change Function.update channel.queues level behind other = withKey priorityOf rest other.val
    by_cases same : other = level
    · subst same
      rw [Function.update_self, here]
    · rw [Function.update_of_ne same, refines.levels, others]
      exact fun values => same (Fin.ext values)
  · intro frame member
    exact refines.inside frame (takes.perm.mem_iff.mpr (List.mem_cons_of_mem _ member))

theorem Refines.held_eq {channel : InprocChannel} {queue : PriorityQueue}
    (refines : channel.Refines queue) {m : MessageFrame} (inside : m.priority.value.toNat < 3) :
    (channel.queues ⟨m.priority.value.toNat, inside⟩).length = queue.held m := by
  rw [refines.levels]
  rfl

theorem Refines.accept {channel : InprocChannel} {queue : PriorityQueue}
    (refines : channel.Refines queue) {m : MessageFrame} (inside : m.priority.value.toNat < 3) :
    Refines
      { channel with
        nextSeq := channel.nextSeq + 1
        queues := Function.update channel.queues ⟨m.priority.value.toNat, inside⟩
          (channel.queues ⟨m.priority.value.toNat, inside⟩ ++ [{ m with seq := channel.nextSeq + 1 }]) }
      (queue.accept m) := by
  have next : channel.nextSeq + 1 = UInt64.ofNat (queue.accepted.length + 1) := by
    rw [refines.numbered, UInt64.ofNat_add]
    rfl
  refine ⟨refines.capacity, refines.closed, ?_, ?_, ?_⟩
  · simp only [PriorityQueue.accept, List.length_append, List.length_singleton]
    exact next
  · intro level
    simp only [PriorityQueue.accept, next]
    generalize UInt64.ofNat (queue.accepted.length + 1) = seq
    by_cases same : level = ⟨m.priority.value.toNat, inside⟩
    · subst same
      rw [Function.update_self, refines.levels, withKey_append]
      exact congrArg _ (withKey_self _).symm
    · have other : priorityOf m ≠ level.val := fun values => same (Fin.ext values.symm)
      have none : withKey priorityOf [{ m with seq := seq }] level.val = [] := withKey_other other
      rw [Function.update_of_ne same, refines.levels, withKey_append, none, List.append_nil]
  · intro frame member
    rcases List.mem_append.mp member with earlier | last
    · exact refines.inside frame earlier
    · rw [List.mem_singleton.mp last]
      exact inside

theorem Refines.send {channel : InprocChannel} {queue : PriorityQueue}
    (refines : channel.Refines queue) (m : MessageFrame) :
    ∃ next, PriorityQueue.Step queue (.send m, .sent (channel.sendBase m).1) next ∧
      (channel.sendBase m).2.Refines next := by
  rw [sendBase, sendChecks]
  by_cases closed : channel.closed
  · rw [if_pos closed]
    exact ⟨queue, .refuses m (refines.closed ▸ closed), refines⟩
  · have isOpen : queue.closed = false := by
      rw [← refines.closed]
      exact Bool.not_eq_true _ ▸ closed
    rw [if_neg closed]
    by_cases outside : 3 ≤ m.priority.value.toNat
    · rw [if_pos outside]
      exact ⟨queue, .rejects isOpen outside, refines⟩
    · have inside : m.priority.value.toNat < 3 := Nat.lt_of_not_le outside
      have size := refines.held_eq inside
      have bound := refines.capacity
      rw [if_neg outside]
      simp only [dif_pos inside, push]
      by_cases reached : m.priority ≠ .heartbeat ∧
          channel.capacity ≤ (channel.queues ⟨m.priority.value.toNat, inside⟩).length
      · rw [if_pos reached]
        rw [size, bound] at reached
        exact ⟨queue, .full isOpen inside reached.1 reached.2, refines⟩
      · rw [if_neg reached]
        rw [size, bound, not_and_or, not_not, Nat.not_le] at reached
        exact ⟨queue.accept m, .accepts isOpen inside reached, refines.accept inside⟩

theorem Refines.recv {channel : InprocChannel} {queue : PriorityQueue}
    (refines : channel.Refines queue) (m : MessageFrame) :
    ∃ next, PriorityQueue.Step queue (.recv m, .received (channel.recvEnter m 0).1) next ∧
      (channel.recvEnter m 0).2.Refines next := by
  rw [recvEnter]
  cases picked : InprocChannel.pick channel.queues with
  | none =>
      have empty := refines.empty_iff.mp (pick_none.mp picked)
      exact ⟨queue, .finds m empty, refines⟩
  | some outcome =>
      obtain ⟨rest, takes, kept⟩ := refines.pick picked
      exact ⟨_, .returns m takes, kept⟩

theorem Refines.call {channel : InprocChannel} {queue : PriorityQueue}
    (refines : channel.Refines queue) (called : ChannelCall) :
    ∃ next, PriorityQueue.Step queue (called, (channel.call called).1) next ∧
      (channel.call called).2.Refines next := by
  cases called with
  | send m => exact refines.send m
  | recv m => exact refines.recv m
  | close => exact ⟨_, .close, refines.capacity, rfl, refines.numbered, refines.levels, refines.inside⟩

theorem Refines.runCalls {channel : InprocChannel} {queue : PriorityQueue}
    (refines : channel.Refines queue) (calls : List ChannelCall) :
    ∃ final, Run PriorityQueue.Step queue (channel.runCalls calls).1 final ∧
      (channel.runCalls calls).2.Refines final := by
  induction calls generalizing channel queue with
  | nil => exact ⟨queue, .nil, refines⟩
  | cons first rest ih =>
      obtain ⟨next, step, kept⟩ := refines.call first
      obtain ⟨final, run, reached⟩ := ih kept
      exact ⟨final, .cons step run, reached⟩

end InprocChannel

namespace PriorityQueue

open InprocChannel

/-- The accepted frames carry 1, 2, 3 and so on, as numbers of 64 bits. -/
def Numbered (queue : PriorityQueue) : Prop :=
  queue.accepted.map MessageFrame.seq =
    (List.range queue.accepted.length).map fun count => UInt64.ofNat (count + 1)

theorem step_numbered {queue next : PriorityQueue} {event : ChannelCall × Answer}
    (step : Step queue event next) (numbered : queue.Numbered) : next.Numbered := by
  cases step with
  | refuses => exact numbered
  | rejects => exact numbered
  | full => exact numbered
  | accepts =>
      rw [Numbered] at numbered
      simp only [Numbered, accept, List.map_append, List.length_append, List.length_singleton,
        List.range_succ, numbered]
      rfl
  | returns => exact numbered
  | finds => exact numbered
  | close => exact numbered

theorem run_numbered {queue final : PriorityQueue} {events : List (ChannelCall × Answer)}
    (run : Run Step queue events final) (numbered : queue.Numbered) : final.Numbered := by
  induction run with
  | nil => exact numbered
  | cons step _ ih => exact ih (step_numbered step numbered)

end PriorityQueue

namespace InprocChannel

open PriorityQueue

def drained (m : MessageFrame) (frames : List MessageFrame) : List (ChannelCall × Answer) :=
  frames.map (fun frame => (.recv m, .received (.done .ok frame))) ++
    [(.recv m, .received (.done .timeout m))]

theorem Refines.drain {channel : InprocChannel} {queue : PriorityQueue}
    (refines : channel.Refines queue) (m : MessageFrame) :
    ∃ frames : List MessageFrame, frames.Perm queue.pending ∧
      (channel.runCalls (List.replicate (frames.length + 1) (.recv m))).1 = drained m frames := by
  obtain ⟨count, length⟩ : ∃ count, queue.pending.length = count := ⟨_, rfl⟩
  induction count generalizing channel queue with
  | zero =>
      have empty := List.length_eq_zero_iff.mp length
      have none := pick_none.mpr (refines.empty_iff.mpr empty)
      refine ⟨[], by rw [empty], ?_⟩
      simp [InprocChannel.runCalls, InprocChannel.call, recvEnter, none, drained]
  | succ count ih =>
      cases picked : InprocChannel.pick channel.queues with
      | none =>
          rw [refines.empty_iff.mp (pick_none.mp picked)] at length
          cases length
      | some outcome =>
          obtain ⟨front, queues⟩ := outcome
          obtain ⟨rest, takes, kept⟩ := refines.pick picked
          have fewer : rest.length = count := by
            have total := takes.perm.length_eq
            rw [length, List.length_cons] at total
            omega
          obtain ⟨frames, same, answers⟩ := ih kept fewer
          refine ⟨front :: frames, (same.cons front).trans takes.perm.symm, ?_⟩
          rw [List.length_cons, List.replicate_succ, InprocChannel.runCalls]
          simp only [InprocChannel.call, recvEnter, picked, answers, drained, List.map_cons,
            List.cons_append]

/-- The answers to any calls are those of one priority queue, whose frames carry the numbers from 1
on and can all still be received. -/
theorem inproc_refines_priorityQueue (capacity : Nat) (calls : List ChannelCall) :
    ∃ queue, Run PriorityQueue.Step { capacity := capacity }
        (InprocChannel.runCalls { capacity := capacity } calls).1 queue ∧
      Refines (InprocChannel.runCalls { capacity := capacity } calls).2 queue ∧ queue.Numbered ∧
      ∀ m, ∃ frames : List MessageFrame, frames.Perm queue.pending ∧
        ((InprocChannel.runCalls { capacity := capacity } calls).2.runCalls
          (List.replicate (frames.length + 1) (.recv m))).1 = drained m frames := by
  obtain ⟨queue, run, refines⟩ := (refines_start capacity).runCalls calls
  exact ⟨queue, run, refines, run_numbered run rfl, refines.drain⟩

/-- What every open channel with room for a frame would have to answer. -/
theorem inproc_priority_outside :
    ¬ ∀ (capacity : Nat) (calls : List ChannelCall) (m : MessageFrame),
      ((InprocChannel.runCalls { capacity := capacity } calls).2).closed = false →
        (∀ level : Fin 3, level.val = priorityOf m →
          ((InprocChannel.runCalls { capacity := capacity } calls).2.queues level).length < capacity) →
          ((InprocChannel.runCalls { capacity := capacity } calls).2.sendBase m).1 = .ok := by
  intro claimed
  have answer := claimed 1 [] { priority := ⟨7⟩ } rfl (by
    intro level here
    have outside : level.val ≠ 7 := by omega
    exact absurd here outside)
  cases answer

end InprocChannel

end Udaf
