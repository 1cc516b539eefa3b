import Udaf.AbilityB.PortQueue
import Udaf.Lib.Wakeups

/-!
No wake-up of a port is lost: while a caller waits, every value in the queue has a caller of
its own that is on its way to it, and these callers alone can empty the queue.
-/

namespace Udaf

open Runs Wakeups

namespace InputPort

variable {τ ι : Type}

def Caller.Waits (caller : Caller) : Prop := ∃ timeoutMs, caller = .blocked timeoutMs

def Caller.Returns (caller : Caller) : Prop := (∃ timeoutMs, caller = .woken timeoutMs) ∨ caller = .expired

theorem returns_not_waits {caller : Caller} (waits : caller.Waits) : ¬ caller.Returns := by
  obtain ⟨timeoutMs, rfl⟩ := waits
  rintro (⟨other, same⟩ | same) <;> cases same

theorem idle_not_waits : ¬ Caller.idle.Waits := by
  rintro ⟨timeoutMs, same⟩
  cases same

/-- While a caller waits, each value in the queue has a caller that returns to it. -/
def System.Attended (system : System τ ι) : Prop :=
  Served Caller.Waits Caller.Returns system.callers system.port.queue.length

theorem takeFront_length (port : InputPort τ) (code : ErrorCode) :
    (port.takeFront code).2.queue.length = port.queue.length - 1 := by
  rw [takeFront]
  cases held : port.queue with
  | nil => simp [held]
  | cons front behind => simp

theorem tryRecv_length {port after : InputPort τ} {result : Except ErrorCode τ}
    (tried : port.tryRecv = (result, after)) : after.queue.length ≤ port.queue.length := by
  have shorter := takeFront_length port .bizServiceNotFound
  rw [tryRecv] at tried
  rw [tried] at shorter
  change after.queue.length = _ at shorter
  omega

theorem recheck_waits {port after : InputPort τ} {expired : Bool}
    (rechecked : port.recheck expired = (.waits, after)) : after.queue = [] := by
  rw [recheck] at rechecked
  split at rechecked
  · rename_i empty
    cases rechecked
    exact List.isEmpty_iff.mp empty.1
  · cases rechecked

theorem recheck_expired {port : InputPort τ} (after : InputPort τ) :
    port.recheck true ≠ (.waits, after) := by
  intro rechecked
  rw [recheck, if_neg (fun both => by cases both.2)] at rechecked
  cases rechecked

theorem recheck_done {port after : InputPort τ} {expired : Bool} {result : Except ErrorCode τ}
    (rechecked : port.recheck expired = (.done result, after)) :
    after.queue.length = port.queue.length - 1 := by
  rw [recheck] at rechecked
  split at rechecked
  · cases rechecked
  · cases rechecked
    exact takeFront_length port .netTimeout

theorem recvEnter_waits {port after : InputPort τ} {timeoutMs : Int}
    (entered : port.recvEnter timeoutMs = (.waits, after)) : after.queue = [] := by
  rw [recvEnter] at entered
  split at entered
  · exact recheck_waits entered
  · cases entered

theorem recvEnter_done {port after : InputPort τ} {timeoutMs : Int} {result : Except ErrorCode τ}
    (entered : port.recvEnter timeoutMs = (.done result, after)) :
    after.queue.length ≤ port.queue.length := by
  rw [recvEnter] at entered
  split at entered
  · have fewer := recheck_done entered
    omega
  · cases entered
    have fewer := takeFront_length port .netTimeout
    omega

theorem push_length {port after : InputPort τ} {v : τ} {result : Except ErrorCode Unit}
    (sends : Sends port v result after) : after.queue.length ≤ port.queue.length + 1 := by
  cases sends.effect with
  | accepts v room => simp
  | refuses v bounded full => omega

theorem push_refused {port after : InputPort τ} {v : τ} {code : ErrorCode}
    (sends : Sends port v (.error code) after) : after.queue.length ≤ port.queue.length := by
  cases sends.effect with
  | refuses v bounded full => exact Nat.le_refl _

variable [DecidableEq ι]

theorem System.Attended.passes {system : System τ ι} (attended : system.Attended) {thread : ι}
    (idle : system.callers thread = .idle) {port : InputPort τ}
    (fewer : port.queue.length ≤ system.port.queue.length) :
    (system.move thread .idle port).Attended := by
  refine Served.moves attended (fun asleep => absurd asleep idle_not_waits) ?_ fewer
  rw [idle]
  exact fun returns => returns

theorem System.Attended.turns {system : System τ ι} (attended : system.Attended) {thread : ι}
    {timeoutMs : Int} {expired : Bool} {turn : RecvTurn τ} {after : InputPort τ}
    (rechecked : system.port.recheck expired = (turn, after)) :
    (system.move thread (.afterTurn timeoutMs turn) after).Attended := by
  cases turn with
  | waits =>
      rw [Attended, System.move, recheck_waits rechecked]
      exact served_empty
  | done result =>
      have shorter := recheck_done rechecked
      cases held : system.port.queue with
      | nil =>
          rw [held, List.length_nil] at shorter
          rw [Attended, System.move, shorter]
          exact served_empty
      | cons front behind =>
          have taken : after.queue.length + 1 ≤ system.port.queue.length := by
            rw [held, List.length_cons] at shorter ⊢
            omega
          exact Served.leaves attended idle_not_waits taken

theorem step_attended {system next : System τ ι} {event : Event τ ι} (step : Step system event next)
    (attended : system.Attended) : next.Attended := by
  cases step with
  | refused idle sends => exact attended.passes idle (push_refused sends)
  | notifies idle sends waiting =>
      refine Served.wakes attended ⟨_, waiting⟩ ?_ (.inl ⟨_, rfl⟩) (push_length sends)
      exact returns_not_waits ⟨_, waiting⟩
  | unheard idle sends alone =>
      refine served_alone ?_
      intro caller asleep
      obtain ⟨timeoutMs, waits⟩ := update_sleeping (fun idle => absurd idle idle_not_waits) asleep
      exact alone caller timeoutMs waits
  | tries idle tried => exact attended.passes idle (tryRecv_length tried)
  | @recvEnters thread idle timeoutMs turn after entered =>
      cases turn with
      | waits =>
          rw [System.Attended, System.move, recvEnter_waits entered]
          exact served_empty
      | done result => exact attended.passes idle (recvEnter_done entered)
  | rouse waiting =>
      exact Served.wakes attended ⟨_, waiting⟩ (returns_not_waits ⟨_, waiting⟩) (.inl ⟨_, rfl⟩)
        (Nat.le_succ _)
  | timeOut waiting timed =>
      exact Served.wakes attended ⟨_, waiting⟩ (returns_not_waits ⟨_, waiting⟩) (.inr rfl)
        (Nat.le_succ _)
  | rechecks woken rechecked => exact attended.turns rechecked
  | @rechecksLast thread expired turn after rechecked =>
      cases turn with
      | waits => exact absurd rechecked (recheck_expired after)
      | done result => exact @System.Attended.turns _ _ _ _ attended thread 0 _ _ _ rechecked

theorem run_attended {system final : System τ ι} {events : List (Event τ ι)}
    (run : Run Step system events final) (attended : system.Attended) : final.Attended := by
  induction run with
  | nil => exact attended
  | cons step _ ih => exact ih (step_attended step attended)

theorem recheck_holds {port : InputPort τ} {front : τ} {behind : List τ}
    (holds : port.queue = front :: behind) (expired : Bool) :
    port.recheck expired = (.done (.ok front), { port with queue := behind }) := by
  have full : ¬ (port.queue.isEmpty ∧ expired = false) := by
    rw [holds]
    exact fun both => by cases both.1
  rw [recheck, if_neg full, takeFront, holds]

theorem returns_takes {system : System τ ι} {thread : ι} {front : τ} {behind : List τ}
    (returns : (system.callers thread).Returns) (holds : system.port.queue = front :: behind) :
    Step system ⟨thread, system.port, .received (.ok front), { system.port with queue := behind }⟩
      (system.move thread .idle { system.port with queue := behind }) := by
  rcases returns with ⟨timeoutMs, woken⟩ | expired
  · exact .rechecks woken (recheck_holds holds false)
  · exact .rechecksLast expired (recheck_holds holds true)

theorem takers_drain (takers : List ι) {system : System τ ι} (apart : takers.Nodup)
    (size : takers.length = system.port.queue.length)
    (each : ∀ taker ∈ takers, (system.callers taker).Returns) :
    ∃ drain final, Run Step system drain final ∧ drain.map Event.thread = takers ∧
      returned drain = system.port.queue ∧ final.port.queue = [] := by
  induction takers generalizing system with
  | nil =>
      have empty := List.length_eq_zero_iff.mp size.symm
      exact ⟨[], system, .nil, rfl, empty.symm, empty⟩
  | cons taker takers ih =>
      obtain ⟨new, apart⟩ := List.nodup_cons.mp apart
      obtain ⟨first, others⟩ := List.forall_mem_cons.mp each
      cases holds : system.port.queue with
      | nil =>
          rw [holds] at size
          cases size
      | cons front behind =>
          rw [holds, List.length_cons, List.length_cons, Nat.add_right_cancel_iff] at size
          have left : ∀ other ∈ takers, ((system.move taker .idle
              { system.port with queue := behind }).callers other).Returns := by
            intro other member
            have different : other ≠ taker := by
              rintro rfl
              exact new member
            change (Function.update system.callers taker .idle other).Returns
            rw [Function.update_of_ne different]
            exact others other member
          obtain ⟨drain, final, run, threads, back, empty⟩ := @ih (system.move taker .idle
            { system.port with queue := behind }) apart size left
          refine ⟨_ :: drain, final, .cons (returns_takes first holds) run, ?_, ?_, empty⟩
          · rw [List.map_cons, threads]
          · rw [returned, List.flatMap_cons, ← returned, back]
            rfl

/-- While a caller waits, the values in the queue have takers on their way, who can take them all. -/
theorem waiting_attended {capacity : Nat} {events : List (Event τ ι)} {system : System τ ι}
    (run : Run Step { port := { capacity := capacity } } events system) {thread : ι}
    (waits : (system.callers thread).Waits) :
    ∃ takers : List ι, takers.Nodup ∧ takers.length = system.port.queue.length ∧
      (∀ taker ∈ takers, (system.callers taker).Returns) ∧
      ∃ drain final, Run Step system drain final ∧ drain.map Event.thread = takers ∧
        returned drain = system.port.queue ∧ final.port.queue = [] := by
  have start : ({ port := { capacity := capacity } } : System τ ι).Attended := served_empty
  obtain ⟨takers, apart, size, each⟩ := run_attended run start ⟨thread, waits⟩
  exact ⟨takers, apart, size, each, takers_drain takers apart size each⟩

theorem waiting_attended_sample :
    ∃ system : System Nat Nat, (system.callers 1).Waits ∧ system.port.queue = [7] ∧
      ∃ takers : List Nat, takers.Nodup ∧ takers.length = system.port.queue.length ∧
        (∀ taker ∈ takers, (system.callers taker).Returns) ∧
        ∃ drain final, Run Step system drain final ∧ drain.map Event.thread = takers ∧
          returned drain = system.port.queue ∧ final.port.queue = [] := by
  have run : ∃ system : System Nat Nat, (system.callers 1).Waits ∧ system.port.queue = [7] ∧
      ∃ events, Run Step { port := { capacity := 2 } } events system :=
    ⟨_, ⟨-1, rfl⟩, rfl, _, .cons (@Step.recvEnters _ _ _ _ 0 rfl (-1) _ _ rfl)
      (.cons (@Step.recvEnters _ _ _ _ 1 rfl (-1) _ _ rfl)
        (.cons (@Step.notifies _ _ _ _ 2 0 rfl 7 _ (.inl rfl) _ rfl) .nil))⟩
  obtain ⟨system, waits, queued, events, run⟩ := run
  exact ⟨system, waits, queued, waiting_attended run waits⟩

end InputPort

end Udaf
