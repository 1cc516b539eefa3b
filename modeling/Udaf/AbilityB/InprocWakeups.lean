import Udaf.AbilityB.InprocLoss
import Udaf.Lib.Wakeups

/-!
No wake-up of a channel is lost. While a caller waits, every frame that is queued has a
caller that is on its way to it or still has to notify one, and once the channel is
closed, a caller of `close` that has not yet notified them all.
-/

namespace Udaf

open Runs Wakeups

namespace InprocChannel

def Caller.Waits : Caller → Prop
  | .blocked _ _ => True
  | _ => False

def Caller.Helps : Caller → Prop
  | .notifying | .woken _ _ | .expired _ => True
  | _ => False

def Caller.Closes : Caller → Prop
  | .closing => True
  | _ => False

def total (queues : Fin 3 → List MessageFrame) : Nat :=
  (queues ⟨0, by decide⟩).length + (queues ⟨1, by decide⟩).length + (queues ⟨2, by decide⟩).length

def stored (channel : InprocChannel) : Nat := total channel.queues

def ends (channel : InprocChannel) : Nat := if channel.closed then 1 else 0

structure System.Attended {ι : Type} (system : System ι) : Prop where
  frames : Served Caller.Waits Caller.Helps system.callers system.channel.stored
  close : Served Caller.Waits Caller.Closes system.callers system.channel.ends

section Queues

variable {channel after : InprocChannel} {m : MessageFrame}

theorem total_update (queues : Fin 3 → List MessageFrame) (level : Fin 3) (frames : List MessageFrame) :
    total (Function.update queues level frames) + (queues level).length = total queues + frames.length := by
  have others : (⟨0, by decide⟩ : Fin 3) ≠ ⟨1, by decide⟩ ∧ (⟨0, by decide⟩ : Fin 3) ≠ ⟨2, by decide⟩ ∧
      (⟨1, by decide⟩ : Fin 3) ≠ ⟨2, by decide⟩ := by decide
  obtain ⟨first, second, third⟩ := others
  match level with
  | ⟨0, _⟩ =>
      simp only [total, Function.update_self, Function.update_of_ne first.symm,
        Function.update_of_ne second.symm]
      omega
  | ⟨1, _⟩ =>
      simp only [total, Function.update_self, Function.update_of_ne first,
        Function.update_of_ne third.symm]
      omega
  | ⟨2, _⟩ =>
      simp only [total, Function.update_self, Function.update_of_ne second,
        Function.update_of_ne third]
      omega

theorem pick_total {queues taken : Fin 3 → List MessageFrame} {front : MessageFrame}
    (picked : pick queues = some (front, taken)) : total taken + 1 = total queues := by
  obtain ⟨level, behind, holds, rfl⟩ := pickFrom_some picked
  have sizes := total_update queues level behind
  rw [holds, List.length_cons] at sizes
  omega

theorem total_empty {queues : Fin 3 → List MessageFrame} (picked : pick queues = none) :
    total queues = 0 := by
  have empty := pick_none.mp picked
  simp [total, empty]

theorem push_stored {frame : MessageFrame} {inside : m.priority.value.toNat < 3}
    (pushed : channel.push m inside = some (frame, after)) :
    after.stored = channel.stored + 1 ∧ after.closed = channel.closed := by
  rw [push] at pushed
  simp only at pushed
  split at pushed
  · cases pushed
  · cases pushed
    refine ⟨?_, rfl⟩
    have sizes := total_update channel.queues ⟨m.priority.value.toNat, inside⟩
      (channel.queues ⟨m.priority.value.toNat, inside⟩ ++ [{ m with seq := channel.nextSeq + 1 }])
    rw [List.length_append, List.length_singleton] at sizes
    change total (Function.update _ _ _) = total _ + 1
    omega

theorem afterWait_stored {turn : RecvTurn} (waited : channel.afterWait m = (turn, after)) :
    turn ≠ .waits ∧ after.stored = channel.stored - 1 ∧ after.closed = channel.closed := by
  rw [afterWait] at waited
  split at waited
  · rename_i empty
    cases waited
    refine ⟨(by intro same; cases same), ?_, rfl⟩
    simp [stored, total, empty.2]
  · split at waited
    · rename_i front queues picked
      cases waited
      have fewer := pick_total picked
      refine ⟨(by intro same; cases same), ?_, rfl⟩
      change total queues = total channel.queues - 1
      omega
    · rename_i picked
      cases waited
      have empty := total_empty picked
      refine ⟨(by intro same; cases same), ?_, rfl⟩
      change total channel.queues = total channel.queues - 1
      omega

theorem recheck_stored {expired : Bool} {turn : RecvTurn}
    (rechecked : channel.recheck m expired = (turn, after)) :
    after.closed = channel.closed ∧ after.stored ≤ channel.stored - 1 ∧
      (turn = .waits → after.closed = false ∧ after.stored = 0 ∧ expired = false) := by
  rw [recheck, waitPredicate] at rechecked
  by_cases closed : channel.closed
  · rw [if_pos closed] at rechecked
    obtain ⟨turned, fewer, same⟩ := afterWait_stored rechecked
    exact ⟨same, Nat.le_of_eq fewer, fun waits => absurd waits turned⟩
  · rw [if_neg closed] at rechecked
    cases picked : pick channel.queues with
    | some outcome =>
        obtain ⟨front, queues⟩ := outcome
        rw [picked] at rechecked
        obtain ⟨turned, fewer, same⟩ := afterWait_stored rechecked
        have first := pick_total picked
        refine ⟨same, ?_, fun waits => absurd waits turned⟩
        change after.stored = total queues - 1 at fewer
        change after.stored ≤ total channel.queues - 1
        omega
    | none =>
        rw [picked] at rechecked
        simp only at rechecked
        have empty : channel.stored = 0 := total_empty picked
        cases expired with
        | true =>
            obtain ⟨turned, fewer, same⟩ := afterWait_stored rechecked
            exact ⟨same, Nat.le_of_eq fewer, fun waits => absurd waits turned⟩
        | false =>
            cases rechecked
            exact ⟨rfl, by omega, fun _ => ⟨by simpa using closed, empty, rfl⟩⟩

theorem recvEnter_stored {timeoutMs : Int} {turn : RecvTurn}
    (entered : channel.recvEnter m timeoutMs = (turn, after)) :
    after.closed = channel.closed ∧ after.stored ≤ channel.stored ∧
      (turn = .waits → after.closed = false ∧ after.stored = 0) := by
  rw [recvEnter] at entered
  cases picked : pick channel.queues with
  | some outcome =>
      obtain ⟨front, queues⟩ := outcome
      rw [picked] at entered
      cases entered
      have fewer := pick_total picked
      refine ⟨rfl, ?_, fun waits => by cases waits⟩
      change total queues ≤ total channel.queues
      omega
  | none =>
      rw [picked] at entered
      simp only at entered
      split at entered
      · cases entered
        exact ⟨rfl, Nat.le_refl _, fun waits => by cases waits⟩
      · split at entered
        · cases entered
          exact ⟨rfl, Nat.le_refl _, fun waits => by cases waits⟩
        · obtain ⟨same, fewer, waits⟩ := recheck_stored entered
          exact ⟨same, by omega, fun waited => ⟨(waits waited).1, (waits waited).2.1⟩⟩

end Queues

theorem Caller.Waits.blocked {caller : Caller} (waits : caller.Waits) :
    ∃ m timeoutMs, caller = .blocked m timeoutMs := by
  cases caller with
  | blocked m timeoutMs => exact ⟨m, timeoutMs, rfl⟩
  | idle | sending | notifying | closing | woken | expired => exact absurd waits id

theorem Caller.Closes.closing {caller : Caller} (closes : caller.Closes) : caller = .closing := by
  cases caller with
  | closing => rfl
  | idle | sending | notifying | blocked | woken | expired => exact absurd closes id

variable {ι : Type}

section Rules

variable {callers : ι → Caller} {channel after : InprocChannel} {old state : Caller} {thread : ι}

theorem attended_alone (alone : ∀ caller, ¬ (callers caller).Waits) :
    System.Attended ⟨channel, callers⟩ :=
  ⟨served_alone alone, served_alone alone⟩

theorem attended_empty (opened : channel.closed = false) (empty : channel.stored = 0) :
    System.Attended ⟨channel, callers⟩ := by
  constructor
  · rw [empty]
    exact served_empty
  · rw [ends, opened]
    exact served_empty

variable [DecidableEq ι]

theorem System.Attended.closers (attended : System.Attended ⟨channel, callers⟩)
    (before : callers thread = old)
    (sleepers : (∃ caller, (Function.update callers thread state caller).Waits) →
      ∃ caller, (callers caller).Waits)
    (closes : old.Closes → state.Closes) (same : after.closed = channel.closed) :
    Served Caller.Waits Caller.Closes (Function.update callers thread state) after.ends := by
  intro sleeper
  have enough := attended.close (sleepers sleeper)
  rw [ends, same]
  refine enough.imp fun caller closing => update_awake ?_ closing
  rw [before]
  exact closes

theorem System.Attended.moves (attended : System.Attended ⟨channel, callers⟩)
    (before : callers thread = old) (asleep : state.Waits → old.Waits)
    (helps : old.Helps → state.Helps) (closes : old.Closes → state.Closes)
    (fewer : after.stored ≤ channel.stored) (same : after.closed = channel.closed) :
    System.Attended ⟨after, Function.update callers thread state⟩ := by
  subst before
  exact ⟨Served.moves attended.frames asleep helps fewer, attended.closers rfl
    (fun ⟨caller, sleeps⟩ => ⟨caller, update_sleeping asleep sleeps⟩) closes same⟩

theorem System.Attended.wakes (attended : System.Attended ⟨channel, callers⟩) {m : MessageFrame}
    {timeoutMs : Int} (waits : callers thread = .blocked m timeoutMs) (rises : state.Helps)
    (more : after.stored ≤ channel.stored + 1) (same : after.closed = channel.closed) :
    System.Attended ⟨after, Function.update callers thread state⟩ := by
  have slept : (callers thread).Waits := by
    rw [waits]
    trivial
  have drowsy : ¬ (callers thread).Helps := by
    rw [waits]
    exact id
  exact ⟨Served.wakes attended.frames slept drowsy rises more,
    attended.closers waits (fun _ => ⟨thread, slept⟩) False.elim same⟩

theorem System.Attended.leaves (attended : System.Attended ⟨channel, callers⟩)
    (before : callers thread = old) (closes : ¬ old.Closes)
    (fewer : after.stored ≤ channel.stored - 1) (same : after.closed = channel.closed) :
    System.Attended ⟨after, Function.update callers thread .idle⟩ := by
  refine ⟨?_, attended.closers before ?_ (fun closing => absurd closing closes) same⟩
  · cases held : channel.stored with
    | zero =>
        have empty : after.stored = 0 := by omega
        rw [empty]
        exact served_empty
    | succ count =>
        have taken : after.stored + 1 ≤ channel.stored := by omega
        exact Served.leaves attended.frames id taken
  · rintro ⟨caller, sleeps⟩
    exact ⟨caller, update_sleeping False.elim sleeps⟩

theorem System.Attended.turns (attended : System.Attended ⟨channel, callers⟩) {m : MessageFrame}
    {timeoutMs : Int} {expired : Bool} {turn : RecvTurn} (before : callers thread = old)
    (closes : ¬ old.Closes) (rechecked : channel.recheck m expired = (turn, after)) :
    System.Attended ⟨after, Function.update callers thread (.afterTurn m timeoutMs turn)⟩ := by
  obtain ⟨same, fewer, waits⟩ := recheck_stored rechecked
  cases turn with
  | waits => exact attended_empty (waits rfl).1 (waits rfl).2.1
  | done status frame => exact attended.leaves before closes fewer same

end Rules

variable [DecidableEq ι]

theorem step_attended {system next : System ι} {event : Event ι} (step : Step system event next)
    (attended : system.Attended) : next.Attended := by
  obtain ⟨channel, callers⟩ := system
  cases step with
  | sendRefused => exact attended
  | sendChecked idle => exact attended.moves idle False.elim False.elim False.elim (Nat.le_refl _) rfl
  | sendFull sending => exact attended.moves sending False.elim False.elim False.elim (Nat.le_refl _) rfl
  | @sendAccepted thread m frame after inside sending pushed =>
      obtain ⟨more, same⟩ := push_stored pushed
      have before : callers thread = .sending m inside := sending
      have drowsy : ¬ (callers thread).Helps := by
        rw [before]
        exact id
      exact ⟨Served.joins attended.frames False.elim drowsy trivial (Nat.le_of_eq more),
        attended.closers before (fun ⟨caller, sleeps⟩ => ⟨caller, update_sleeping False.elim sleeps⟩)
          False.elim same⟩
  | @notifyOne thread other notifying m timeoutMs waiting =>
      have before : callers other = .blocked m timeoutMs := waiting
      have apart : thread ≠ other := by
        rintro rfl
        rw [show callers thread = .notifying from notifying] at before
        cases before
      have slept : (callers other).Waits ∧ ¬ (callers other).Helps := by
        rw [before]
        exact ⟨trivial, id⟩
      have woken : System.Attended ⟨channel, Function.update callers other (.woken m timeoutMs)⟩ :=
        attended.wakes before trivial (Nat.le_succ _) rfl
      have left : Function.update callers other (.woken m timeoutMs) thread = .notifying := by
        rw [Function.update_of_ne apart]
        exact notifying
      change System.Attended ⟨channel, Function.update (Function.update callers thread .idle) other _⟩
      rw [Function.update_comm apart]
      exact ⟨Served.leaves (Served.wakes attended.frames slept.1 slept.2 trivial (Nat.le_refl _)) id
          (Nat.le_refl _),
        woken.closers left (fun ⟨caller, sleeps⟩ => ⟨caller, update_sleeping False.elim sleeps⟩)
          False.elim rfl⟩
  | notifyNone notifying alone =>
      refine attended_alone ?_
      intro caller sleeps
      obtain ⟨m, timeoutMs, waits⟩ := (update_sleeping False.elim sleeps).blocked
      exact alone caller m timeoutMs waits
  | @close thread idle =>
      have before : callers thread = .idle := idle
      have drowsy : ¬ (callers thread).Closes := by
        rw [before]
        exact id
      refine ⟨Served.moves attended.frames False.elim ?_ (Nat.le_refl _),
        Served.joins attended.close False.elim drowsy trivial (Nat.le_add_left 1 _)⟩
      rw [show System.callers ⟨channel, callers⟩ thread = .idle from before]
      exact False.elim
  | @notifyAll thread closing =>
      refine attended_alone ?_
      intro caller sleeps
      have woken : (callers caller).wake.Waits := @update_sleeping ι Caller Caller.Waits
        (fun other => (callers other).wake) _ .idle thread False.elim caller sleeps
      cases held : callers caller with
      | idle | sending | notifying | closing | blocked | woken | expired =>
          rw [held] at woken
          exact woken
  | @recvEnters thread idle m timeoutMs turn after entered =>
      obtain ⟨same, fewer, waits⟩ := recvEnter_stored entered
      cases turn with
      | waits => exact attended_empty (waits rfl).1 (waits rfl).2
      | done status frame => exact attended.moves idle False.elim False.elim False.elim fewer same
  | rouse waiting => exact attended.wakes waiting trivial (Nat.le_succ _) rfl
  | timeOut waiting timed => exact attended.wakes waiting trivial (Nat.le_succ _) rfl
  | rechecks woken rechecked => exact attended.turns woken id rechecked
  | @rechecksLast thread m expired turn after rechecked =>
      obtain ⟨same, fewer, -⟩ := recheck_stored rechecked
      exact attended.leaves expired id fewer same

theorem run_attended {system final : System ι} {events : List (Event ι)}
    (run : Run Step system events final) (attended : system.Attended) : final.Attended := by
  induction run with
  | nil => exact attended
  | cons step _ ih => exact ih (step_attended step attended)

/-- While a caller waits, each stored frame has somebody awake to see to it, and so has a close. -/
theorem waiting_helped {capacity : Nat} {events : List (Event ι)} {system : System ι}
    (run : Run Step { channel := { capacity := capacity } } events system) {thread : ι}
    (waits : (system.callers thread).Waits) :
    (∃ helpers : List ι, helpers.Nodup ∧ helpers.length = system.channel.stored ∧
      ∀ helper ∈ helpers, (system.callers helper).Helps) ∧
    (system.channel.closed = true → ∃ closer, system.callers closer = .closing) := by
  have start : ({ channel := { capacity := capacity } } : System ι).Attended := attended_empty rfl rfl
  have attended := run_attended run start
  refine ⟨attended.frames ⟨thread, waits⟩, ?_⟩
  intro closed
  obtain ⟨closers, -, size, closes⟩ := attended.close ⟨thread, waits⟩
  rw [ends, if_pos closed] at size
  obtain ⟨closer, rfl⟩ := List.length_eq_one_iff.mp size
  exact ⟨closer, (closes closer (List.mem_singleton_self closer)).closing⟩

theorem waiting_helped_sample :
    ∃ system : System Nat, (system.callers 1).Waits ∧ system.channel.stored = 1 ∧
      system.channel.closed = true ∧
      (∃ helpers : List Nat, helpers.Nodup ∧ helpers.length = system.channel.stored ∧
        ∀ helper ∈ helpers, (system.callers helper).Helps) ∧
      (system.channel.closed = true → ∃ closer, system.callers closer = .closing) := by
  have run : ∃ events, ∃ system : System Nat,
      Run Step { channel := { capacity := 2 } } events system ∧ (system.callers 1).Waits ∧
        system.channel.stored = 1 ∧ system.channel.closed = true := by
    refine ⟨_, _, .cons (@Step.recvEnters _ _ _ 0 rfl {} (-1) _ _ rfl)
      (.cons (@Step.recvEnters _ _ _ 1 rfl {} (-1) _ _ rfl)
        (.cons (@Step.sendChecked _ _ _ 2 rfl {} (by decide) rfl)
          (.cons (@Step.sendAccepted _ _ _ 2 _ _ _ _ rfl rfl)
            (.cons (@Step.close _ _ _ 3 rfl) .nil)))), ?_, rfl, rfl⟩
    trivial
  obtain ⟨events, system, run, waits, size, closed⟩ := run
  exact ⟨system, waits, size, closed, waiting_helped run waits⟩

end InprocChannel

end Udaf
