import Udaf.AbilityB.InprocChannel

/-!
What becomes of a frame. In every step, what a queue gives up is what `pick` took: the
frame that `recv_base` returns, and before it one that the predicate of the wait took
and nobody gets. So nothing is lost as long as a caller that waits never looks again
while the channel is open and holds a frame.
-/

namespace Udaf

open ByteString Runs

namespace InprocChannel

def only (level : Fin 3) (frames : List MessageFrame) : List MessageFrame :=
  frames.filter fun frame => frame.priority.value.toNat = level.val

@[simp] theorem only_nil (level : Fin 3) : only level [] = [] := rfl

@[simp] theorem only_append (level : Fin 3) (front back : List MessageFrame) :
    only level (front ++ back) = only level front ++ only level back :=
  List.filter_append front back

def Leveled (queues : Fin 3 → List MessageFrame) : Prop :=
  ∀ level, ∀ frame ∈ queues level, frame.priority.value.toNat = level.val

theorem only_here {level : Fin 3} {frame : MessageFrame}
    (here : frame.priority.value.toNat = level.val) : only level [frame] = [frame] := by
  simp [only, here]

theorem only_elsewhere {level other : Fin 3} {frame : MessageFrame}
    (here : frame.priority.value.toNat = level.val) (apart : other ≠ level) :
    only other [frame] = [] := by
  have values : level.val ≠ other.val := fun same => apart (Fin.ext same.symm)
  simp [only, here, values]

theorem pickFrom_some {queues after : Fin 3 → List MessageFrame} {levels : List (Fin 3)}
    {front : MessageFrame} (picked : pickFrom queues levels = some (front, after)) :
    ∃ level behind, queues level = front :: behind ∧ after = Function.update queues level behind := by
  induction levels with
  | nil => cases picked
  | cons level rest ih =>
      rw [pickFrom] at picked
      cases holds : queues level with
      | nil =>
          rw [holds] at picked
          exact ih picked
      | cons first behind =>
          rw [holds] at picked
          cases picked
          exact ⟨level, behind, holds, rfl⟩

theorem pickFrom_none {queues : Fin 3 → List MessageFrame} {levels : List (Fin 3)} :
    pickFrom queues levels = none ↔ ∀ level ∈ levels, queues level = [] := by
  induction levels with
  | nil => simp [pickFrom]
  | cons level rest ih =>
      rw [pickFrom]
      cases holds : queues level with
      | nil => simp [ih, holds]
      | cons first behind => simp [holds]

theorem pick_none {queues : Fin 3 → List MessageFrame} :
    pick queues = none ↔ ∀ level, queues level = [] := by
  rw [pick, pickFrom_none]
  constructor
  · intro empty level
    have all : ∀ level : Fin 3, level ∈ [0, 1, 2] := by decide
    exact empty level (all level)
  · intro empty level _
    exact empty level

theorem pick_some {queues after : Fin 3 → List MessageFrame} {front : MessageFrame}
    (leveled : Leveled queues) (picked : pick queues = some (front, after)) :
    Leveled after ∧ ∀ level, queues level = only level [front] ++ after level := by
  obtain ⟨level, behind, holds, rfl⟩ := pickFrom_some picked
  have here := leveled level front (by rw [holds]; exact List.mem_cons_self)
  constructor
  · intro other frame member
    by_cases same : other = level
    · subst same
      rw [Function.update_self] at member
      exact leveled other frame (by rw [holds]; exact List.mem_cons_of_mem _ member)
    · rw [Function.update_of_ne same] at member
      exact leveled other frame member
  · intro other
    by_cases same : other = level
    · subst same
      rw [Function.update_self, only_here here, holds]
      rfl
    · rw [Function.update_of_ne same, only_elsewhere here same, List.nil_append]

def RecvTurn.returned : RecvTurn → List MessageFrame
  | .done .ok m => [m]
  | _ => []

def taken (channel : InprocChannel) : List MessageFrame :=
  if channel.closed then [] else ((pick channel.queues).map Prod.fst).toList

structure Balanced (channel after : InprocChannel) (dropped : List MessageFrame) (turn : RecvTurn) :
    Prop where
  leveled : Leveled after.queues
  balance (level : Fin 3) : channel.queues level =
    only level dropped ++ (only level (RecvTurn.returned turn) ++ after.queues level)
  idle : dropped = [] → RecvTurn.returned turn = [] → after.queues = channel.queues

theorem afterWait_balanced {channel : InprocChannel} (leveled : Leveled channel.queues)
    (m : MessageFrame) :
    Balanced channel (channel.afterWait m).2 [] (channel.afterWait m).1 := by
  rw [afterWait]
  split
  · exact ⟨leveled, fun _ => rfl, fun _ _ => rfl⟩
  · split
    · rename_i front queues picked
      obtain ⟨kept, balance⟩ := pick_some leveled picked
      exact ⟨kept, balance, nofun⟩
    · exact ⟨leveled, fun _ => rfl, fun _ _ => rfl⟩

theorem recheck_balanced {channel : InprocChannel} (leveled : Leveled channel.queues)
    (m : MessageFrame) (expired : Bool) :
    Balanced channel (channel.recheck m expired).2 channel.taken (channel.recheck m expired).1 := by
  rw [recheck, waitPredicate, taken]
  by_cases closed : channel.closed
  · rw [if_pos closed, if_pos closed]
    exact afterWait_balanced leveled m
  · rw [if_neg closed, if_neg closed]
    cases picked : pick channel.queues with
    | none =>
        cases expired with
        | true => exact afterWait_balanced leveled m
        | false => exact ⟨leveled, fun _ => rfl, fun _ _ => rfl⟩
    | some outcome =>
        obtain ⟨front, queues⟩ := outcome
        obtain ⟨kept, balance⟩ := pick_some leveled picked
        obtain ⟨keptBehind, behind, -⟩ := @afterWait_balanced { channel with queues := queues } kept front
        refine ⟨keptBehind, ?_, nofun⟩
        intro level
        rw [balance level]
        exact congrArg _ (behind level)

theorem recvEnter_balanced {channel : InprocChannel} (leveled : Leveled channel.queues)
    (m : MessageFrame) (timeoutMs : Int) :
    Balanced channel (channel.recvEnter m timeoutMs).2 [] (channel.recvEnter m timeoutMs).1 := by
  rw [recvEnter]
  cases picked : pick channel.queues with
  | some outcome =>
      obtain ⟨front, queues⟩ := outcome
      obtain ⟨kept, balance⟩ := pick_some leveled picked
      exact ⟨kept, balance, nofun⟩
  | none =>
      simp only
      split
      · exact ⟨leveled, fun _ => rfl, fun _ _ => rfl⟩
      · split
        · exact ⟨leveled, fun _ => rfl, fun _ _ => rfl⟩
        · have balanced := recheck_balanced leveled m false
          have nothing : channel.taken = [] := by
            rw [taken, picked]
            split <;> rfl
          rwa [nothing] at balanced

theorem queued_balanced {queues : Fin 3 → List MessageFrame} (leveled : Leveled queues)
    {level : Fin 3} {frame : MessageFrame} (here : frame.priority.value.toNat = level.val) :
    Leveled (Function.update queues level (queues level ++ [frame])) ∧
      ∀ other, Function.update queues level (queues level ++ [frame]) other =
        queues other ++ only other [frame] := by
  constructor
  · intro other queued member
    by_cases same : other = level
    · subst same
      rw [Function.update_self] at member
      rcases List.mem_append.mp member with old | new
      · exact leveled other queued old
      · rw [List.mem_singleton.mp new]
        exact here
    · rw [Function.update_of_ne same] at member
      exact leveled other queued member
  · intro other
    by_cases same : other = level
    · subst same
      rw [Function.update_self, only_here here]
    · rw [Function.update_of_ne same, only_elsewhere here same, List.append_nil]

theorem push_balanced {channel after : InprocChannel} {m frame : MessageFrame}
    {inside : m.priority.value.toNat < 3} (leveled : Leveled channel.queues)
    (pushed : channel.push m inside = some (frame, after)) :
    Leveled after.queues ∧ ∀ level, after.queues level = channel.queues level ++ only level [frame] := by
  rw [push] at pushed
  simp only at pushed
  split at pushed
  · cases pushed
  · cases pushed
    exact queued_balanced leveled rfl

variable {ι : Type}

def Event.accepted (event : Event ι) : List MessageFrame :=
  match event.label with
  | .accepted frame => [frame]
  | _ => []

def Event.returned (event : Event ι) : List MessageFrame :=
  match event.label with
  | .entered turn | .rechecked turn => RecvTurn.returned turn
  | _ => []

def Event.dropped (event : Event ι) : List MessageFrame :=
  match event.label with
  | .rechecked _ => event.before.taken
  | _ => []

theorem step_balanced [DecidableEq ι] {system next : System ι} {event : Event ι}
    (step : Step system event next) (leveled : Leveled system.channel.queues) :
    Leveled next.channel.queues ∧ ∀ level,
      system.channel.queues level ++ only level event.accepted =
        only level event.dropped ++ (only level event.returned ++ next.channel.queues level) := by
  cases step with
  | sendAccepted sending pushed =>
      obtain ⟨kept, grown⟩ := push_balanced leveled pushed
      exact ⟨kept, fun level => (grown level).symm⟩
  | recvEnters idle m timeoutMs entered =>
      have balanced := recvEnter_balanced leveled m timeoutMs
      rw [entered] at balanced
      exact ⟨balanced.leveled, fun level => (List.append_nil _).trans (balanced.balance level)⟩
  | @rechecks _ m _ woken _ _ rechecked =>
      have balanced := recheck_balanced leveled m false
      rw [rechecked] at balanced
      exact ⟨balanced.leveled, fun level => (List.append_nil _).trans (balanced.balance level)⟩
  | @rechecksLast _ m expired _ _ rechecked =>
      have balanced := recheck_balanced leveled m true
      rw [rechecked] at balanced
      exact ⟨balanced.leveled, fun level => (List.append_nil _).trans (balanced.balance level)⟩
  | sendRefused | sendChecked | sendFull | notifyOne | notifyNone | close | notifyAll | rouse
  | timeOut =>
      exact ⟨leveled, fun level => List.append_nil _⟩

def Event.GaveUp (event : Event ι) : Prop :=
  match event.label with
  | .entered (.done status _) | .rechecked (.done status _) => status ≠ .ok
  | _ => False

theorem gaveUp_returned {event : Event ι} (gaveUp : event.GaveUp) :
    event.returned = [] ∧ event.accepted = [] := by
  obtain ⟨thread, before, label, after⟩ := event
  cases label with
  | entered turn | rechecked turn =>
      refine ⟨?_, rfl⟩
      cases turn with
      | done status m =>
          cases status with
          | ok => exact absurd rfl gaveUp
          | timeout | closed | error => rfl
      | waits => rfl
  | refused | checked | accepted | sent | closed | closeDone | roused | timedOut => cases gaveUp

theorem step_idle [DecidableEq ι] {system next : System ι} {event : Event ι}
    (step : Step system event next) (leveled : Leveled system.channel.queues)
    (accepts : event.accepted = []) (drops : event.dropped = []) (returns : event.returned = []) :
    event.after.queues = event.before.queues := by
  cases step with
  | sendAccepted sending pushed => cases accepts
  | recvEnters idle m timeoutMs entered =>
      have balanced := recvEnter_balanced leveled m timeoutMs
      rw [entered] at balanced
      exact balanced.idle rfl returns
  | @rechecks _ m _ woken _ _ rechecked =>
      have balanced := recheck_balanced leveled m false
      rw [rechecked] at balanced
      exact balanced.idle drops returns
  | @rechecksLast _ m expired _ _ rechecked =>
      have balanced := recheck_balanced leveled m true
      rw [rechecked] at balanced
      exact balanced.idle drops returns
  | sendRefused | sendChecked | sendFull | notifyOne | notifyNone | close | notifyAll | rouse
  | timeOut => rfl

theorem taken_leveled {channel : InprocChannel} (leveled : Leveled channel.queues)
    (unseen : ∀ level, only level channel.taken = []) : channel.taken = [] := by
  rw [taken] at unseen ⊢
  split
  · rfl
  · rename_i opened
    rw [if_neg opened] at unseen
    cases picked : pick channel.queues with
    | none => rfl
    | some outcome =>
        obtain ⟨level, behind, holds, -⟩ := pickFrom_some picked
        have here := leveled level outcome.1 (by rw [holds]; exact List.mem_cons_self)
        have seen := unseen level
        rw [picked] at seen
        exact absurd ((only_here here).symm.trans seen) (List.cons_ne_nil _ _)

def acceptedAt (level : Fin 3) (events : List (Event ι)) : List MessageFrame :=
  only level (events.flatMap Event.accepted)

def returnedAt (level : Fin 3) (events : List (Event ι)) : List MessageFrame :=
  only level (events.flatMap Event.returned)

def droppedAt (level : Fin 3) (events : List (Event ι)) : List MessageFrame :=
  only level (events.flatMap Event.dropped)

/-- Of each priority, the frames accepted are those returned, in this order, and then those still
queued; and a call that reports no frame takes none. -/
structure Lossless (past : List (Event ι)) (system : System ι) : Prop where
  conserved (level : Fin 3) :
    acceptedAt level past = returnedAt level past ++ system.channel.queues level
  unconsumed {event : Event ι} : event ∈ past → event.GaveUp →
    event.after.queues = event.before.queues

/-- A caller that waits looks again only when the channel is closed or holds no frame. -/
def Event.Undisturbed (event : Event ι) : Prop :=
  ∀ turn, event.label = .rechecked turn →
    event.before.closed = true ∨ ∀ level, event.before.queues level = []

theorem undisturbed_iff {event : Event ι} : event.Undisturbed ↔ event.dropped = [] := by
  obtain ⟨thread, before, label, after⟩ := event
  cases label with
  | rechecked turn =>
      have quiet : Event.Undisturbed ⟨thread, before, .rechecked turn, after⟩ ↔
          before.closed = true ∨ ∀ level, before.queues level = [] :=
        ⟨fun all => all turn rfl, fun quiet _ _ => quiet⟩
      rw [quiet, Event.dropped, taken, ← pick_none]
      by_cases closed : before.closed = true
      · simp [closed]
      · cases pick before.queues with
        | none => simp
        | some outcome => simp [closed]
  | refused | checked | accepted | sent | closed | closeDone | entered | roused | timedOut =>
      exact ⟨fun _ => rfl, fun _ => nofun⟩

structure Tallied (past : List (Event ι)) (system : System ι) : Prop where
  leveled : Leveled system.channel.queues
  counted (level : Fin 3) : (acceptedAt level past).length = (droppedAt level past).length +
    ((returnedAt level past).length + (system.channel.queues level).length)
  visible : (∀ level, droppedAt level past = []) → ∀ event ∈ past, event.dropped = []
  lossless : (∀ event ∈ past, event.dropped = []) → Lossless past system

theorem initial_tallied (capacity : Nat) :
    Tallied [] ({ channel := { capacity := capacity } } : System ι) where
  leveled := by
    intro level frame member
    cases member
  counted _ := rfl
  visible _ := by simp
  lossless _ := ⟨fun _ => rfl, by simp⟩

theorem only_concat (level : Fin 3) (frames : Event ι → List MessageFrame) (past : List (Event ι))
    (event : Event ι) : only level ((past ++ [event]).flatMap frames) =
      only level (past.flatMap frames) ++ only level (frames event) := by
  rw [List.flatMap_append, only_append, List.flatMap_singleton]

theorem dropped_leveled [DecidableEq ι] {system next : System ι} {event : Event ι}
    (step : Step system event next) (leveled : Leveled system.channel.queues)
    (unseen : ∀ level, only level event.dropped = []) : event.dropped = [] := by
  cases step with
  | rechecks woken rechecked | rechecksLast expired rechecked => exact taken_leveled leveled unseen
  | sendRefused | sendChecked | sendFull | sendAccepted | notifyOne | notifyNone | close | notifyAll
  | recvEnters | rouse | timeOut => rfl

theorem step_lossless [DecidableEq ι] {past : List (Event ι)} {system next : System ι}
    {event : Event ι} (step : Step system event next) (leveled : Leveled system.channel.queues)
    (drops : event.dropped = []) (lossless : Lossless past system) :
    Lossless (past ++ [event]) next := by
  obtain ⟨-, balance⟩ := step_balanced step leveled
  constructor
  · intro level
    have here := balance level
    rw [drops, only_nil, List.nil_append] at here
    have earlier := lossless.conserved level
    rw [acceptedAt, returnedAt] at earlier ⊢
    rw [only_concat, only_concat, earlier, List.append_assoc, List.append_assoc, here]
  · intro other member gaveUp
    rcases List.mem_append.mp member with old | new
    · exact lossless.unconsumed old gaveUp
    · rw [List.mem_singleton.mp new] at gaveUp ⊢
      obtain ⟨returns, accepts⟩ := gaveUp_returned gaveUp
      exact step_idle step leveled accepts drops returns

theorem step_tallied [DecidableEq ι] {past : List (Event ι)} {system next : System ι}
    {event : Event ι} (step : Step system event next) (tallied : Tallied past system) :
    Tallied (past ++ [event]) next := by
  obtain ⟨kept, balance⟩ := step_balanced step tallied.leveled
  constructor
  · exact kept
  · intro level
    have before := tallied.counted level
    have here := congrArg List.length (balance level)
    simp only [acceptedAt, returnedAt, droppedAt, only_concat, List.length_append] at before here ⊢
    omega
  · intro unseen other member
    have halves : ∀ level, droppedAt level past = [] ∧ only level event.dropped = [] := by
      intro level
      have both := unseen level
      rw [droppedAt, only_concat] at both
      exact List.append_eq_nil_iff.mp both
    rcases List.mem_append.mp member with old | new
    · exact tallied.visible (fun level => (halves level).1) other old
    · rw [List.mem_singleton.mp new]
      exact dropped_leveled step tallied.leveled fun level => (halves level).2
  · intro drops
    have earlier : ∀ other ∈ past, other.dropped = [] := fun other member =>
      drops other (List.mem_append_left _ member)
    have last : event.dropped = [] := drops event (List.mem_append_right _ List.mem_cons_self)
    exact step_lossless step tallied.leveled last (tallied.lossless earlier)

theorem run_tallied [DecidableEq ι] {capacity : Nat} {events : List (Event ι)} {final : System ι}
    (run : Run Step { channel := { capacity := capacity } } events final) : Tallied events final :=
  @Run.history _ _ _ (fun past system => Tallied past system) step_tallied [] _ _ _ run
    (initial_tallied capacity)

/-- In every run, nothing is lost exactly if no caller that waits looks again while the channel is
open and holds a frame. -/
theorem lossless_iff [DecidableEq ι] {capacity : Nat} {events : List (Event ι)} {final : System ι}
    (run : Run Step { channel := { capacity := capacity } } events final) :
    Lossless events final ↔ ∀ event ∈ events, event.Undisturbed := by
  have tallied := run_tallied run
  simp only [undisturbed_iff]
  constructor
  · intro lossless
    apply tallied.visible
    intro level
    have counted := tallied.counted level
    rw [lossless.conserved level, List.length_append] at counted
    have none : (droppedAt level events).length = 0 := by omega
    exact List.eq_nil_of_length_eq_zero none
  · exact tallied.lossless

theorem lossless_iff_sent_first :
    ∃ (events : List (Event Bool)) (final : System Bool),
      events.map Event.label = [.checked, .accepted { payload := [7], seq := 1 }, .sent,
        .entered (.done .ok { payload := [7], seq := 1 })] ∧
      (Lossless events final ↔ ∀ event ∈ events, event.Undisturbed) := by
  have run := Run.cons
    (@Step.sendChecked Bool _ { channel := { capacity := 1 } } false rfl { payload := [7] }
      (by decide) rfl)
    (.cons (@Step.sendAccepted Bool _ _ false _ _ _ _ rfl rfl)
      (.cons (@Step.notifyNone Bool _ _ false rfl (by
          intro other m timeoutMs blocked
          cases other <;> cases blocked))
        (.cons (@Step.recvEnters Bool _ _ true rfl {} 0 _ _ rfl) .nil)))
  exact ⟨_, _, rfl, lossless_iff run⟩

/-- The caller waits before the frame is sent: its predicate takes the frame, and it reports
`Timeout`. -/
theorem woken_caller_loses_frame :
    ∃ (events : List (Event Bool)) (final : System Bool),
      Run Step { channel := { capacity := 1 } } events final ∧
        events.map Event.label = [.entered .waits, .checked,
          .accepted { payload := [7], seq := 1 }, .sent,
          .rechecked (.done .timeout { payload := [7], seq := 1 })] ∧
        ¬ Lossless events final := by
  have run := Run.cons
    (@Step.recvEnters Bool _ { channel := { capacity := 1 } } true rfl {} (-1) _ _ rfl)
    (.cons (@Step.sendChecked Bool _ _ false rfl { payload := [7] } (by decide) rfl)
      (.cons (@Step.sendAccepted Bool _ _ false _ _ _ _ rfl rfl)
        (.cons (@Step.notifyOne Bool _ _ false true rfl _ _ rfl)
          (.cons (@Step.rechecks Bool _ _ true _ _ rfl _ _ rfl) .nil))))
  refine ⟨_, _, run, rfl, ?_⟩
  intro lossless
  exact absurd (lossless.conserved 2) (by decide)

end InprocChannel

end Udaf
