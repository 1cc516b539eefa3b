import Udaf.AbilityA.Background

/-!
When a `stop` holds. A `start` that has won leaves one store of `kRunning` behind it, which
nothing takes back; so a `stop` that exchanges the state before that store is undone by it.
-/

namespace Udaf

open Runs

namespace Background

variable {ι : Type}

def System.Pending (system : System ι) : ι ⊕ Nat → Prop
  | .inl caller => system.callers caller = .starting
  | .inr thread => system.threads[thread]? = some .created

structure Guarded (system : System ι) : Prop where
  quiet : system.state ≠ .kStarting → ∀ place, ¬ system.Pending place
  single : ∀ place other, system.Pending place → system.Pending other → place = other

def Label.caller : Label ι → Option ι
  | .busy caller | .wins caller | .constructs caller _ | .assigns caller | .terminates caller
  | .spins caller | .started caller | .exchanges caller | .joins caller _ | .detached caller
  | .joined caller => some caller
  | _ => none

/-- No `stop` exchanges the state in the middle of a `start`, and no thread stores `kRunning` while
a `stop` is on its way to the join or joins a thread that is still in its loop. -/
def Event.Orderly (event : Event ι) : Prop :=
  match event.label with
  | .exchanges _ => event.before.state ≠ .kStarting
  | .stores _ => ∀ caller, event.before.callers caller ≠ .stopping ∧
      ∀ thread, event.before.callers caller = .joining thread →
        event.before.threads[thread]? = some .finished
  | _ => True

/-- What a `stop` is for, over a whole run. -/
structure Stoppable (events : List (Event ι)) : Prop where
  stays : ∀ past stopper middle store later caller thread,
    events = past ++ stopper :: (middle ++ store :: later) → stopper.label = .exchanges caller →
    store.label = .stores thread → ∃ event ∈ middle, ∃ winner, event.label = .wins winner
  leaves : ∀ past stopper front joiner back caller thread,
    events = past ++ stopper :: (front ++ joiner :: back) → stopper.label = .exchanges caller →
    joiner.label = .joins caller thread → (∀ event ∈ front, event.label.caller ≠ some caller) →
    ∀ event ∈ front ++ back, ∀ running, event.label = .tests thread running → running = false

variable [DecidableEq ι]

theorem pending_of_move {system : System ι} {caller : ι} {place : Caller}
    (other : place ≠ .starting) {pending : ι ⊕ Nat}
    (after : (system.move caller place).Pending pending) : system.Pending pending := by
  cases pending with
  | inr thread => exact after
  | inl another =>
      change (system.move caller place).callers another = .starting at after
      by_cases same : another = caller
      · subst same
        rw [System.move_self] at after
        exact absurd after other
      · rw [System.move_other system same] at after
        exact after

omit [DecidableEq ι] in
theorem pending_of_advance {system : System ι} {thread : Nat} {phase : Phase}
    (other : phase ≠ .created) {pending : ι ⊕ Nat}
    (after : (system.advance thread phase).Pending pending) :
    system.Pending pending ∧ pending ≠ .inr thread := by
  cases pending with
  | inl caller => exact ⟨after, nofun⟩
  | inr another =>
      change (system.advance thread phase).threads[another]? = some .created at after
      by_cases same : another = thread
      · subst same
        exact absurd (System.advance_self after).symm other
      · rw [System.advance_other system same] at after
        exact ⟨after, fun here => same (Sum.inr.inj here)⟩

theorem Guarded.move {system : System ι} (guarded : Guarded system) (caller : ι) {place : Caller}
    (other : place ≠ .starting) : Guarded (system.move caller place) where
  quiet := fun idle pending after => guarded.quiet idle pending (pending_of_move other after)
  single := fun pending another first second =>
    guarded.single pending another (pending_of_move other first) (pending_of_move other second)

omit [DecidableEq ι] in
theorem Guarded.advance {system : System ι} (guarded : Guarded system) (thread : Nat) {phase : Phase}
    (other : phase ≠ .created) : Guarded (system.advance thread phase) where
  quiet := fun idle pending after =>
    guarded.quiet idle pending (pending_of_advance other after).1
  single := fun pending another first second =>
    guarded.single pending another (pending_of_advance other first).1
      (pending_of_advance other second).1

omit [DecidableEq ι] in
theorem Guarded.handle {system : System ι} (guarded : Guarded system) (thread : Option Nat) :
    Guarded { system with thread := thread } :=
  ⟨guarded.quiet, guarded.single⟩

omit [DecidableEq ι] in
theorem Guarded.exchange {system : System ι} (guarded : Guarded system)
    (idle : system.state ≠ .kStarting) : Guarded { system with state := .kStopped } :=
  ⟨fun _ => guarded.quiet idle, guarded.single⟩

theorem Guarded.wins {system : System ι} (guarded : Guarded system) (caller : ι)
    (free : system.state = .kStopped) :
    Guarded ({ system with state := .kStarting }.move caller .starting) := by
  have quiet := guarded.quiet (by rw [free]; decide)
  have only : ∀ place, ({ system with state := State.kStarting }.move caller .starting).Pending place →
      place = .inl caller := by
    intro place pending
    cases place with
    | inr thread => exact absurd pending (quiet (.inr thread))
    | inl another =>
        by_cases same : another = caller
        · rw [same]
        · change (System.move _ caller _).callers another = .starting at pending
          rw [System.move_other _ same] at pending
          exact absurd pending (quiet (.inl another))
  constructor
  · intro idle
    exact absurd rfl idle
  · intro place other first second
    rw [only place first, only other second]

theorem Guarded.constructs {system : System ι} (guarded : Guarded system) {caller : ι}
    (starting : system.callers caller = .starting) :
    Guarded ({ system with threads := system.threads ++ [Phase.created] }.move caller
      (.constructed system.threads.length)) := by
  have only : ∀ place, ({ system with threads := system.threads ++ [Phase.created] }.move caller
      (.constructed system.threads.length)).Pending place → place = .inr system.threads.length := by
    intro place pending
    cases place with
    | inl another =>
        change (System.move _ caller _).callers another = .starting at pending
        by_cases same : another = caller
        · subst same
          rw [System.move_self] at pending
          cases pending
        · rw [System.move_other _ same] at pending
          have clash := guarded.single (.inl another) (.inl caller) pending starting
          exact absurd (Sum.inl.inj clash) same
    | inr thread =>
        change (system.threads ++ [Phase.created])[thread]? = some .created at pending
        rcases Nat.lt_trichotomy thread system.threads.length with below | same | above
        · rw [List.getElem?_append_left below] at pending
          have clash := guarded.single (.inr thread) (.inl caller) pending starting
          cases clash
        · rw [same]
        · rw [List.getElem?_eq_none (by rw [List.length_append]; exact above)] at pending
          cases pending
  constructor
  · intro idle
    exact absurd starting (guarded.quiet idle (.inl caller))
  · intro place other first second
    rw [only place first, only other second]

omit [DecidableEq ι] in
theorem Guarded.stores {system : System ι} (guarded : Guarded system) {thread : Nat}
    (created : system.threads[thread]? = some .created) :
    Guarded ({ system with state := .kRunning }.advance thread .testing) := by
  have none : ∀ place,
      ¬ ({ system with state := State.kRunning }.advance thread .testing).Pending place := by
    intro place pending
    obtain ⟨before, apart⟩ := pending_of_advance (by decide) pending
    exact apart (guarded.single place (.inr thread) before created)
  exact ⟨fun _ => none, fun place _ first => absurd first (none place)⟩

theorem Moves.guarded {system next : System ι} {label : Label ι} (moves : Moves system label next)
    (orderly : ∀ caller, label = .exchanges caller → system.state ≠ .kStarting)
    (guarded : Guarded system) : Guarded next := by
  cases moves with
  | busy => exact guarded
  | wins _ free => exact guarded.wins _ free
  | constructs starting => exact guarded.constructs starting
  | assigns => exact (guarded.handle _).move _ (by decide)
  | terminates => exact ⟨guarded.quiet, guarded.single⟩
  | spins => exact guarded
  | started => exact guarded.move _ (by decide)
  | exchangesAgain => exact guarded
  | exchanges => exact (guarded.exchange (orderly _ rfl)).move _ (by decide)
  | joins => exact guarded.move _ nofun
  | detached => exact guarded.move _ (by decide)
  | joined => exact (guarded.handle _).move _ (by decide)
  | stores created => exact guarded.stores created
  | enters => exact guarded.advance _ (by decide)
  | leaves => exact guarded.advance _ (by decide)
  | works =>
      have live : system.kind.afterBody ≠ .created := by cases system.kind <;> decide
      exact guarded.advance _ live
  | sleeps => exact guarded
  | wakes => exact guarded.advance _ (by decide)

theorem Step.guarded {system next : System ι} {event : Event ι} (step : Step system event next)
    (orderly : event.Orderly) (guarded : Guarded system) : Guarded next := by
  obtain ⟨before, -, moves⟩ := step
  refine moves.guarded ?_ guarded
  intro caller exchanges
  rw [Event.Orderly, exchanges, before] at orderly
  exact orderly

theorem run_guarded {system final : System ι} {events : List (Event ι)}
    (run : Run Step system events final) (orderly : ∀ event ∈ events, event.Orderly)
    (guarded : Guarded system) : Guarded final := by
  induction run with
  | nil => exact guarded
  | cons step _ ih =>
      obtain ⟨first, later⟩ := List.forall_mem_cons.mp orderly
      exact ih later (step.guarded first guarded)

omit [DecidableEq ι] in
theorem start_guarded (kind : Kind) : Guarded ({ kind := kind } : System ι) where
  quiet := by
    rintro - (caller | thread) pending
    · cases pending
    · cases pending
  single := by
    rintro (caller | thread) _ pending
    · cases pending
    · cases pending

theorem Moves.state_cases {system next : System ι} {label : Label ι}
    (moves : Moves system label next) :
    (∃ winner, label = .wins winner ∧ next.state = .kStarting) ∨
      (∃ thread, label = .stores thread ∧ system.threads[thread]? = some .created) ∨
      (∀ thread, label ≠ .stores thread) ∧ (next.state = system.state ∨ next.state = .kStopped) := by
  cases moves with
  | wins => exact .inl ⟨_, rfl, rfl⟩
  | stores created => exact .inr (.inl ⟨_, rfl, created⟩)
  | exchanges => exact .inr (.inr ⟨nofun, .inr rfl⟩)
  | busy | constructs | assigns | terminates | spins | started | exchangesAgain =>
      exact .inr (.inr ⟨nofun, .inl rfl⟩)
  | joins | detached | joined | enters | leaves | works | sleeps | wakes =>
      exact .inr (.inr ⟨nofun, .inl rfl⟩)

theorem Moves.still_stopped {system next : System ι} {label : Label ι}
    (moves : Moves system label next) (guarded : Guarded system) (stopped : system.state = .kStopped)
    (lost : ∀ winner, label ≠ .wins winner) : next.state = .kStopped := by
  rcases moves.state_cases with ⟨winner, wins, -⟩ | ⟨thread, -, created⟩ | ⟨-, same | exchanged⟩
  · exact absurd wins (lost winner)
  · exact absurd created (guarded.quiet (by rw [stopped]; decide) (.inr thread))
  · rw [same, stopped]
  · exact exchanged

theorem Moves.not_running {system next : System ι} {label : Label ι}
    (moves : Moves system label next) (calm : ∀ thread, label ≠ .stores thread)
    (idle : system.state ≠ .kRunning) : next.state ≠ .kRunning := by
  rcases moves.state_cases with ⟨_, -, starting⟩ | ⟨thread, stores, -⟩ | ⟨-, same | exchanged⟩
  · rw [starting]
    decide
  · exact absurd stores (calm thread)
  · rw [same]
    exact idle
  · rw [exchanged]
    decide

theorem run_still_stopped {system final : System ι} {events : List (Event ι)}
    (run : Run Step system events final) (orderly : ∀ event ∈ events, event.Orderly)
    (lost : ∀ event ∈ events, ∀ winner, event.label ≠ .wins winner)
    (guarded : Guarded system) (stopped : system.state = .kStopped) :
    final.state = .kStopped ∧ Guarded final := by
  induction run with
  | nil => exact ⟨stopped, guarded⟩
  | cons step _ ih =>
      obtain ⟨first, later⟩ := List.forall_mem_cons.mp orderly
      obtain ⟨loses, others⟩ := List.forall_mem_cons.mp lost
      have kept := step.guarded first guarded
      obtain ⟨-, -, moves⟩ := step
      exact ih later others kept (moves.still_stopped guarded stopped loses)

theorem Moves.exchanged {system next : System ι} {caller : ι}
    (moves : Moves system (.exchanges caller) next) :
    next.state = .kStopped ∧ (next.callers caller = .idle ∨ next.callers caller = .stopping) := by
  cases moves with
  | exchangesAgain idle stopped => exact ⟨stopped, .inl idle⟩
  | exchanges => exact ⟨rfl, .inr (System.move_self _ _ _)⟩

theorem Moves.place {system next : System ι} {label : Label ι} (moves : Moves system label next)
    {caller : ι} (apart : label.caller ≠ some caller) :
    next.callers caller = system.callers caller := by
  have elsewhere {own : ι} (named : some own ≠ some caller) : caller ≠ own :=
    fun same => named (congrArg some same.symm)
  cases moves with
  | wins | constructs | assigns | started | exchanges =>
      exact System.move_other _ (elsewhere apart) _
  | joins | detached | joined => exact System.move_other _ (elsewhere apart) _
  | busy | terminates | spins | exchangesAgain => rfl
  | stores | enters | leaves | works | sleeps | wakes => rfl

theorem Moves.test {system next : System ι} {thread : Nat} {running : Bool}
    (moves : Moves system (.tests thread running) next) :
    running = decide (system.state = .kRunning) ∧ system.threads[thread]? ≠ some .finished := by
  cases moves with
  | enters testing active => exact ⟨(decide_eq_true active).symm, by rw [testing]; decide⟩
  | leaves testing stopped => exact ⟨(decide_eq_false stopped).symm, by rw [testing]; decide⟩
  | sleeps sleeping active => exact ⟨(decide_eq_true active).symm, by rw [sleeping]; decide⟩
  | wakes sleeping tested => exact ⟨tested, by rw [sleeping]; decide⟩

theorem Moves.finished {system next : System ι} {label : Label ι} (moves : Moves system label next)
    {thread : Nat} (ended : system.threads[thread]? = some .finished) :
    next.threads[thread]? = some .finished := by
  have apart {other : Nat} {phase : Phase} (live : system.threads[other]? = some phase)
      (unfinished : phase ≠ .finished) : thread ≠ other := by
    rintro rfl
    rw [ended] at live
    exact unfinished (Option.some.inj live).symm
  cases moves with
  | constructs =>
      have inside : thread < system.threads.length := (List.getElem?_eq_some_iff.mp ended).1
      change (system.threads ++ [Phase.created])[thread]? = some .finished
      rw [List.getElem?_append_left inside]
      exact ended
  | stores created =>
      rw [System.advance_other _ (apart created (by decide))]
      exact ended
  | enters testing =>
      rw [System.advance_other _ (apart testing (by decide))]
      exact ended
  | leaves testing =>
      rw [System.advance_other _ (apart testing (by decide))]
      exact ended
  | works body =>
      rw [System.advance_other _ (apart body (by decide))]
      exact ended
  | wakes sleeping =>
      rw [System.advance_other _ (apart sleeping (by decide))]
      exact ended
  | busy | wins | assigns | terminates | spins | started | exchangesAgain => exact ended
  | exchanges | joins | detached | joined | sleeps => exact ended

theorem Moves.joining {system next : System ι} {label : Label ι} (moves : Moves system label next)
    {caller : ι} {thread : Nat} (joining : system.callers caller = .joining thread)
    (own : label.caller = some caller) : system.threads[thread]? = some .finished := by
  have here {other : ι} {place : Caller} (named : some other = some caller)
      (stands : system.callers other = place) : .joining thread = place := by
    cases named
    exact joining.symm.trans stands
  cases moves with
  | joined joins finished =>
      cases here own joins
      exact finished
  | busy idle | wins idle | exchangesAgain idle | exchanges idle => cases here own idle
  | constructs starting => cases here own starting
  | assigns constructed | terminates constructed => cases here own constructed
  | spins spinning | started spinning => cases here own spinning
  | joins stopping | detached stopping => cases here own stopping
  | stores | enters | leaves | works | sleeps | wakes => cases own

def Held (caller : ι) (thread : Nat) (system : System ι) : Prop :=
  system.threads[thread]? = some .finished ∨
    (system.callers caller = .joining thread ∧ system.state ≠ .kRunning)

theorem Step.held {system next : System ι} {event : Event ι} {caller : ι} {thread : Nat}
    (step : Step system event next) (orderly : event.Orderly) (held : Held caller thread system) :
    Held caller thread next ∧ ∀ running, event.label = .tests thread running → running = false := by
  obtain ⟨before, -, moves⟩ := step
  by_cases ended : system.threads[thread]? = some .finished
  · refine ⟨.inl (moves.finished ended), ?_⟩
    intro running tests
    rw [tests] at moves
    exact absurd ended moves.test.2
  · obtain ⟨joining, idle⟩ := held.resolve_left ended
    have calm : ∀ other, event.label ≠ .stores other := by
      intro other stores
      rw [Event.Orderly, stores, before] at orderly
      exact ended ((orderly caller).2 thread joining)
    have others : event.label.caller ≠ some caller := fun own => ended (moves.joining joining own)
    constructor
    · exact .inr ⟨(moves.place others).trans joining, moves.not_running calm idle⟩
    · intro running tests
      rw [tests] at moves
      rw [moves.test.1]
      exact decide_eq_false idle

theorem run_held {system final : System ι} {events : List (Event ι)} {caller : ι} {thread : Nat}
    (run : Run Step system events final) (orderly : ∀ event ∈ events, event.Orderly)
    (held : Held caller thread system) : ∀ event ∈ events, ∀ running,
      event.label = .tests thread running → running = false := by
  induction run with
  | nil => exact fun _ member => nomatch member
  | cons step _ ih =>
      obtain ⟨first, later⟩ := List.forall_mem_cons.mp orderly
      obtain ⟨kept, stops⟩ := step.held first held
      exact List.forall_mem_cons.mpr ⟨stops, ih later kept⟩

theorem run_place {system final : System ι} {events : List (Event ι)} {caller : ι}
    (run : Run Step system events final)
    (others : ∀ event ∈ events, event.label.caller ≠ some caller) :
    final.callers caller = system.callers caller := by
  induction run with
  | nil => rfl
  | cons step _ ih =>
      obtain ⟨first, later⟩ := List.forall_mem_cons.mp others
      obtain ⟨-, -, moves⟩ := step
      rw [ih later, moves.place first]

theorem run_stopping {system final : System ι} {events : List (Event ι)} {caller : ι}
    (run : Run Step system events final) (orderly : ∀ event ∈ events, event.Orderly)
    (others : ∀ event ∈ events, event.label.caller ≠ some caller)
    (stopping : system.callers caller = .stopping) (idle : system.state ≠ .kRunning) :
    final.state ≠ .kRunning ∧ ∀ event ∈ events, ∀ thread running,
      event.label = .tests thread running → running = false := by
  induction run with
  | nil => exact ⟨idle, fun _ member => nomatch member⟩
  | @cons _ _ _ event _ step _ ih =>
      obtain ⟨first, laterOrderly⟩ := List.forall_mem_cons.mp orderly
      obtain ⟨other, laterOthers⟩ := List.forall_mem_cons.mp others
      obtain ⟨before, -, moves⟩ := step
      have calm : ∀ thread, event.label ≠ .stores thread := by
        intro thread stores
        rw [Event.Orderly, stores, before] at first
        exact (first caller).1 stopping
      obtain ⟨still, quiet⟩ := ih laterOrderly laterOthers ((moves.place other).trans stopping)
        (moves.not_running calm idle)
      refine ⟨still, List.forall_mem_cons.mpr ⟨?_, quiet⟩⟩
      intro thread running tests
      rw [tests] at moves
      rw [moves.test.1]
      exact decide_eq_false idle

theorem Moves.to_joining {system next : System ι} {caller : ι} {thread : Nat}
    (moves : Moves system (.joins caller thread) next) : system.callers caller = .stopping ∧
      next.callers caller = .joining thread ∧ next.state = system.state := by
  cases moves with
  | joins stopping => exact ⟨stopping, System.move_self _ _ _, rfl⟩

theorem run_stays {system final : System ι} (guarded : Guarded system)
    {past middle later : List (Event ι)} {stopper store : Event ι}
    (run : Run Step system (past ++ stopper :: (middle ++ store :: later)) final)
    (orderly : ∀ event ∈ past ++ stopper :: (middle ++ store :: later), event.Orderly)
    {caller : ι} {thread : Nat} (exchanges : stopper.label = .exchanges caller)
    (stores : store.label = .stores thread) :
    ∃ event ∈ middle, ∃ winner, event.label = .wins winner := by
  by_contra none
  have lost : ∀ event ∈ middle, ∀ winner, event.label ≠ .wins winner :=
    fun event member winner wins => none ⟨event, member, winner, wins⟩
  rw [List.forall_mem_append, List.forall_mem_cons, List.forall_mem_append] at orderly
  obtain ⟨orderlyPast, orderlyStop, orderlyMiddle, -⟩ := orderly
  obtain ⟨_, first, second⟩ := run.split
  have guardedFirst := run_guarded first orderlyPast guarded
  cases second with
  | cons stop rest =>
      have guardedStop := stop.guarded orderlyStop guardedFirst
      obtain ⟨-, -, stopped⟩ := stop
      rw [exchanges] at stopped
      obtain ⟨_, _, during, next⟩ := rest.before
      obtain ⟨still, guardedNext⟩ :=
        run_still_stopped during orderlyMiddle lost guardedStop stopped.exchanged.1
      obtain ⟨-, -, moves⟩ := next
      rw [stores] at moves
      have created := moves.still_stopped guardedNext still nofun
      cases moves with
      | stores => cases created

theorem run_leaves {system final : System ι} {past front back : List (Event ι)}
    {stopper joiner : Event ι}
    (run : Run Step system (past ++ stopper :: (front ++ joiner :: back)) final)
    (orderly : ∀ event ∈ past ++ stopper :: (front ++ joiner :: back), event.Orderly)
    {caller : ι} {thread : Nat} (exchanges : stopper.label = .exchanges caller)
    (joins : joiner.label = .joins caller thread)
    (others : ∀ event ∈ front, event.label.caller ≠ some caller) :
    ∀ event ∈ front ++ back, ∀ running, event.label = .tests thread running → running = false := by
  rw [List.forall_mem_append, List.forall_mem_cons, List.forall_mem_append,
    List.forall_mem_cons] at orderly
  obtain ⟨-, -, orderlyFront, -, orderlyBack⟩ := orderly
  obtain ⟨_, -, second⟩ := run.split
  cases second with
  | cons stop rest =>
      obtain ⟨-, -, stopped⟩ := stop
      rw [exchanges] at stopped
      obtain ⟨state, -⟩ := stopped.exchanged
      obtain ⟨_, during, last⟩ := rest.split
      cases last with
      | cons join behind =>
          obtain ⟨-, -, moves⟩ := join
          rw [joins] at moves
          obtain ⟨stopping, joining, same⟩ := moves.to_joining
          have place := run_place during others
          obtain ⟨idle, quiet⟩ := run_stopping during orderlyFront others (place.symm.trans stopping)
            (by rw [state]; decide)
          have held : Held caller thread _ := .inr ⟨joining, same ▸ idle⟩
          rw [List.forall_mem_append]
          exact ⟨fun event member => quiet event member thread, run_held behind orderlyBack held⟩

/-- In a run of orderly steps every `stop` holds, and the thread that it joins leaves its loop. -/
theorem stoppable_of_orderly {kind : Kind} {events : List (Event ι)} {final : System ι}
    (run : Run Step { kind := kind } events final) (orderly : ∀ event ∈ events, event.Orderly) :
    Stoppable events := by
  constructor
  · rintro past stopper middle store later caller thread rfl exchanges stores
    exact run_stays (start_guarded kind) run orderly exchanges stores
  · rintro past stopper front joiner back caller thread rfl exchanges joins others
    exact run_leaves run orderly exchanges joins others

theorem overtaken_run (kind : Kind) : ∃ (stopper joiner store test : Event Bool)
    (past : List (Event Bool)) (final : System Bool),
    Run Step { kind := kind } (past ++ stopper :: ([] ++ joiner :: [store, test])) final ∧
      stopper.label = .exchanges true ∧ joiner.label = .joins true 0 ∧
      test.label = .tests 0 true := by
  refine ⟨⟨_, .exchanges true⟩, ⟨_, .joins true 0⟩, ⟨_, .stores 0⟩, ⟨_, .tests 0 true⟩,
    [⟨_, .wins false⟩, ⟨_, .constructs false 0⟩, ⟨_, .assigns false⟩], _,
    .cons ⟨rfl, rfl, .wins rfl rfl⟩ (.cons ⟨rfl, rfl, .constructs rfl⟩
      (.cons ⟨rfl, rfl, .assigns rfl rfl⟩ (.cons ⟨rfl, rfl, .exchanges rfl ?_⟩
      (.cons ⟨rfl, rfl, .joins rfl rfl⟩ (.cons ⟨rfl, rfl, .stores rfl⟩
      (.cons ⟨rfl, rfl, .enters rfl rfl⟩ .nil)))))), rfl, rfl, rfl⟩
  exact State.noConfusion

theorem stop_undone :
    (¬ ∀ (events : List (Event Bool)) (final : System Bool),
      Run Step { kind := .scanner } events final → Stoppable events) ∧
      ¬ ∀ (events : List (Event Bool)) (final : System Bool),
        Run Step { kind := .advertiser } events final → Stoppable events := by
  have undone (kind : Kind) : ¬ ∀ (events : List (Event Bool)) (final : System Bool),
      Run Step { kind := kind } events final → Stoppable events := by
    intro claimed
    obtain ⟨stopper, joiner, store, test, past, final, run, exchanges, joins, tests⟩ :=
      overtaken_run kind
    have left := (claimed _ _ run).leaves past stopper [] joiner [store, test] true 0 rfl exchanges
      joins (fun _ member => nomatch member) test (by simp) true tests
    cases left
  exact ⟨undone .scanner, undone .advertiser⟩

theorem stoppable_of_orderly_sample : ∃ (events : List (Event Bool)) (final : System Bool),
    events.map Event.label = [.wins false, .constructs false 0, .stores 0, .assigns false,
      .started false, .exchanges true, .joins true 0, .tests 0 false, .joined true] ∧
      final.threads = [.finished] ∧ Stoppable events := by
  have run : ∃ (events : List (Event Bool)) (final : System Bool),
      events.map Event.label = [.wins false, .constructs false 0, .stores 0, .assigns false,
        .started false, .exchanges true, .joins true 0, .tests 0 false, .joined true] ∧
        final.threads = [.finished] ∧ (∀ event ∈ events, event.Orderly) ∧
        Run Step { kind := .scanner } events final := by
    refine ⟨[⟨_, .wins false⟩, ⟨_, .constructs false 0⟩, ⟨_, .stores 0⟩, ⟨_, .assigns false⟩,
      ⟨_, .started false⟩, ⟨_, .exchanges true⟩, ⟨_, .joins true 0⟩, ⟨_, .tests 0 false⟩,
      ⟨_, .joined true⟩], _, rfl, ?_, ?_,
      .cons ⟨rfl, rfl, .wins rfl rfl⟩ (.cons ⟨rfl, rfl, .constructs rfl⟩
      (.cons ⟨rfl, rfl, .stores rfl⟩ (.cons ⟨rfl, rfl, .assigns rfl rfl⟩
      (.cons ⟨rfl, rfl, .started rfl State.noConfusion⟩
      (.cons ⟨rfl, rfl, .exchanges rfl State.noConfusion⟩ (.cons ⟨rfl, rfl, .joins rfl rfl⟩
      (.cons ⟨rfl, rfl, .leaves rfl State.noConfusion⟩
      (.cons ⟨rfl, rfl, .joined rfl rfl⟩ .nil))))))))⟩
    · rfl
    · have idle : ∀ caller, Function.update (Function.update (fun _ => Caller.idle) false .starting)
          false (.constructed 0) caller ≠ .stopping ∧ ∀ thread, Function.update
          (Function.update (fun _ => Caller.idle) false .starting) false (.constructed 0) caller ≠
            .joining thread := by
        intro caller
        cases caller with
        | false => exact ⟨Caller.noConfusion, fun _ => Caller.noConfusion⟩
        | true => exact ⟨Caller.noConfusion, fun _ => Caller.noConfusion⟩
      simp only [List.forall_mem_cons]
      refine ⟨trivial, trivial, ?_, trivial, trivial, State.noConfusion, trivial, trivial, trivial,
        fun _ member => nomatch member⟩
      intro caller
      exact ⟨(idle caller).1, fun thread joins => absurd joins ((idle caller).2 thread)⟩
  obtain ⟨events, final, labels, threads, orderly, run⟩ := run
  exact ⟨events, final, labels, threads, stoppable_of_orderly run orderly⟩

end Background

end Udaf
