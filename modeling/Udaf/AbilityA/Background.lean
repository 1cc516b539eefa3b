import Udaf.Lib.Run
import Mathlib.Logic.Function.Basic

/-!
`start` and `stop` of `Scanner` and `Advertiser`, called from any threads, and the threads
that `start` creates. Each operation on `state_` or `thread_` is one step. What the body of
a loop does to the socket or the registry has no part in it.
-/

namespace Udaf

namespace Background

/-- The loop of `Advertiser::run` tests the state once more inside, between the slices of its
sleep. -/
inductive Kind where
  | scanner
  | advertiser
  deriving DecidableEq

inductive State where
  | kStopped
  | kStarting
  | kRunning
  deriving DecidableEq

inductive Phase where
  | created
  | testing
  | body
  | sleeping
  | finished
  deriving DecidableEq

def Kind.afterBody : Kind → Phase
  | .scanner => .testing
  | .advertiser => .sleeping

inductive Caller where
  | idle
  | starting
  | constructed (thread : Nat)
  | spinning
  | stopping
  | joining (thread : Nat)
  deriving DecidableEq

/-- `thread` is the background thread that `thread_` stands for while it is joinable; `ended` is
set by `std::terminate`. -/
structure System (ι : Type) where
  kind : Kind
  state : State := .kStopped
  thread : Option Nat := none
  threads : List Phase := []
  callers : ι → Caller := fun _ => .idle
  ended : Bool := false

inductive Label (ι : Type) where
  | busy (caller : ι)
  | wins (caller : ι)
  | constructs (caller : ι) (thread : Nat)
  | assigns (caller : ι)
  | terminates (caller : ι)
  | spins (caller : ι)
  | started (caller : ι)
  | exchanges (caller : ι)
  | joins (caller : ι) (thread : Nat)
  | detached (caller : ι)
  | joined (caller : ι)
  | stores (thread : Nat)
  | tests (thread : Nat) (running : Bool)
  | works (thread : Nat)
  deriving DecidableEq

structure Event (ι : Type) where
  before : System ι
  label : Label ι

variable {ι : Type} [DecidableEq ι]

def System.move (system : System ι) (caller : ι) (place : Caller) : System ι :=
  { system with callers := Function.update system.callers caller place }

def System.advance (system : System ι) (thread : Nat) (phase : Phase) : System ι :=
  { system with threads := system.threads.set thread phase }

@[simp] theorem System.move_self (system : System ι) (caller : ι) (place : Caller) :
    (system.move caller place).callers caller = place :=
  Function.update_self _ _ _

theorem System.move_other (system : System ι) {caller another : ι} (apart : another ≠ caller)
    (place : Caller) : (system.move caller place).callers another = system.callers another :=
  Function.update_of_ne apart _ _

omit [DecidableEq ι] in
theorem System.advance_other (system : System ι) {thread another : Nat} (apart : another ≠ thread)
    (phase : Phase) : (system.advance thread phase).threads[another]? = system.threads[another]? :=
  List.getElem?_set_ne (Ne.symm apart)

omit [DecidableEq ι] in
theorem System.advance_self {system : System ι} {thread : Nat} {phase found : Phase}
    (after : (system.advance thread phase).threads[thread]? = some found) : found = phase := by
  have member := List.getElem?_set_self' ▸ after
  obtain ⟨_, _, same⟩ := Option.map_eq_some_iff.mp member
  exact same.symm

inductive Moves : System ι → Label ι → System ι → Prop where
  | busy {system : System ι} {caller : ι} (idle : system.callers caller = .idle)
      (taken : system.state ≠ .kStopped) : Moves system (.busy caller) system
  | wins {system : System ι} {caller : ι} (idle : system.callers caller = .idle)
      (free : system.state = .kStopped) :
      Moves system (.wins caller) ({ system with state := .kStarting }.move caller .starting)
  | constructs {system : System ι} {caller : ι} (starting : system.callers caller = .starting) :
      Moves system (.constructs caller system.threads.length)
        ({ system with threads := system.threads ++ [Phase.created] }.move caller
          (.constructed system.threads.length))
  | assigns {system : System ι} {caller : ι} {thread : Nat}
      (constructed : system.callers caller = .constructed thread) (free : system.thread = none) :
      Moves system (.assigns caller) ({ system with thread := some thread }.move caller .spinning)
  | terminates {system : System ι} {caller : ι} {thread other : Nat}
      (constructed : system.callers caller = .constructed thread)
      (joinable : system.thread = some other) :
      Moves system (.terminates caller) { system with ended := true }
  | spins {system : System ι} {caller : ι} (spinning : system.callers caller = .spinning)
      (waits : system.state = .kStarting) : Moves system (.spins caller) system
  | started {system : System ι} {caller : ι} (spinning : system.callers caller = .spinning)
      (ready : system.state ≠ .kStarting) :
      Moves system (.started caller) (system.move caller .idle)
  | exchangesAgain {system : System ι} {caller : ι} (idle : system.callers caller = .idle)
      (stopped : system.state = .kStopped) : Moves system (.exchanges caller) system
  | exchanges {system : System ι} {caller : ι} (idle : system.callers caller = .idle)
      (active : system.state ≠ .kStopped) :
      Moves system (.exchanges caller) ({ system with state := .kStopped }.move caller .stopping)
  | joins {system : System ι} {caller : ι} {thread : Nat}
      (stopping : system.callers caller = .stopping) (joinable : system.thread = some thread) :
      Moves system (.joins caller thread) (system.move caller (.joining thread))
  | detached {system : System ι} {caller : ι} (stopping : system.callers caller = .stopping)
      (none : system.thread = none) :
      Moves system (.detached caller) (system.move caller .idle)
  | joined {system : System ι} {caller : ι} {thread : Nat}
      (joining : system.callers caller = .joining thread)
      (finished : system.threads[thread]? = some .finished) :
      Moves system (.joined caller) ({ system with thread := none }.move caller .idle)
  | stores {system : System ι} {thread : Nat} (created : system.threads[thread]? = some .created) :
      Moves system (.stores thread) ({ system with state := .kRunning }.advance thread .testing)
  | enters {system : System ι} {thread : Nat} (testing : system.threads[thread]? = some .testing)
      (running : system.state = .kRunning) :
      Moves system (.tests thread true) (system.advance thread .body)
  | leaves {system : System ι} {thread : Nat} (testing : system.threads[thread]? = some .testing)
      (stopped : system.state ≠ .kRunning) :
      Moves system (.tests thread false) (system.advance thread .finished)
  | works {system : System ι} {thread : Nat} (body : system.threads[thread]? = some .body) :
      Moves system (.works thread) (system.advance thread system.kind.afterBody)
  | sleeps {system : System ι} {thread : Nat} (sleeping : system.threads[thread]? = some .sleeping)
      (running : system.state = .kRunning) :
      Moves system (.tests thread true) system
  | wakes {system : System ι} {thread : Nat} {running : Bool}
      (sleeping : system.threads[thread]? = some .sleeping)
      (tested : running = decide (system.state = .kRunning)) :
      Moves system (.tests thread running) (system.advance thread .testing)

def Step (system : System ι) (event : Event ι) (next : System ι) : Prop :=
  event.before = system ∧ system.ended = false ∧ Moves system event.label next

end Background

end Udaf
