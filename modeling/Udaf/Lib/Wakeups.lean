import Mathlib.Data.List.Nodup
import Mathlib.Logic.Function.Basic

/-!
Callers that sleep until somebody wakes them, and items that they are woken for. As long as
one of them sleeps, there are as many callers awake as there are items.
-/

namespace Wakeups

variable {ι : Type}

def AtLeast (count : Nat) (kind : ι → Prop) : Prop :=
  ∃ callers : List ι, callers.Nodup ∧ callers.length = count ∧ ∀ caller ∈ callers, kind caller

section AtLeast

variable {count fewer : Nat} {kind other : ι → Prop}

theorem atLeast_zero : AtLeast 0 kind :=
  ⟨[], List.nodup_nil, rfl, by simp⟩

theorem AtLeast.of_le (enough : AtLeast count kind) (bound : fewer ≤ count) : AtLeast fewer kind := by
  obtain ⟨callers, apart, rfl, kinds⟩ := enough
  exact ⟨callers.take fewer, apart.sublist (List.take_sublist _ _), List.length_take_of_le bound,
    fun caller member => kinds caller (List.mem_of_mem_take member)⟩

theorem AtLeast.imp (enough : AtLeast count kind) (implies : ∀ caller, kind caller → other caller) :
    AtLeast count other := by
  obtain ⟨callers, apart, size, kinds⟩ := enough
  exact ⟨callers, apart, size, fun caller member => implies caller (kinds caller member)⟩

theorem AtLeast.add (enough : AtLeast count kind) {one : ι} (new : ¬ kind one)
    (implies : ∀ caller, kind caller → other caller) (joins : other one) :
    AtLeast (count + 1) other := by
  obtain ⟨callers, apart, rfl, kinds⟩ := enough
  refine ⟨one :: callers, List.nodup_cons.mpr ⟨fun member => new (kinds one member), apart⟩, rfl, ?_⟩
  intro caller member
  rcases List.mem_cons.mp member with rfl | old
  · exact joins
  · exact implies caller (kinds caller old)

theorem AtLeast.remove [DecidableEq ι] (enough : AtLeast (count + 1) kind) (one : ι)
    (implies : ∀ caller, caller ≠ one → kind caller → other caller) : AtLeast count other := by
  obtain ⟨callers, apart, size, kinds⟩ := enough
  have left : AtLeast (callers.erase one).length other := by
    refine ⟨callers.erase one, apart.erase one, rfl, ?_⟩
    intro caller member
    obtain ⟨different, old⟩ := (apart.mem_erase_iff).mp member
    exact implies caller different (kinds caller old)
  refine left.of_le ?_
  have shorter := @List.le_length_erase ι _ _ one callers
  omega

end AtLeast

variable {σ : Type} {sleeping awake : σ → Prop} {callers : ι → σ} {items after : Nat}

/-- While a caller sleeps, there is a caller awake for every item. -/
def Served (sleeping awake : σ → Prop) (callers : ι → σ) (items : Nat) : Prop :=
  (∃ caller, sleeping (callers caller)) → AtLeast items fun caller => awake (callers caller)

theorem served_empty : Served sleeping awake callers 0 := fun _ => atLeast_zero

theorem served_alone (alone : ∀ caller, ¬ sleeping (callers caller)) :
    Served sleeping awake callers items := by
  rintro ⟨caller, asleep⟩
  exact absurd asleep (alone caller)

variable [DecidableEq ι]

section Update

variable {state : σ} {one : ι}

theorem update_awake (stays : awake (callers one) → awake state) {caller : ι}
    (before : awake (callers caller)) : awake (Function.update callers one state caller) := by
  by_cases same : caller = one
  · subst same
    rw [Function.update_self]
    exact stays before
  · rw [Function.update_of_ne same]
    exact before

theorem update_sleeping (stays : sleeping state → sleeping (callers one)) {caller : ι}
    (asleep : sleeping (Function.update callers one state caller)) : sleeping (callers caller) := by
  by_cases same : caller = one
  · subst same
    rw [Function.update_self] at asleep
    exact stays asleep
  · rwa [Function.update_of_ne same] at asleep

theorem Served.moves (served : Served sleeping awake callers items)
    (asleep : sleeping state → sleeping (callers one)) (awakes : awake (callers one) → awake state)
    (fewer : after ≤ items) : Served sleeping awake (Function.update callers one state) after := by
  rintro ⟨caller, sleeps⟩
  have enough := served ⟨caller, update_sleeping asleep sleeps⟩
  exact (enough.imp fun _ before => update_awake awakes before).of_le fewer

theorem Served.rises (served : Served sleeping awake callers items)
    (before : (∃ caller, sleeping (Function.update callers one state caller)) →
      ∃ caller, sleeping (callers caller))
    (drowsy : ¬ awake (callers one)) (rises : awake state) (more : after ≤ items + 1) :
    Served sleeping awake (Function.update callers one state) after := by
  intro sleeper
  have enough := served (before sleeper)
  have joined : AtLeast (items + 1) fun caller => awake (Function.update callers one state caller) :=
    enough.add drowsy (fun _ before => update_awake (fun _ => rises) before)
      (by rwa [Function.update_self])
  exact joined.of_le more

theorem Served.wakes (served : Served sleeping awake callers items)
    (slept : sleeping (callers one)) (drowsy : ¬ awake (callers one)) (rises : awake state)
    (more : after ≤ items + 1) : Served sleeping awake (Function.update callers one state) after :=
  served.rises (fun _ => ⟨one, slept⟩) drowsy rises more

theorem Served.joins (served : Served sleeping awake callers items)
    (asleep : sleeping state → sleeping (callers one)) (drowsy : ¬ awake (callers one))
    (rises : awake state) (more : after ≤ items + 1) :
    Served sleeping awake (Function.update callers one state) after :=
  served.rises (fun ⟨caller, sleeps⟩ => ⟨caller, update_sleeping asleep sleeps⟩) drowsy rises more

theorem Served.leaves (served : Served sleeping awake callers items)
    (left : ¬ sleeping state) (fewer : after + 1 ≤ items) :
    Served sleeping awake (Function.update callers one state) after := by
  rintro ⟨caller, sleeps⟩
  have enough := served ⟨caller, update_sleeping (fun asleep => absurd asleep left) sleeps⟩
  refine (enough.of_le fewer).remove one ?_
  intro other apart before
  rwa [Function.update_of_ne apart]

end Update

end Wakeups
