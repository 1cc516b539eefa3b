import Mathlib.Logic.Function.Basic

/-! Tokens with at most one holder each, which are dropped, moved and given out. -/

namespace Ownership

variable {π τ : Type} [DecidableEq π] {holder : π → Option τ} {token other : τ} {place target source : π}

def Exclusive (holder : π → Option τ) : Prop :=
  ∀ first second token, holder first = some token → holder second = some token → first = second

def Held (holder : π → Option τ) (token : τ) : Prop := ∃ place, holder place = some token

def drop (holder : π → Option τ) (place : π) : π → Option τ := Function.update holder place none

def move (holder : π → Option τ) (target source : π) : π → Option τ :=
  Function.update (drop holder source) target (holder source)

def give (holder : π → Option τ) (place : π) (token : τ) : π → Option τ :=
  Function.update holder place (some token)

theorem drop_some : drop holder place target = some token ↔ target ≠ place ∧ holder target = some token := by
  rw [drop]
  by_cases same : target = place
  · rw [same, Function.update_self]
    simp
  · rw [Function.update_of_ne same]
    simp [same]

theorem move_some : move holder target source place = some token ↔
    if place = target then holder source = some token
    else place ≠ source ∧ holder place = some token := by
  rw [move]
  by_cases same : place = target
  · rw [same, Function.update_self, if_pos rfl]
  · rw [Function.update_of_ne same, if_neg same, drop_some]

theorem give_some : give holder place token target = some other ↔
    if target = place then token = other else holder target = some other := by
  rw [give]
  by_cases same : target = place
  · rw [same, Function.update_self, if_pos rfl, Option.some.injEq]
  · rw [Function.update_of_ne same, if_neg same]

theorem Exclusive.drop (exclusive : Exclusive holder) (place : π) :
    Exclusive (drop holder place) := by
  intro first second token holds also
  exact exclusive first second token (drop_some.mp holds).2 (drop_some.mp also).2

theorem Exclusive.held_drop (exclusive : Exclusive holder) :
    Held (Ownership.drop holder place) token ↔ Held holder token ∧ holder place ≠ some token := by
  constructor
  · rintro ⟨target, holds⟩
    obtain ⟨apart, kept⟩ := drop_some.mp holds
    exact ⟨⟨target, kept⟩, fun here => apart (exclusive target place token kept here)⟩
  · rintro ⟨⟨target, kept⟩, absent⟩
    refine ⟨target, drop_some.mpr ⟨?_, kept⟩⟩
    rintro rfl
    exact absent kept

theorem Exclusive.move (exclusive : Exclusive holder) (target source : π) :
    Exclusive (move holder target source) := by
  have origin {place : π} {token : τ} (holds : Ownership.move holder target source place = some token) :
      ∃ before, holder before = some token ∧
        (place = target ∧ before = source ∨ place ≠ target ∧ before ≠ source ∧ before = place) := by
    rw [move_some] at holds
    split at holds
    · rename_i same
      exact ⟨source, holds, .inl ⟨same, rfl⟩⟩
    · rename_i apart
      exact ⟨place, holds.2, .inr ⟨apart, holds.1, rfl⟩⟩
  intro first second token holds also
  obtain ⟨before, held, whence⟩ := origin holds
  obtain ⟨earlier, alsoHeld, alsoWhence⟩ := origin also
  have same := exclusive before earlier token held alsoHeld
  subst same
  rcases whence with ⟨rfl, rfl⟩ | ⟨_, apart, rfl⟩
  · rcases alsoWhence with ⟨rfl, _⟩ | ⟨_, apart, _⟩
    · rfl
    · exact absurd rfl apart
  · rcases alsoWhence with ⟨_, same⟩ | ⟨_, _, same⟩
    · exact absurd same apart
    · exact same

theorem Exclusive.held_move (exclusive : Exclusive holder) :
    Held (Ownership.move holder target source) token ↔
      Held holder token ∧ (target ≠ source → holder target ≠ some token) := by
  constructor
  · rintro ⟨place, holds⟩
    rw [move_some] at holds
    split at holds
    · refine ⟨⟨source, holds⟩, fun apart here => ?_⟩
      exact apart (exclusive target source token here holds)
    · rename_i apart
      exact ⟨⟨place, holds.2⟩, fun _ here => apart (exclusive place target token holds.2 here)⟩
  · rintro ⟨⟨place, held⟩, absent⟩
    by_cases moved : place = source
    · subst moved
      exact ⟨target, move_some.mpr (by rw [if_pos rfl]; exact held)⟩
    · refine ⟨place, move_some.mpr ?_⟩
      have apart : place ≠ target := by
        rintro rfl
        exact absent moved held
      rw [if_neg apart]
      exact ⟨moved, held⟩

theorem Exclusive.give (exclusive : Exclusive holder) (fresh : ¬ Held holder token) (place : π) :
    Exclusive (give holder place token) := by
  intro first second other holds also
  rw [give_some] at holds also
  split at holds
  · rename_i here
    subst holds
    split at also
    · rename_i there
      rw [here, there]
    · exact absurd ⟨second, also⟩ fresh
  · split at also
    · subst also
      exact absurd ⟨first, holds⟩ fresh
    · exact exclusive first second other holds also

theorem held_give (vacant : holder place = none) :
    Held (give holder place token) other ↔ other = token ∨ Held holder other := by
  constructor
  · rintro ⟨target, holds⟩
    rw [give_some] at holds
    split at holds
    · exact .inl holds.symm
    · exact .inr ⟨target, holds⟩
  · rintro (rfl | ⟨target, held⟩)
    · exact ⟨place, give_some.mpr (by rw [if_pos rfl])⟩
    · refine ⟨target, give_some.mpr ?_⟩
      have apart : target ≠ place := by
        rintro rfl
        rw [vacant] at held
        cases held
      rwa [if_neg apart]

end Ownership
