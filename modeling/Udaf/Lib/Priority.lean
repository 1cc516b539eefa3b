import Mathlib.Data.List.Perm.Basic
import Mathlib.Order.Lattice

/-!
Items in the order in which they arrived, of which the oldest with the least key is taken;
one queue for each key keeps the same items.
-/

namespace Priority

variable {α κ : Type}

def withKey [DecidableEq κ] (key : α → κ) (pending : List α) (level : κ) : List α :=
  pending.filter fun item => key item = level

section Levels

variable [DecidableEq κ] {key : α → κ}

@[simp] theorem withKey_append (front back : List α) (level : κ) :
    withKey key (front ++ back) level = withKey key front level ++ withKey key back level :=
  List.filter_append front back

@[simp] theorem withKey_self (item : α) : withKey key [item] (key item) = [item] := by
  simp [withKey]

theorem withKey_other {item : α} {level : κ} (other : key item ≠ level) :
    withKey key [item] level = [] := by
  simp [withKey, other]

end Levels

variable [LinearOrder κ] {key : α → κ}

/-- `item` is the oldest pending item with the least key, and `rest` are the others. -/
def Takes (key : α → κ) (pending : List α) (item : α) (rest : List α) : Prop :=
  ∃ front back, pending = front ++ item :: back ∧ rest = front ++ back ∧
    (∀ other ∈ front, key item < key other) ∧ ∀ other ∈ back, key item ≤ key other

theorem Takes.perm {pending rest : List α} {item : α} (takes : Takes key pending item rest) :
    pending.Perm (item :: rest) := by
  obtain ⟨front, back, rfl, rfl, -, -⟩ := takes
  exact List.perm_middle

theorem takes_of_front {pending behind : List α} {item : α} {level : κ}
    (front : withKey key pending level = item :: behind)
    (least : ∀ lower, lower < level → withKey key pending lower = []) :
    ∃ rest, Takes key pending item rest ∧ withKey key rest level = behind ∧
      ∀ other, other ≠ level → withKey key rest other = withKey key pending other := by
  obtain ⟨before, after, shape, notBefore, here, tail⟩ := List.filter_eq_cons_iff.mp front
  have same : key item = level := by simpa using here
  have lowest : ∀ other ∈ pending, level ≤ key other := by
    intro other member
    by_contra lower
    have none := List.filter_eq_nil_iff.mp (least (key other) (not_le.mp lower)) other member
    simp at none
  refine ⟨before ++ after, ⟨before, after, shape, rfl, ?_, ?_⟩, ?_, ?_⟩
  · intro other member
    rw [same]
    have apart : key other ≠ level := by simpa using notBefore other member
    exact lt_of_le_of_ne (lowest other (by rw [shape]; simp [member])) apart.symm
  · intro other member
    rw [same]
    exact lowest other (by rw [shape]; simp [member])
  · have none : withKey key before level = [] :=
      List.filter_eq_nil_iff.mpr fun other member => notBefore other member
    rw [withKey_append, none, List.nil_append]
    exact tail
  · intro other apart
    have none : withKey key [item] other = [] := withKey_other (by rw [same]; exact apart.symm)
    rw [shape, ← List.singleton_append, withKey_append, withKey_append, withKey_append, none,
      List.nil_append]

end Priority
