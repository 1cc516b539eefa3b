import Mathlib.Data.List.Basic

/-!
Two strings that differ in one letter, over any alphabet, and folds that notice it: when
every step is injective in the state and in the letter, the difference is carried to the
end of the string.
-/

namespace Damage

variable {α : Type}

def Differs (place : Nat) (letters damaged : List α) : Prop :=
  ∃ front old new back, letters = front ++ old :: back ∧ damaged = front ++ new :: back ∧
    front.length = place ∧ old ≠ new

theorem differs_set {letters : List α} {place : Nat} {letter : α} (inside : place < letters.length)
    (different : letters[place]? ≠ some letter) :
    Differs place letters (letters.set place letter) := by
  refine ⟨letters.take place, letters[place], letter, letters.drop (place + 1), ?_, ?_, ?_, ?_⟩
  · rw [← List.drop_eq_getElem_cons inside, List.take_append_drop]
  · rw [List.set_eq_take_append_cons_drop, if_pos inside]
  · rw [List.length_take, Nat.min_eq_left (Nat.le_of_lt inside)]
  · intro same
    exact different (by rw [List.getElem?_eq_getElem inside, same])

theorem Differs.ne {place : Nat} {letters damaged : List α}
    (differs : Differs place letters damaged) : letters ≠ damaged := by
  obtain ⟨front, old, new, back, rfl, rfl, -, different⟩ := differs
  intro same
  exact different (List.cons.inj (List.append_cancel_left same)).1

theorem Differs.length {place : Nat} {letters damaged : List α}
    (differs : Differs place letters damaged) : damaged.length = letters.length := by
  obtain ⟨front, old, new, back, rfl, rfl, -, -⟩ := differs
  simp only [List.length_append, List.length_cons]

theorem Differs.inside {place : Nat} {letters damaged : List α}
    (differs : Differs place letters damaged) : place < letters.length := by
  obtain ⟨front, old, new, back, rfl, -, rfl, -⟩ := differs
  simp only [List.length_append, List.length_cons]
  omega

theorem Differs.take_before {place count : Nat} {letters damaged : List α}
    (differs : Differs place letters damaged) (before : count ≤ place) :
    damaged.take count = letters.take count := by
  obtain ⟨front, old, new, back, rfl, rfl, rfl, -⟩ := differs
  rw [List.take_append_of_le_length before, List.take_append_of_le_length before]

theorem Differs.drop_behind {place count : Nat} {letters damaged : List α}
    (differs : Differs place letters damaged) (behind : place < count) :
    damaged.drop count = letters.drop count := by
  obtain ⟨front, old, new, back, rfl, rfl, rfl, -⟩ := differs
  obtain ⟨more, rfl⟩ := Nat.exists_eq_add_of_lt behind
  rw [Nat.add_assoc, List.drop_append, List.drop_append]
  simp

theorem Differs.take {place count : Nat} {letters damaged : List α}
    (differs : Differs place letters damaged) (within : place < count) :
    Differs place (letters.take count) (damaged.take count) := by
  obtain ⟨front, old, new, back, rfl, rfl, rfl, different⟩ := differs
  obtain ⟨more, rfl⟩ := Nat.exists_eq_add_of_lt within
  refine ⟨front, old, new, back.take more, ?_, ?_, rfl, different⟩
  · rw [Nat.add_assoc, List.take_length_add_append, List.take_succ_cons]
  · rw [Nat.add_assoc, List.take_length_add_append, List.take_succ_cons]

theorem Differs.drop {place count : Nat} {letters damaged : List α}
    (differs : Differs place letters damaged) (before : count ≤ place) :
    Differs (place - count) (letters.drop count) (damaged.drop count) := by
  obtain ⟨front, old, new, back, rfl, rfl, rfl, different⟩ := differs
  refine ⟨front.drop count, old, new, back, ?_, ?_, List.length_drop, different⟩
  · exact List.drop_append_of_le_length before
  · exact List.drop_append_of_le_length before

/-- No step forgets: neither the state it starts from nor the letter it takes. -/
structure Sensitive {σ : Type} (step : σ → α → σ) : Prop where
  state (letter : α) : Function.Injective fun state => step state letter
  letter (state : σ) : Function.Injective (step state)

variable {σ : Type} {step : σ → α → σ}

theorem foldl_injective (sensitive : Sensitive step) (letters : List α) :
    Function.Injective fun state => letters.foldl step state := by
  induction letters with
  | nil => exact fun _ _ same => same
  | cons letter letters ih => exact ih.comp (sensitive.state letter)

theorem foldl_differs (sensitive : Sensitive step) {place : Nat} {letters damaged : List α}
    (differs : Differs place letters damaged) (state : σ) :
    damaged.foldl step state ≠ letters.foldl step state := by
  obtain ⟨front, old, new, back, rfl, rfl, -, different⟩ := differs
  rw [List.foldl_append, List.foldl_append]
  intro same
  exact different (sensitive.letter _ (foldl_injective sensitive back same)).symm

end Damage
