import Mathlib.Data.List.Pairwise

/-!
Looks at a state that others update in between. A moment is the list of the updates made
until then; each look is taken at a moment, none before the one that the looks began at, and
the moments of later looks go on from those of earlier ones.
-/

namespace Moments

variable {σ υ : Type}

def after (apply : σ → υ → σ) (start : σ) (updates : List υ) : σ := updates.foldl apply start

theorem after_concat (apply : σ → υ → σ) (start : σ) (updates : List υ) (update : υ) :
    after apply start (updates ++ [update]) = apply (after apply start updates) update := by
  simp [after]

/-- Moments in their order, all of them between the beginning and now. -/
def Ordered (began : List υ) (moments : List (List υ)) (updates : List υ) : Prop :=
  ((began :: moments) ++ [updates]).Pairwise (· <+: ·)

variable {began updates : List υ} {moments : List (List υ)}

theorem ordered_nil (before : began <+: updates) : Ordered began [] updates := by
  simpa [Ordered] using before

theorem Ordered.within (ordered : Ordered began moments updates) {moment : List υ}
    (member : moment ∈ began :: moments) : moment <+: updates :=
  (List.pairwise_append.mp ordered).2.2 moment member updates (by simp)

theorem Ordered.update (ordered : Ordered began moments updates) (update : υ) :
    Ordered began moments (updates ++ [update]) := by
  refine List.pairwise_append.mpr ⟨(List.pairwise_append.mp ordered).1, by simp, ?_⟩
  intro moment member last same
  rw [List.mem_singleton.mp same]
  exact (ordered.within member).trans (List.prefix_append _ _)

theorem Ordered.look (ordered : Ordered began moments updates) :
    Ordered began (moments ++ [updates]) updates := by
  refine List.pairwise_append.mpr ⟨ordered, by simp, ?_⟩
  intro moment member last same
  rw [List.mem_singleton.mp same]
  rw [← List.cons_append] at member
  rcases List.mem_append.mp member with before | here
  · exact ordered.within before
  · obtain rfl := List.mem_singleton.mp here
    exact List.prefix_refl moment

end Moments
