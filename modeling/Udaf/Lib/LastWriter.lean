import Mathlib.Data.List.Basic

/-!
One cell of a state under a list of operations, each of which writes the cell whatever was
in it or leaves it alone. What the cell holds in the end is the last write.
-/

namespace LastWriter

variable {σ ι β : Type} {step : σ → ι → σ} (read : σ → β) {write : ι → Option β}

theorem read_foldl (writes : ∀ state op, read (step state op) = (write op).getD (read state))
    (ops : List ι) (state : σ) :
    read (ops.foldl step state) = (ops.filterMap write).getLastD (read state) := by
  induction ops generalizing state with
  | nil => rfl
  | cons op ops ih =>
      rw [List.foldl_cons, ih, writes]
      cases wrote : write op with
      | none => rw [List.filterMap_cons_none wrote, Option.getD_none]
      | some value => rw [List.filterMap_cons_some wrote, List.getLastD_cons, Option.getD_some]

theorem read_foldl_twice (writes : ∀ state op, read (step state op) = (write op).getD (read state))
    (ops : List ι) (state : σ) :
    read (ops.foldl step (ops.foldl step state)) = read (ops.foldl step state) := by
  simp only [read_foldl read writes]
  cases ops.filterMap write with
  | nil => rfl
  | cons value values => simp only [List.getLastD_cons]

end LastWriter
