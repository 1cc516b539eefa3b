import Mathlib.Data.List.Basic

/-!
Logs whose entries carry growing numbers. `Numbered key log next` says that the
numbers grow along the log and that `next` is the one after the last entry; an
empty log says nothing about `next`.
-/

namespace Numbering

variable {α : Type} {key : α → Nat}

structure Numbered (key : α → Nat) (log : List α) (next : Nat) : Prop where
  ordered : log.Pairwise fun earlier later => key earlier < key later
  latest : ∀ last ∈ log.getLast?, key last + 1 = next

theorem numbered_nil (next : Nat) : Numbered key [] next := by
  refine ⟨List.Pairwise.nil, ?_⟩
  intro last member
  simp at member

theorem Numbered.le_last {log : List α} {next : Nat} (numbered : Numbered key log next)
    {entry last : α} (member : entry ∈ log) (final : last ∈ log.getLast?) :
    key entry ≤ key last := by
  obtain ⟨nonempty, isLast⟩ := List.mem_getLast?_eq_getLast final
  have parts := List.dropLast_append_getLast nonempty
  have ordered := numbered.ordered
  rw [← parts, ← isLast] at ordered
  rw [← parts, ← isLast] at member
  rcases List.mem_append.mp member with before | same
  · exact Nat.le_of_lt ((List.pairwise_append.mp ordered).2.2 entry before last (by simp))
  · exact Nat.le_of_eq (congrArg key (List.mem_singleton.mp same))

theorem Numbered.below {log : List α} {next : Nat} (numbered : Numbered key log next)
    {entry : α} (member : entry ∈ log) : key entry < next := by
  cases final : log.getLast? with
  | none => simp [List.getLast?_eq_none_iff.mp final] at member
  | some last =>
      have most := numbered.le_last member final
      have next := numbered.latest last final
      omega

theorem Numbered.push {log : List α} {entry : α} {next : Nat} (numbered : Numbered key log next)
    (taken : key entry = next) : Numbered key (log ++ [entry]) (next + 1) := by
  refine ⟨List.pairwise_append.mpr ⟨numbered.ordered, by simp, ?_⟩, ?_⟩
  · intro earlier member later same
    have before := numbered.below member
    rw [List.mem_singleton.mp same]
    omega
  · intro last member
    simp only [List.getLast?_append, List.getLast?_singleton, Option.some_or,
      Option.mem_some_iff] at member
    rw [← member, taken]

theorem Numbered.keepFrom {log : List α} {next : Nat} (numbered : Numbered key log next)
    (least : Nat) : Numbered key (log.filter fun entry => decide (least ≤ key entry)) next := by
  refine ⟨numbered.ordered.filter _, ?_⟩
  intro last member
  have kept := List.mem_filter.mp (List.mem_of_getLast? member)
  cases final : log.getLast? with
  | none => simp [List.getLast?_eq_none_iff.mp final] at kept
  | some latest =>
      have most := numbered.le_last kept.1 final
      have staying : latest ∈ log.filter fun entry => decide (least ≤ key entry) := by
        refine List.mem_filter.mpr ⟨List.mem_of_getLast? final, ?_⟩
        have enough := of_decide_eq_true kept.2
        simp only [decide_eq_true_eq]
        omega
      have ordered : Numbered key (log.filter fun entry => decide (least ≤ key entry))
          (key last + 1) := by
        refine ⟨numbered.ordered.filter _, ?_⟩
        intro other same
        rw [Option.mem_unique same member]
      have least := ordered.below staying
      have next := numbered.latest latest final
      omega

def follow (key : α → Nat) (log : List α) : Nat := (log.getLast?.map key).getD 0 + 1

theorem Numbered.reload {log : List α} {next : Nat} (numbered : Numbered key log next) :
    Numbered key log (follow key log) := by
  refine ⟨numbered.ordered, ?_⟩
  intro last final
  rw [follow, Option.mem_def.mp final]
  rfl

theorem Numbered.follow_eq {log : List α} {next : Nat} (numbered : Numbered key log next)
    (kept : log ≠ []) : follow key log = next := by
  cases final : log.getLast? with
  | none => exact absurd (List.getLast?_eq_none_iff.mp final) kept
  | some last =>
      rw [← numbered.latest last final, follow, final]
      rfl

end Numbering
