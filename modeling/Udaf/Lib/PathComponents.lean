import Mathlib.Data.List.Basic
import Mathlib.Data.List.Infix

/-! Paths as the non-empty parts between their separators. -/

namespace Paths

variable {α : Type}

theorem infix_intercalate {parts : List (List α)} {part : List α} (member : part ∈ parts)
    (between : List α) : part <:+: between.intercalate parts := by
  induction parts with
  | nil => cases member
  | cons first rest ih =>
      cases rest with
      | nil =>
          rw [List.mem_singleton.mp member, List.intercalate_singleton]
      | cons second others =>
          rw [List.intercalate_cons_cons]
          rcases List.mem_cons.mp member with rfl | later
          · exact ⟨[], between ++ between.intercalate (second :: others), by simp⟩
          · exact (ih later).trans (List.suffix_append _ _).isInfix

variable [DecidableEq α] {separator : α}

def components (separator : α) (path : List α) : List (List α) :=
  (path.splitOn separator).filter fun part => decide (part ≠ [])

@[simp] theorem components_nil : components separator [] = [] := by simp [components]

theorem components_append (front rest : List α) :
    components separator (front ++ separator :: rest) =
      components separator front ++ components separator rest := by
  rw [components, List.splitOn_append_cons_self, List.filter_append]
  rfl

theorem components_clean {part : List α} (clean : separator ∉ part) (nonempty : part ≠ []) :
    components separator part = [part] := by
  rw [components, List.splitOn_eq_singleton clean, List.filter_singleton]
  simp [nonempty]

theorem infix_of_mem_components {path part : List α} (member : part ∈ components separator path) :
    part <:+: path := by
  have inside := infix_intercalate (List.mem_of_mem_filter member) [separator]
  rwa [List.intercalate_splitOn] at inside

theorem split_last {path : List α} (separated : separator ∈ path) :
    ∃ front last, path = front ++ separator :: last ∧ separator ∉ last := by
  induction path with
  | nil => cases separated
  | cons first rest ih =>
      by_cases later : separator ∈ rest
      · obtain ⟨front, last, rfl, clean⟩ := ih later
        exact ⟨first :: front, last, rfl, clean⟩
      · rcases List.mem_cons.mp separated with rfl | inside
        · exact ⟨[], rest, rfl, later⟩
        · exact absurd inside later

theorem components_closed {path : List α} (closed : path.getLast? = some separator)
    (rest : List α) :
    components separator (path ++ rest) = components separator path ++ components separator rest := by
  obtain ⟨front, rfl⟩ := List.getLast?_eq_some_iff.mp closed
  rw [List.append_assoc, List.singleton_append, components_append, components_append,
    components_nil, List.append_nil]

theorem components_open {path : List α} (nonempty : path ≠ [])
    (isOpen : path.getLast? ≠ some separator) {more : List α} (clean : separator ∉ more) :
    ∃ part, components separator (path ++ more) =
      (components separator path).dropLast ++ [part ++ more] := by
  by_cases separated : separator ∈ path
  · obtain ⟨front, last, rfl, cleanLast⟩ := split_last separated
    have filled : last ≠ [] := by
      rintro rfl
      exact isOpen (by simp)
    have longer := components_clean (mt List.mem_append.mp (not_or.mpr ⟨cleanLast, clean⟩))
      (List.append_ne_nil_of_left_ne_nil filled more)
    refine ⟨last, ?_⟩
    rw [List.append_assoc, List.cons_append, components_append, components_append,
      components_clean cleanLast filled, List.dropLast_concat, longer]
  · have longer := components_clean (mt List.mem_append.mp (not_or.mpr ⟨separated, clean⟩))
      (List.append_ne_nil_of_left_ne_nil nonempty more)
    exact ⟨path, by rw [components_clean separated nonempty, longer, List.dropLast_singleton,
      List.nil_append]⟩

theorem dropLast_components_of_longer {path longer : List α} (starts : path <+: longer) :
    (components separator path).dropLast <+: components separator longer := by
  obtain ⟨rest, rfl⟩ := starts
  by_cases separated : separator ∈ path
  · obtain ⟨front, last, rfl, clean⟩ := split_last separated
    rw [List.append_assoc, List.cons_append, components_append, components_append]
    refine List.IsPrefix.trans ?_ (List.prefix_append _ _)
    by_cases filled : last = []
    · rw [filled, components_nil, List.append_nil]
      exact List.dropLast_prefix _
    · rw [components_clean clean filled, List.dropLast_concat]
  · by_cases filled : path = []
    · rw [filled, components_nil]
      exact List.nil_prefix
    · rw [components_clean separated filled]
      exact List.nil_prefix

end Paths
