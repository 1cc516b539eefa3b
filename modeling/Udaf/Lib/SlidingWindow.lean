import Mathlib.Data.List.Induction
import Mathlib.Data.List.Infix
import Mathlib.Data.List.TakeWhile

/-!
Stamps on a clock, those that a window ending now still holds, and lists from which the
rest was dropped at the front. When each stamp finds fewer than a limit before it in its
window, no window holds more than the limit.
-/

namespace SlidingWindow

def recent (span now : Int) (stamps : List Int) : List Int :=
  stamps.filter fun stamp => now - stamp ≤ span

theorem recent_append (span now : Int) (front back : List Int) :
    recent span now (front ++ back) = recent span now front ++ recent span now back :=
  List.filter_append ..

theorem recent_nil_of_old {span now : Int} {stamps : List Int}
    (old : ∀ stamp ∈ stamps, span < now - stamp) : recent span now stamps = [] := by
  rw [recent, List.filter_eq_nil_iff]
  intro stamp member
  have gone := old stamp member
  simp only [decide_eq_true_eq]
  omega

theorem recent_all {span now : Int} {stamps : List Int}
    (new : ∀ stamp ∈ stamps, now - stamp ≤ span) : recent span now stamps = stamps := by
  rw [recent, List.filter_eq_self]
  intro stamp member
  exact decide_eq_true (new stamp member)

theorem dropWhile_eq_recent (span now : Int) {stamps : List Int}
    (ordered : stamps.Pairwise (· ≤ ·)) :
    stamps.dropWhile (fun stamp => now - stamp > span) = recent span now stamps := by
  induction stamps with
  | nil => rfl
  | cons stamp stamps ih =>
      have below := (List.pairwise_cons.mp ordered).1
      by_cases old : now - stamp > span
      · rw [List.dropWhile_cons, if_pos (decide_eq_true old), ih (List.pairwise_cons.mp ordered).2,
          recent, recent, List.filter_cons_of_neg]
        simp only [decide_eq_true_eq]
        omega
      · rw [List.dropWhile_cons, if_neg (by simpa using old), recent_all]
        intro other member
        rcases List.mem_cons.mp member with rfl | later
        · omega
        · have order := below other later
          omega

/-- What is missing at the front is too old for any window from `clock` on. -/
def Pruned (span clock : Int) (stamps kept : List Int) : Prop :=
  ∃ gone, stamps = gone ++ kept ∧ ∀ stamp ∈ gone, span < clock - stamp

namespace Pruned

variable {span clock : Int} {stamps kept : List Int}

theorem refl (span clock : Int) (stamps : List Int) : Pruned span clock stamps stamps :=
  ⟨[], rfl, fun stamp member => by cases member⟩

theorem later (pruned : Pruned span clock stamps kept) {now : Int} (order : clock ≤ now) :
    Pruned span now stamps kept := by
  obtain ⟨gone, split, old⟩ := pruned
  refine ⟨gone, split, ?_⟩
  intro stamp member
  have age := old stamp member
  omega

theorem dropWhile (pruned : Pruned span clock stamps kept) (ordered : stamps.Pairwise (· ≤ ·)) :
    kept.dropWhile (fun stamp => clock - stamp > span) = recent span clock stamps := by
  obtain ⟨gone, rfl, old⟩ := pruned
  rw [dropWhile_eq_recent span clock (List.pairwise_append.mp ordered).2.1, recent_append,
    recent_nil_of_old old, List.nil_append]

theorem recent (pruned : Pruned span clock stamps kept) (ordered : stamps.Pairwise (· ≤ ·)) :
    Pruned span clock stamps (recent span clock stamps) := by
  rw [← pruned.dropWhile ordered]
  obtain ⟨gone, rfl, old⟩ := pruned
  refine ⟨gone ++ kept.takeWhile (fun stamp => clock - stamp > span), ?_, ?_⟩
  · rw [List.append_assoc, List.takeWhile_append_dropWhile]
  · intro stamp member
    rcases List.mem_append.mp member with before | dropped
    · exact old stamp before
    · simpa using List.mem_takeWhile_imp dropped

theorem push (pruned : Pruned span clock stamps kept) (stamp : Int) :
    Pruned span clock (stamps ++ [stamp]) (kept ++ [stamp]) := by
  obtain ⟨gone, rfl, old⟩ := pruned
  exact ⟨gone, List.append_assoc .., old⟩

end Pruned

def Spaced (span : Int) (limit : Nat) (stamps : List Int) : Prop :=
  ∀ front stamp, front ++ [stamp] <+: stamps → (recent span stamp front).length < limit

theorem spaced_nil (span : Int) (limit : Nat) : Spaced span limit [] := by
  intro front stamp start
  have none := List.prefix_nil.mp start
  simp at none

theorem spaced_concat {span : Int} {limit : Nat} {stamps : List Int} {stamp : Int} :
    Spaced span limit (stamps ++ [stamp]) ↔
      Spaced span limit stamps ∧ (recent span stamp stamps).length < limit := by
  constructor
  · intro spaced
    exact ⟨fun front other start => spaced front other (start.trans (List.prefix_append ..)),
      spaced stamps stamp (List.prefix_refl _)⟩
  · rintro ⟨spaced, last⟩ front other start
    rcases List.prefix_concat_iff.mp start with whole | before
    · obtain ⟨rfl, same⟩ := List.append_inj' whole rfl
      cases same
      exact last
    · exact spaced front other before

theorem window_le {span : Int} {limit : Nat} {stamps : List Int} (spaced : Spaced span limit stamps)
    (start : Int) :
    (stamps.filter fun stamp => start ≤ stamp ∧ stamp ≤ start + span).length ≤ limit := by
  induction stamps using List.reverseRecOn with
  | nil => exact Nat.zero_le limit
  | append_singleton stamps stamp ih =>
      obtain ⟨before, last⟩ := spaced_concat.mp spaced
      rw [List.filter_append, List.length_append]
      by_cases inside : start ≤ stamp ∧ stamp ≤ start + span
      · have fewer : (stamps.filter fun other => start ≤ other ∧ other ≤ start + span).length ≤
            (recent span stamp stamps).length := by
          apply List.Sublist.length_le
          apply List.monotone_filter_right
          intro other within
          simp only [decide_eq_true_eq] at within ⊢
          omega
        have one := List.length_filter_le (fun other => decide (start ≤ other ∧ other ≤ start + span))
          [stamp]
        rw [List.length_singleton] at one
        omega
      · have none : ([stamp].filter fun other => start ≤ other ∧ other ≤ start + span) = [] := by
          simpa using inside
        rw [none]
        exact ih before

theorem recent_length_le {span : Int} {limit : Nat} {stamps : List Int}
    (spaced : Spaced span limit stamps) {now : Int} (past : ∀ stamp ∈ stamps, stamp ≤ now) :
    (recent span now stamps).length ≤ limit := by
  have same : recent span now stamps =
      stamps.filter fun stamp => now - span ≤ stamp ∧ stamp ≤ now - span + span := by
    apply List.filter_congr
    intro stamp member
    have before := past stamp member
    rw [decide_eq_decide]
    omega
  rw [same]
  exact window_le spaced (now - span)

end SlidingWindow
