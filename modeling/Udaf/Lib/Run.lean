import Mathlib.Data.List.Induction

/-!
Finite runs of a step relation, with the events they pass through, and what the events
last set a value to.
-/

namespace Runs

inductive Run {σ ε : Type} (Step : σ → ε → σ → Prop) : σ → List ε → σ → Prop where
  | nil {state : σ} : Run Step state [] state
  | cons {state next final : σ} {event : ε} {events : List ε} :
      Step state event next → Run Step next events final → Run Step state (event :: events) final

variable {σ ε : Type} {Step : σ → ε → σ → Prop}

theorem Run.history {Inv : List ε → σ → Prop}
    (keeps : ∀ {past state event next}, Step state event next → Inv past state →
      Inv (past ++ [event]) next)
    {past : List ε} {start final : σ} {events : List ε} (run : Run Step start events final)
    (initial : Inv past start) : Inv (past ++ events) final := by
  induction run generalizing past with
  | nil => simpa using initial
  | cons step _ ih => simpa using ih (keeps step initial)

theorem Run.append {start middle final : σ} {front back : List ε}
    (first : Run Step start front middle) (second : Run Step middle back final) :
    Run Step start (front ++ back) final := by
  induction first with
  | nil => exact second
  | cons step _ ih => exact .cons step (ih second)

theorem Run.split {start final : σ} {front back : List ε} (run : Run Step start (front ++ back) final) :
    ∃ middle, Run Step start front middle ∧ Run Step middle back final := by
  induction front generalizing start with
  | nil => exact ⟨start, .nil, run⟩
  | cons event front ih =>
      cases run with
      | cons step rest =>
          obtain ⟨middle, first, second⟩ := ih rest
          exact ⟨middle, .cons step first, second⟩

theorem Run.before {start final : σ} {front back : List ε} {event : ε}
    (run : Run Step start (front ++ event :: back) final) :
    ∃ middle next, Run Step start front middle ∧ Step middle event next := by
  obtain ⟨middle, first, second⟩ := run.split
  cases second with
  | cons step _ => exact ⟨middle, _, first, step⟩

theorem sublist_concat {pattern events : List ε} {last event : ε} :
    (pattern ++ [last]).Sublist (events ++ [event]) ↔
      (pattern ++ [last]).Sublist events ∨ last = event ∧ pattern.Sublist events := by
  have whole : (pattern ++ [last]).Sublist events ↔
      (last :: pattern.reverse).Sublist events.reverse := by
    rw [← List.reverse_sublist, List.reverse_concat]
  rw [← List.reverse_sublist, List.reverse_concat, List.reverse_concat, List.sublist_cons_iff, ← whole]
  refine or_congr_right ?_
  constructor
  · rintro ⟨front, same, inside⟩
    cases same
    exact ⟨rfl, List.reverse_sublist.mp inside⟩
  · rintro ⟨rfl, inside⟩
    exact ⟨pattern.reverse, rfl, List.reverse_sublist.mpr inside⟩

/-- The value after events that set it, clear it (`some none`) or leave it (`none`). -/
def latest {γ : Type} (sets : ε → Option (Option γ)) (events : List ε) : Option γ :=
  events.foldl (fun value event => (sets event).getD value) none

section Latest

variable {γ : Type} {sets : ε → Option (Option γ)}

theorem latest_concat (events : List ε) (event : ε) :
    latest sets (events ++ [event]) = (sets event).getD (latest sets events) := by
  rw [latest, List.foldl_append]
  rfl

theorem latest_eq_some {events : List ε} {value : γ} :
    latest sets events = some value ↔ ∃ past event later, events = past ++ event :: later ∧
      sets event = some (some value) ∧ ∀ other ∈ later, sets other = none := by
  induction events using List.reverseRecOn with
  | nil => simp [latest]
  | append_singleton events event ih =>
      rw [latest_concat]
      constructor
      · intro found
        cases set : sets event with
        | none =>
            rw [set] at found
            obtain ⟨past, earlier, later, rfl, sets, left⟩ := ih.mp found
            refine ⟨past, earlier, later ++ [event], by simp, sets, ?_⟩
            intro other member
            rcases List.mem_append.mp member with before | last
            · exact left other before
            · rw [List.mem_singleton.mp last, set]
        | some outcome =>
            rw [set] at found
            cases found
            exact ⟨events, event, [], rfl, set, by simp⟩
      · rintro ⟨past, earlier, later, shape, set, left⟩
        rcases List.eq_nil_or_concat later with rfl | ⟨front, last, rfl⟩
        · obtain ⟨rfl, same⟩ := List.append_inj' shape rfl
          cases same
          rw [set]
          rfl
        · rw [List.concat_eq_append, ← List.cons_append, ← List.append_assoc] at shape
          obtain ⟨rfl, same⟩ := List.append_inj' shape rfl
          cases same
          rw [left event (by simp)]
          exact ih.mpr ⟨past, earlier, front, rfl, set, fun other member => left other (by simp [member])⟩

end Latest

end Runs
