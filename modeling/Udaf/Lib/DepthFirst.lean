import Mathlib.Data.Finset.Card
import Mathlib.Data.Finset.SDiff
import Mathlib.Logic.Relation

/-!
Depth-first search for a cycle, in any graph that is given by the successors of each node.
A node is done once it was visited and has left the stack.
-/

namespace DepthFirst

structure Marks (α : Type) where
  visited : Finset α := ∅
  stack : Finset α := ∅
  has : Bool := false

variable {α : Type}

def Edge (next : α → List α) (u v : α) : Prop := v ∈ next u

def ReachesCycle (edge : α → α → Prop) (u : α) : Prop :=
  ∃ c, Relation.ReflTransGen edge u c ∧ Relation.TransGen edge c c

namespace Marks

def Done (marks : Marks α) (u : α) : Prop := u ∈ marks.visited ∧ u ∉ marks.stack

structure Sound (next : α → List α) (marks : Marks α) : Prop where
  stack : marks.stack ⊆ marks.visited
  closed : ∀ u, marks.Done u → ∀ v ∈ next u, marks.Done v
  acyclic : ∀ u, marks.Done u → ¬ Relation.TransGen (Edge next) u u

structure Extends (marks after : Marks α) : Prop where
  stack : after.stack = marks.stack
  visited : marks.visited ⊆ after.visited
  has : after.has = marks.has

variable {next : α → List α} {marks after : Marks α} {u : α}

theorem Extends.done (grown : Extends marks after) {v : α} (done : marks.Done v) : after.Done v := by
  refine ⟨grown.visited done.1, ?_⟩
  rw [grown.stack]
  exact done.2

theorem Extends.trans {last : Marks α} (grown : Extends marks after) (later : Extends after last) :
    Extends marks last where
  stack := later.stack.trans grown.stack
  visited := grown.visited.trans later.visited
  has := later.has.trans grown.has

namespace Sound

theorem initial : Sound next {} where
  stack := Finset.Subset.refl _
  closed := by
    rintro u ⟨seen, -⟩
    cases seen
  acyclic := by
    rintro u ⟨seen, -⟩
    cases seen

theorem reached (sound : Sound next marks) {v : α} (done : marks.Done u)
    (path : Relation.ReflTransGen (Edge next) u v) : marks.Done v := by
  induction path with
  | refl => exact done
  | tail _ edge ih => exact sound.closed _ ih _ edge

theorem no_cycle (sound : Sound next marks) (done : marks.Done u) : ¬ ReachesCycle (Edge next) u := by
  rintro ⟨c, path, cycle⟩
  exact sound.acyclic c (sound.reached done path) cycle

end Sound

end Marks

def visitAll (visit : α → Marks α → Option (Bool × Marks α)) :
    List α → Marks α → Option (Bool × Marks α)
  | [], marks => some (false, marks)
  | u :: us, marks =>
      match visit u marks with
      | none => none
      | some (true, after) => some (true, after)
      | some (false, after) => visitAll visit us after

theorem visitAll_cons {visit : α → Marks α → Option (Bool × Marks α)} {u : α} {us : List α}
    {marks after : Marks α} {found : Bool}
    (searched : visitAll visit (u :: us) marks = some (found, after)) :
    (found = true ∧ visit u marks = some (true, after)) ∨
      ∃ between, visit u marks = some (false, between) ∧
        visitAll visit us between = some (found, after) := by
  rw [visitAll] at searched
  split at searched
  · cases searched
  · next hit =>
      cases searched
      exact .inl ⟨rfl, hit⟩
  · next between passed => exact .inr ⟨between, passed, searched⟩

structure Cleared (next : α → List α) (marks after : Marks α) (us : List α) : Prop where
  sound : after.Sound next
  grown : marks.Extends after
  done : ∀ u ∈ us, after.Done u

def Clears (next : α → List α) (visit : α → Marks α → Option (Bool × Marks α)) : Prop :=
  ∀ u marks after, Marks.Sound next marks → visit u marks = some (false, after) →
    Cleared next marks after [u]

variable {next : α → List α}

theorem visitAll_cleared {visit : α → Marks α → Option (Bool × Marks α)}
    (clears : Clears next visit) {us : List α} {marks after : Marks α}
    (sound : marks.Sound next) (searched : visitAll visit us marks = some (false, after)) :
    Cleared next marks after us := by
  induction us generalizing marks with
  | nil =>
      cases searched
      exact ⟨sound, ⟨rfl, Finset.Subset.refl _, rfl⟩, fun u member => by cases member⟩
  | cons u us ih =>
      rcases visitAll_cons searched with ⟨found, -⟩ | ⟨between, first, rest⟩
      · cases found
      · have cleared := clears u marks between sound first
        have later := ih cleared.sound rest
        refine ⟨later.sound, cleared.grown.trans later.grown, ?_⟩
        intro v member
        rcases List.mem_cons.mp member with rfl | member
        · exact later.grown.done (cleared.done v (List.mem_singleton_self v))
        · exact later.done v member

def Leads (next : α → List α) (marks : Marks α) (u : α) : Prop :=
  ∀ v ∈ marks.stack, Relation.TransGen (Edge next) v u

theorem visitAll_found {visit : α → Marks α → Option (Bool × Marks α)}
    (clears : Clears next visit)
    (finds : ∀ u marks after, Marks.Sound next marks → Leads next marks u →
      visit u marks = some (true, after) → ReachesCycle (Edge next) u ∧ after.has = true)
    {us : List α} {marks after : Marks α} (sound : marks.Sound next)
    (leads : ∀ u ∈ us, Leads next marks u)
    (searched : visitAll visit us marks = some (true, after)) :
    (∃ u ∈ us, ReachesCycle (Edge next) u) ∧ after.has = true := by
  induction us generalizing marks with
  | nil => cases searched
  | cons u us ih =>
      rcases visitAll_cons searched with ⟨-, hit⟩ | ⟨between, first, rest⟩
      · have ⟨reaches, has⟩ := finds u marks after sound (leads u (List.mem_cons_self ..)) hit
        exact ⟨⟨u, List.mem_cons_self .., reaches⟩, has⟩
      · have cleared := clears u marks between sound first
        have onward : ∀ v ∈ us, Leads next between v := by
          intro v member w grey
          rw [cleared.grown.stack] at grey
          exact leads v (List.mem_cons_of_mem u member) w grey
        obtain ⟨⟨v, member, reaches⟩, has⟩ := ih cleared.sound onward rest
        exact ⟨⟨v, List.mem_cons_of_mem u member, reaches⟩, has⟩

variable [DecidableEq α]

namespace Marks

def enter (marks : Marks α) (u : α) : Marks α :=
  { marks with visited := insert u marks.visited, stack := insert u marks.stack }

def leave (marks : Marks α) (u : α) : Marks α := { marks with stack := marks.stack.erase u }

variable {marks : Marks α} {u : α}

theorem enter_done (fresh : u ∉ marks.visited) (v : α) : (marks.enter u).Done v ↔ marks.Done v := by
  simp only [Done, enter, Finset.mem_insert, not_or]
  constructor
  · rintro ⟨rfl | seen, other, closed⟩
    · exact absurd rfl other
    · exact ⟨seen, closed⟩
  · rintro ⟨seen, closed⟩
    refine ⟨.inr seen, ?_, closed⟩
    rintro rfl
    exact fresh seen

theorem leave_done (seen : u ∈ marks.visited) (v : α) :
    (marks.leave u).Done v ↔ v = u ∨ marks.Done v := by
  simp only [Done, leave, Finset.mem_erase]
  by_cases same : v = u
  · simp [same, seen]
  · simp [same]

theorem Sound.enter (sound : Sound next marks) (fresh : u ∉ marks.visited) :
    Sound next (marks.enter u) where
  stack := Finset.insert_subset_insert u sound.stack
  closed := by
    intro v done w edge
    rw [enter_done fresh] at done ⊢
    exact sound.closed v done w edge
  acyclic := by
    intro v done
    rw [enter_done fresh] at done
    exact sound.acyclic v done

theorem Sound.leave (sound : Sound next marks) (grey : u ∈ marks.stack)
    (below : ∀ v ∈ next u, marks.Done v) : Sound next (marks.leave u) where
  stack := (Finset.erase_subset u _).trans sound.stack
  closed := by
    intro v done w edge
    rw [leave_done (sound.stack grey)] at done ⊢
    rcases done with rfl | done
    · exact .inr (below w edge)
    · exact .inr (sound.closed v done w edge)
  acyclic := by
    intro v done cycle
    rw [leave_done (sound.stack grey)] at done
    rcases done with rfl | done
    · obtain ⟨w, edge, back⟩ := Relation.TransGen.head'_iff.mp cycle
      exact (sound.reached (below w edge) back).2 grey
    · exact sound.acyclic v done cycle

end Marks

def dfs (next : α → List α) : Nat → α → Marks α → Option (Bool × Marks α)
  | 0, _, _ => none
  | fuel + 1, u, marks =>
      if u ∈ marks.stack then some (true, { marks with has := true })
      else if u ∈ marks.visited then some (false, marks)
      else
        match visitAll (dfs next fuel) (next u) (marks.enter u) with
        | none => none
        | some (true, after) => some (true, after)
        | some (false, after) => some (false, after.leave u)

theorem dfs_cases {next : α → List α} {fuel : Nat} {u : α} {marks after : Marks α} {found : Bool}
    (searched : dfs next (fuel + 1) u marks = some (found, after)) :
    (u ∈ marks.stack ∧ found = true ∧ after = { marks with has := true }) ∨
      (u ∉ marks.stack ∧ u ∈ marks.visited ∧ found = false ∧ after = marks) ∨
      (u ∉ marks.stack ∧ u ∉ marks.visited ∧ ∃ inner,
        visitAll (dfs next fuel) (next u) (marks.enter u) = some (found, inner) ∧
          after = if found then inner else inner.leave u) := by
  rw [dfs] at searched
  by_cases grey : u ∈ marks.stack
  · rw [if_pos grey] at searched
    cases searched
    exact .inl ⟨grey, rfl, rfl⟩
  · rw [if_neg grey] at searched
    by_cases seen : u ∈ marks.visited
    · rw [if_pos seen] at searched
      cases searched
      exact .inr (.inl ⟨grey, seen, rfl, rfl⟩)
    · rw [if_neg seen] at searched
      refine .inr (.inr ⟨grey, seen, ?_⟩)
      split at searched
      · cases searched
      · next hit =>
          cases searched
          exact ⟨after, hit, rfl⟩
      · next inner passed =>
          cases searched
          exact ⟨inner, passed, rfl⟩

theorem dfs_cleared (fuel : Nat) : Clears next (dfs next fuel) := by
  induction fuel with
  | zero =>
      intro u marks after _ searched
      cases searched
  | succ fuel ih =>
      intro u marks after sound searched
      rcases dfs_cases searched with ⟨_, found, _⟩ | ⟨white, seen, _, rfl⟩ | ⟨white, fresh, inner, looped, rfl⟩
      · cases found
      · refine ⟨sound, ⟨rfl, Finset.Subset.refl _, rfl⟩, ?_⟩
        intro v member
        cases List.mem_singleton.mp member
        exact ⟨seen, white⟩
      · have cleared := visitAll_cleared ih (sound.enter fresh) looped
        have grey : u ∈ inner.stack := by
          rw [cleared.grown.stack]
          exact Finset.mem_insert_self u _
        have kept : marks.Extends (inner.leave u) := by
          refine ⟨?_, (Finset.subset_insert u _).trans cleared.grown.visited, cleared.grown.has⟩
          change inner.stack.erase u = marks.stack
          rw [cleared.grown.stack]
          exact Finset.erase_insert white
        refine ⟨cleared.sound.leave grey cleared.done, kept, ?_⟩
        intro v member
        exact (Marks.leave_done (cleared.sound.stack grey) v).mpr (.inl (List.mem_singleton.mp member))

theorem dfs_found (fuel : Nat) : ∀ u marks after, Marks.Sound next marks → Leads next marks u →
    dfs next fuel u marks = some (true, after) → ReachesCycle (Edge next) u ∧ after.has = true := by
  induction fuel with
  | zero =>
      intro u marks after _ _ searched
      cases searched
  | succ fuel ih =>
      intro u marks after sound leads searched
      rcases dfs_cases searched with ⟨grey, _, rfl⟩ | ⟨_, _, found, _⟩ | ⟨_, fresh, inner, looped, rfl⟩
      · exact ⟨⟨u, .refl, leads u grey⟩, rfl⟩
      · cases found
      · have onward : ∀ v ∈ next u, Leads next (marks.enter u) v := by
          intro v edge w grey
          rcases Finset.mem_insert.mp grey with rfl | grey
          · exact .single edge
          · exact (leads w grey).tail edge
        obtain ⟨⟨v, edge, c, path, cycle⟩, has⟩ :=
          visitAll_found (dfs_cleared fuel) ih (sound.enter fresh) onward looped
        exact ⟨⟨c, path.head edge, cycle⟩, has⟩

theorem search_has {fuel : Nat} {roots : List α} {found : Bool} {after : Marks α}
    (searched : visitAll (dfs next fuel) roots {} = some (found, after)) :
    after.has = true ↔ ∃ u ∈ roots, ReachesCycle (Edge next) u := by
  cases found with
  | true =>
      have leads : ∀ u ∈ roots, Leads next {} u := by
        intro u _ v grey
        cases grey
      have ⟨reaches, has⟩ :=
        visitAll_found (dfs_cleared fuel) (dfs_found fuel) Marks.Sound.initial leads searched
      exact iff_of_true has reaches
  | false =>
      have cleared := visitAll_cleared (dfs_cleared fuel) Marks.Sound.initial searched
      apply iff_of_false
      · rw [cleared.grown.has]
        exact Bool.false_ne_true
      · rintro ⟨u, member, reaches⟩
        exact cleared.sound.no_cycle (cleared.done u member) reaches

theorem visitAll_returns {visit : α → Marks α → Option (Bool × Marks α)} {nodes : Finset α}
    {fuel : Nat}
    (clears : Clears next visit)
    (returns : ∀ u marks, Marks.Sound next marks → u ∈ nodes →
      (nodes \ marks.visited).card < fuel → ∃ result, visit u marks = some result)
    {us : List α} {marks : Marks α} (sound : marks.Sound next) (inside : ∀ u ∈ us, u ∈ nodes)
    (enough : (nodes \ marks.visited).card < fuel) :
    ∃ result, visitAll visit us marks = some result := by
  induction us generalizing marks with
  | nil => exact ⟨_, rfl⟩
  | cons u us ih =>
      obtain ⟨⟨found, between⟩, first⟩ := returns u marks sound (inside u (List.mem_cons_self ..)) enough
      rw [visitAll, first]
      cases found with
      | true => exact ⟨_, rfl⟩
      | false =>
          have cleared := clears u marks between sound first
          have fewer := Finset.card_le_card
            (Finset.sdiff_subset_sdiff (Finset.Subset.refl nodes) cleared.grown.visited)
          exact ih cleared.sound (fun v member => inside v (List.mem_cons_of_mem u member))
            (by omega)

theorem dfs_returns {nodes : Finset α} (closed : ∀ u ∈ nodes, ∀ v ∈ next u, v ∈ nodes)
    (fuel : Nat) : ∀ u marks, Marks.Sound next marks → u ∈ nodes →
      (nodes \ marks.visited).card < fuel → ∃ result, dfs next fuel u marks = some result := by
  induction fuel with
  | zero =>
      intro u marks _ _ enough
      omega
  | succ fuel ih =>
      intro u marks sound member enough
      rw [dfs]
      by_cases grey : u ∈ marks.stack
      · exact ⟨_, if_pos grey⟩
      · rw [if_neg grey]
        by_cases seen : u ∈ marks.visited
        · exact ⟨_, if_pos seen⟩
        · rw [if_neg seen]
          have fewer : (nodes \ (marks.enter u).visited).card < (nodes \ marks.visited).card := by
            apply Finset.card_lt_card
            refine Finset.ssubset_iff_of_subset (Finset.sdiff_subset_sdiff (Finset.Subset.refl _)
              (Finset.subset_insert u _)) |>.mpr ⟨u, Finset.mem_sdiff.mpr ⟨member, seen⟩, ?_⟩
            intro still
            exact (Finset.mem_sdiff.mp still).2 (Finset.mem_insert_self u _)
          obtain ⟨⟨found, inner⟩, looped⟩ := visitAll_returns (dfs_cleared fuel) ih
            (sound.enter seen) (closed u member) (by omega)
          rw [looped]
          cases found with
          | true => exact ⟨_, rfl⟩
          | false => exact ⟨_, rfl⟩

theorem search_returns {nodes : Finset α} (closed : ∀ u ∈ nodes, ∀ v ∈ next u, v ∈ nodes)
    {roots : List α} (inside : ∀ u ∈ roots, u ∈ nodes) {fuel : Nat}
    (enough : nodes.card < fuel) :
    ∃ result, visitAll (dfs next fuel) roots {} = some result := by
  refine visitAll_returns (dfs_cleared fuel) (dfs_returns closed fuel) Marks.Sound.initial inside ?_
  have all : (nodes \ ∅).card = nodes.card := by rw [Finset.sdiff_empty]
  change (nodes \ ∅).card < fuel
  omega

end DepthFirst
