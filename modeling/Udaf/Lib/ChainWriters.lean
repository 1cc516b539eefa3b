import Udaf.Lib.HashChain
import Udaf.Lib.Run
import Mathlib.Logic.Function.Basic

/-!
Several writers of one chain of records. A writer keeps a view of the chain: it renews
the view by reading the records, and each record that it writes itself advances it.
`writes` says which records a writer with a view may write, `follows` that a record
continues the chain where a view stands.
-/

namespace ChainWriters

open HashChain Runs

variable {View Record Writer : Type}

structure Desk (View Record Writer : Type) where
  records : List Record
  view : Writer → Option View

def Desk.empty : Desk View Record Writer := ⟨[], fun _ => none⟩

inductive Move (Writer : Type) where
  | look (writer : Writer)
  | write (writer : Writer)
  deriving DecidableEq, Repr

def Move.writer : Move Writer → Writer
  | .look writer => writer
  | .write writer => writer

def Move.Writes : Move Writer → Prop
  | .look _ => False
  | .write _ => True

/-- The writer has moved since the last write of any other. -/
def Current (writer : Writer) (past : List (Move Writer)) : Prop :=
  ∃ front move back, past = front ++ move :: back ∧ move.writer = writer ∧
    ∀ other ∈ back, ¬ other.Writes

def InTurn (moves : List (Move Writer)) : Prop :=
  ∀ front writer back, moves = front ++ .write writer :: back → Current writer front

def Chain (link : View → Record → View) (related : View → Record → Prop) : View → List Record → Prop
  | _, [] => True
  | view, record :: records => related view record ∧ Chain link related (link view record) records

theorem concat_split {α : Type} {moves front back : List α} {last move : α} :
    moves ++ [last] = front ++ move :: back ↔
      (back = [] ∧ front = moves ∧ move = last) ∨
        ∃ before, back = before ++ [last] ∧ moves = front ++ move :: before := by
  constructor
  · intro shape
    rcases List.eq_nil_or_concat back with rfl | ⟨before, other, rfl⟩
    · obtain ⟨rfl, same⟩ := List.append_inj' shape rfl
      cases same
      exact Or.inl ⟨rfl, rfl, rfl⟩
    · rw [List.concat_eq_append, ← List.cons_append, ← List.append_assoc] at shape
      obtain ⟨rfl, same⟩ := List.append_inj' shape rfl
      cases same
      exact Or.inr ⟨before, List.concat_eq_append, rfl⟩
  · rintro (⟨rfl, rfl, rfl⟩ | ⟨before, rfl, rfl⟩)
    · rfl
    · simp

section Turns

variable {past : List (Move Writer)} {writer other : Writer}

theorem current_look : Current writer (past ++ [.look other]) ↔ other = writer ∨ Current writer past := by
  constructor
  · rintro ⟨front, move, back, shape, mine, quiet⟩
    rcases concat_split.mp shape with ⟨rfl, rfl, rfl⟩ | ⟨before, rfl, rfl⟩
    · exact Or.inl mine
    · exact Or.inr ⟨front, move, before, rfl, mine, fun move inside => quiet move (by simp [inside])⟩
  · rintro (rfl | ⟨front, move, back, rfl, mine, quiet⟩)
    · exact ⟨past, .look other, [], rfl, rfl, by simp⟩
    · refine ⟨front, move, back ++ [.look other], by simp, mine, ?_⟩
      intro inside member
      rcases List.mem_append.mp member with before | last
      · exact quiet inside before
      · rw [List.mem_singleton.mp last]
        exact id

theorem current_write : Current writer (past ++ [.write other]) ↔ other = writer := by
  constructor
  · rintro ⟨front, move, back, shape, mine, quiet⟩
    rcases concat_split.mp shape with ⟨rfl, rfl, rfl⟩ | ⟨before, rfl, rfl⟩
    · exact mine
    · exact absurd trivial (quiet (.write other) (by simp))
  · rintro rfl
    exact ⟨past, .write other, [], rfl, rfl, by simp⟩

theorem inTurn_nil : InTurn ([] : List (Move Writer)) := by
  intro front writer back shape
  simp at shape

theorem inTurn_look : InTurn (past ++ [.look other]) ↔ InTurn past := by
  constructor
  · intro turns front writer back shape
    exact turns front writer (back ++ [.look other]) (by simp [shape])
  · intro turns front writer back shape
    rcases concat_split.mp shape with ⟨-, -, same⟩ | ⟨before, -, shape⟩
    · cases same
    · exact turns front writer before shape

theorem inTurn_write : InTurn (past ++ [.write other]) ↔ InTurn past ∧ Current other past := by
  constructor
  · intro turns
    refine ⟨?_, turns past other [] rfl⟩
    intro front writer back shape
    exact turns front writer (back ++ [.write other]) (by simp [shape])
  · rintro ⟨turns, current⟩ front writer back shape
    rcases concat_split.mp shape with ⟨-, rfl, same⟩ | ⟨before, -, shape⟩
    · cases same
      exact current
    · exact turns front writer before shape

end Turns

variable {link : View → Record → View} {writes follows : View → Record → Prop} {start : View}

theorem chain_concat (start : View) (records : List Record) (record : Record) :
    Chain link writes start (records ++ [record]) ↔
      Chain link writes start records ∧ writes (headOf link start records) record := by
  induction records generalizing start with
  | nil => simp [Chain]
  | cons first records ih => simp [Chain, ih, and_assoc]

theorem Chain.mono (weaker : ∀ view record, writes view record → follows view record)
    {start : View} {records : List Record} (chain : Chain link writes start records) :
    Chain link follows start records := by
  induction records generalizing start with
  | nil => trivial
  | cons record records ih => exact ⟨weaker start record chain.1, ih chain.2⟩

inductive Step [DecidableEq Writer] (link : View → Record → View)
    (writes follows : View → Record → Prop) (start : View) :
    Desk View Record Writer → Move Writer → Desk View Record Writer → Prop where
  | look {desk : Desk View Record Writer} {writer : Writer} {seen : View}
      (honest : Chain link follows start desk.records → seen = headOf link start desk.records) :
      Step link writes follows start desk (.look writer)
        ⟨desk.records, Function.update desk.view writer (some seen)⟩
  | write {desk : Desk View Record Writer} {writer : Writer} {view : View} {record : Record}
      (holds : desk.view writer = some view) (written : writes view record) :
      Step link writes follows start desk (.write writer)
        ⟨desk.records ++ [record], Function.update desk.view writer (some (link view record))⟩

structure Kept (link : View → Record → View) (writes follows : View → Record → Prop) (start : View)
    (past : List (Move Writer)) (desk : Desk View Record Writer) : Prop where
  chain : InTurn past → Chain link writes start desk.records
  views : InTurn past → ∀ writer view, desk.view writer = some view → ∃ front back,
    desk.records = front ++ back ∧ view = headOf link start front ∧ (back = [] ↔ Current writer past)
  turns : Chain link follows start desk.records → InTurn past

theorem kept_empty : Kept link writes follows start ([] : List (Move Writer)) Desk.empty where
  chain _ := trivial
  views := by
    intro _ writer view holds
    cases holds
  turns _ := inTurn_nil

variable [DecidableEq Writer]

theorem Kept.look {past : List (Move Writer)} {desk : Desk View Record Writer}
    (kept : Kept link writes follows start past desk)
    (weaker : ∀ view record, writes view record → follows view record) {writer : Writer} {seen : View}
    (honest : Chain link follows start desk.records → seen = headOf link start desk.records) :
    Kept link writes follows start (past ++ [.look writer])
      ⟨desk.records, Function.update desk.view writer (some seen)⟩ where
  chain turns := kept.chain (inTurn_look.mp turns)
  views := by
    intro turns other view holds
    have before := inTurn_look.mp turns
    by_cases mine : other = writer
    · subst mine
      simp only [Function.update_self, Option.some.injEq] at holds
      refine ⟨desk.records, [], by simp, ?_, by simp [current_look]⟩
      rw [← holds]
      exact honest ((kept.chain before).mono weaker)
    · simp only [Function.update_of_ne mine] at holds
      obtain ⟨front, back, split, stands, whole⟩ := kept.views before other view holds
      refine ⟨front, back, split, stands, whole.trans ?_⟩
      rw [current_look]
      exact ⟨Or.inr, fun either => either.resolve_left (Ne.symm mine)⟩
  turns chain := inTurn_look.mpr (kept.turns chain)

theorem Kept.write {past : List (Move Writer)} {desk : Desk View Record Writer}
    (kept : Kept link writes follows start past desk)
    (apart : ∀ front back record, back ≠ [] → Chain link writes start (front ++ back) →
      writes (headOf link start front) record → ¬ follows (headOf link start (front ++ back)) record)
    {writer : Writer} {view : View} {record : Record} (holds : desk.view writer = some view)
    (written : writes view record) :
    Kept link writes follows start (past ++ [.write writer])
      ⟨desk.records ++ [record], Function.update desk.view writer (some (link view record))⟩ := by
  have stands : InTurn past → Current writer past → view = headOf link start desk.records := by
    intro turns current
    obtain ⟨front, back, split, stands, whole⟩ := kept.views turns writer view holds
    rw [split, stands, whole.mpr current, List.append_nil]
  constructor
  · intro turns
    obtain ⟨before, current⟩ := inTurn_write.mp turns
    refine (chain_concat start desk.records record).mpr ⟨kept.chain before, ?_⟩
    rw [← stands before current]
    exact written
  · intro turns other seen holdsOther
    obtain ⟨before, current⟩ := inTurn_write.mp turns
    by_cases mine : other = writer
    · subst mine
      simp only [Function.update_self, Option.some.injEq] at holdsOther
      refine ⟨desk.records ++ [record], [], by simp, ?_, by simp [current_write]⟩
      rw [headOf_concat, ← holdsOther, stands before current]
    · simp only [Function.update_of_ne mine] at holdsOther
      obtain ⟨front, back, split, place, -⟩ := kept.views before other seen holdsOther
      refine ⟨front, back ++ [record], by simp [split], place, ?_⟩
      simp [current_write, Ne.symm mine]
  · intro chain
    obtain ⟨before, next⟩ := (chain_concat start desk.records record).mp chain
    have turns := kept.turns before
    refine inTurn_write.mpr ⟨turns, ?_⟩
    obtain ⟨front, back, split, place, whole⟩ := kept.views turns writer view holds
    refine whole.mp ?_
    by_contra missed
    rw [split] at next
    exact apart front back record missed (split ▸ kept.chain turns) (place ▸ written) next

/-- Writers in turn are as good as one, and writers out of turn break the chain, if no two views of
a chain can be followed by one record. -/
theorem run_kept (weaker : ∀ view record, writes view record → follows view record)
    (apart : ∀ front back record, back ≠ [] → Chain link writes start (front ++ back) →
      writes (headOf link start front) record → ¬ follows (headOf link start (front ++ back)) record)
    {moves : List (Move Writer)} {desk : Desk View Record Writer}
    (run : Run (Step link writes follows start) Desk.empty moves desk) :
    Kept link writes follows start moves desk := by
  have all := @Run.history _ _ (@Step _ _ Writer _ link writes follows start)
    (Kept link writes follows start) (by
      intro past desk move next step kept
      cases step with
      | look honest => exact kept.look weaker honest
      | write holds written => exact kept.write apart holds written) [] _ _ _ run kept_empty
  exact all

theorem inTurn_iff (weaker : ∀ view record, writes view record → follows view record)
    (apart : ∀ front back record, back ≠ [] → Chain link writes start (front ++ back) →
      writes (headOf link start front) record → ¬ follows (headOf link start (front ++ back)) record)
    {moves : List (Move Writer)} {desk : Desk View Record Writer}
    (run : Run (Step link writes follows start) Desk.empty moves desk) :
    InTurn moves ↔ Chain link follows start desk.records := by
  have kept := run_kept weaker apart run
  exact ⟨fun turns => (kept.chain turns).mono weaker, kept.turns⟩

end ChainWriters
