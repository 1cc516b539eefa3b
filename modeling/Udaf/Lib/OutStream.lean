import Mathlib.Data.List.TakeDrop
import Udaf.Lib.Bytes

/-!
A buffered output stream that appends to a file. An insertion puts its piece
behind what is still buffered, may move some of the buffer to the file, and may
leave the stream bad, after which insertions do nothing. Closing moves what is
left, or as much of it as the device still takes.
-/

namespace OutStream

open ByteString

structure Insertion where
  good : Bool := true
  drained : Nat := 0
  deriving DecidableEq, Repr

/-- How the calls made on one stream turn out. Insertions past the end of the list succeed,
and `flushed = none` is a close that writes all that is buffered. -/
structure Attempt where
  opens : Bool := true
  insertions : List Insertion := []
  flushed : Option Nat := none
  deriving DecidableEq, Repr

structure Stream where
  file : Bytes
  pending : Bytes := []
  good : Bool := true
  deriving DecidableEq, Repr

def insert (stream : Stream) (piece : Bytes) (outcome : Insertion) : Stream :=
  if stream.good then
    let buffer := stream.pending ++ piece
    { file := stream.file ++ buffer.take outcome.drained
      pending := buffer.drop outcome.drained
      good := outcome.good }
  else stream

def insertAll : Stream → List Bytes → List Insertion → Stream
  | stream, [], _ => stream
  | stream, piece :: pieces, [] => insertAll (insert stream piece {}) pieces []
  | stream, piece :: pieces, outcome :: outcomes =>
      insertAll (insert stream piece outcome) pieces outcomes

def close (stream : Stream) : Option Nat → Bytes
  | none => stream.file ++ stream.pending
  | some count => stream.file ++ stream.pending.take count

def print (file : Bytes) (pieces : List Bytes) (attempt : Attempt) : Bool × Bytes :=
  let stream := insertAll { file := file } pieces attempt.insertions
  (stream.good, close stream attempt.flushed)

def buffered : Nat → List Bytes → List Insertion → Nat
  | left, [], _ => left
  | left, piece :: pieces, [] => buffered (left + piece.length) pieces []
  | left, piece :: pieces, outcome :: outcomes =>
      buffered (left + piece.length - outcome.drained) pieces outcomes

def Inserts (pieces : List Bytes) (outcomes : List Insertion) : Prop :=
  ∀ outcome ∈ outcomes.take pieces.length, outcome.good

def Flushes (pieces : List Bytes) (attempt : Attempt) : Prop :=
  ∀ count ∈ attempt.flushed, buffered 0 pieces attempt.insertions ≤ count

/-- Nothing is opened, or every piece is inserted and reaches the file. -/
def Attempt.AllOrNothing (attempt : Attempt) (pieces : List Bytes) : Prop :=
  attempt.opens = false ∨ Inserts pieces attempt.insertions ∧ Flushes pieces attempt

def Attempt.Succeeds (attempt : Attempt) : Prop :=
  attempt.opens = true ∧ (∀ outcome ∈ attempt.insertions, outcome.good = true) ∧
    attempt.flushed = none

instance (attempt : Attempt) : Decidable attempt.Succeeds := inferInstanceAs (Decidable (_ ∧ _))

theorem insert_bad {stream : Stream} (bad : stream.good = false) (piece : Bytes)
    (outcome : Insertion) : insert stream piece outcome = stream := by
  rw [insert, if_neg (by simp [bad])]

theorem insertAll_bad {stream : Stream} (bad : stream.good = false) (pieces : List Bytes)
    (outcomes : List Insertion) : insertAll stream pieces outcomes = stream := by
  induction pieces generalizing outcomes with
  | nil => rw [insertAll]
  | cons piece pieces ih =>
      cases outcomes with
      | nil => rw [insertAll, insert_bad bad, ih]
      | cons outcome outcomes => rw [insertAll, insert_bad bad, ih]

theorem insert_good {stream : Stream} (good : stream.good = true) (piece : Bytes)
    (outcome : Insertion) :
    (insert stream piece outcome).good = outcome.good ∧
      (insert stream piece outcome).file ++ (insert stream piece outcome).pending =
        stream.file ++ stream.pending ++ piece ∧
      (insert stream piece outcome).pending.length =
        stream.pending.length + piece.length - outcome.drained := by
  simp [insert, good]

theorem insertAll_good {stream : Stream} (good : stream.good = true) (pieces : List Bytes)
    (outcomes : List Insertion) (inserts : Inserts pieces outcomes) :
    (insertAll stream pieces outcomes).good = true ∧
      (insertAll stream pieces outcomes).file ++ (insertAll stream pieces outcomes).pending =
        stream.file ++ stream.pending ++ pieces.flatten ∧
      (insertAll stream pieces outcomes).pending.length =
        buffered stream.pending.length pieces outcomes := by
  induction pieces generalizing stream outcomes with
  | nil => simp [insertAll, buffered, good]
  | cons piece pieces ih =>
      cases outcomes with
      | nil =>
          obtain ⟨still, content, left⟩ := insert_good good piece {}
          have rest := ih still [] (by simp [Inserts])
          rw [content, left] at rest
          simpa [insertAll, buffered, List.append_assoc] using rest
      | cons outcome outcomes =>
          obtain ⟨still, content, left⟩ := insert_good good piece outcome
          have first : outcome.good = true := inserts outcome (by simp)
          have others : Inserts pieces outcomes := fun other member =>
            inserts other (by simp [member])
          have rest := ih (still.trans first) outcomes others
          rw [content, left] at rest
          simpa [insertAll, buffered, List.append_assoc] using rest

theorem insertAll_fails {stream : Stream} {pieces : List Bytes} {outcomes : List Insertion}
    (fails : ¬ Inserts pieces outcomes) : (insertAll stream pieces outcomes).good = false := by
  induction pieces generalizing stream outcomes with
  | nil => simp [Inserts] at fails
  | cons piece pieces ih =>
      cases outcomes with
      | nil => simp [Inserts] at fails
      | cons outcome outcomes =>
          rw [insertAll]
          by_cases good : outcome.good = true
          · apply ih
            intro others
            apply fails
            intro other member
            rcases List.mem_cons.mp member with rfl | later
            · exact good
            · exact others other later
          · by_cases before : stream.good = true
            · have bad : (insert stream piece outcome).good = false := by
                rw [(insert_good before piece outcome).1]
                simpa using good
              rw [insertAll_bad bad, bad]
            · have bad : stream.good = false := by simpa using before
              rw [insert_bad bad, insertAll_bad bad, bad]

theorem print_good (file : Bytes) (pieces : List Bytes) (attempt : Attempt) :
    (print file pieces attempt).1 = true ↔ Inserts pieces attempt.insertions := by
  constructor
  · intro good
    by_contra fails
    have bad := @insertAll_fails { file := file } pieces attempt.insertions fails
    rw [print] at good
    exact absurd good (by simp [bad])
  · intro inserts
    exact (@insertAll_good { file := file } rfl pieces attempt.insertions inserts).1

theorem print_whole {file : Bytes} {pieces : List Bytes} {attempt : Attempt}
    (inserts : Inserts pieces attempt.insertions) :
    (print file pieces attempt).2 = file ++ pieces.flatten ↔ Flushes pieces attempt := by
  obtain ⟨_, content, left⟩ := @insertAll_good { file := file } rfl pieces attempt.insertions inserts
  simp only [List.append_nil] at content
  rw [print, ← content, Flushes, ← show _ = buffered 0 pieces attempt.insertions from left]
  cases attempt.flushed with
  | none => simp [close]
  | some count => simp [close, List.take_eq_self_iff]

theorem print_front {file : Bytes} {pieces : List Bytes} {attempt : Attempt}
    (inserts : Inserts pieces attempt.insertions) :
    (print file pieces attempt).2 <+: file ++ pieces.flatten := by
  obtain ⟨_, content, _⟩ := @insertAll_good { file := file } rfl pieces attempt.insertions inserts
  simp only [List.append_nil] at content
  rw [print, ← content]
  cases attempt.flushed with
  | none => exact List.prefix_rfl
  | some count => exact (List.prefix_append_right_inj _).mpr (List.take_prefix _ _)

theorem print_covers {file : Bytes} {pieces : List Bytes} {attempt : Attempt}
    (inserts : Inserts pieces attempt.insertions) :
    file ++ pieces.flatten <+: (print file pieces attempt).2 ↔ Flushes pieces attempt := by
  rw [← @print_whole file _ _ inserts]
  constructor
  · intro covers
    exact (print_front inserts).eq_of_length_le covers.length_le
  · intro whole
    exact ⟨[], by rw [whole, List.append_nil]⟩

theorem print_succeeds {attempt : Attempt} (succeeds : attempt.Succeeds) (file : Bytes)
    (pieces : List Bytes) : print file pieces attempt = (true, file ++ pieces.flatten) := by
  obtain ⟨-, insertions, flushed⟩ := succeeds
  have inserts : Inserts pieces attempt.insertions :=
    fun outcome member => insertions outcome (List.mem_of_mem_take member)
  have flushes : Flushes pieces attempt := by simp [Flushes, flushed]
  exact Prod.ext ((print_good file pieces attempt).mpr inserts) ((print_whole inserts).mpr flushes)

end OutStream
