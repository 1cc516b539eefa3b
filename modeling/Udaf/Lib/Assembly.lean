import Udaf.Lib.Bytes

/-! A byte string put together from pieces of it that are written in any order. -/

namespace ByteString

theorem splice_length (bytes data : Bytes) (start : Nat) :
    (splice bytes start data).length =
      if data = [] then bytes.length else max bytes.length (start + data.length) := by
  cases data with
  | nil => rfl
  | cons byte rest =>
      simp only [splice, List.isEmpty_cons, Bool.false_eq_true, if_false, List.length_append,
        List.length_take, List.length_replicate, List.length_drop, reduceCtorEq]
      omega

theorem splice_inside (bytes : Bytes) {data : Bytes} {start index : Nat}
    (lower : start ≤ index) (upper : index < start + data.length) :
    (splice bytes start data)[index]? = data[index - start]? := by
  cases data with
  | nil =>
      rw [List.length_nil] at upper
      omega
  | cons byte rest =>
      have front : (bytes.take start ++ List.replicate (start - bytes.length) 0).length = start := by
        simp only [List.length_append, List.length_take, List.length_replicate]
        omega
      simp only [splice, List.isEmpty_cons, Bool.false_eq_true, if_false]
      rw [List.append_assoc, List.getElem?_append_right (by omega), front,
        List.getElem?_append_left (by omega)]

theorem splice_outside {bytes data : Bytes} {start index : Nat} (here : index < bytes.length)
    (apart : index < start ∨ start + data.length ≤ index) :
    (splice bytes start data)[index]? = bytes[index]? := by
  cases data with
  | nil => rfl
  | cons byte rest =>
      simp only [splice, List.isEmpty_cons, Bool.false_eq_true, if_false]
      rcases apart with before | behind
      · have room : index < (bytes.take start).length := by
          rw [List.length_take]
          omega
        rw [List.append_assoc, List.append_assoc, List.getElem?_append_left room,
          List.getElem?_take_of_lt before]
      · have front : (bytes.take start ++ List.replicate (start - bytes.length) 0 ++
            byte :: rest).length = start + (byte :: rest).length := by
          simp only [List.length_append, List.length_take, List.length_replicate]
          omega
        rw [List.getElem?_append_right (by omega), front, List.getElem?_drop]
        congr 1
        omega

theorem splice_drop (bytes : Bytes) {data : Bytes} (nonempty : data ≠ []) (start : Nat) :
    (splice bytes start data).drop start = data ++ bytes.drop (start + data.length) := by
  have front : (bytes.take start ++ List.replicate (start - bytes.length) 0).length = start := by
    simp only [List.length_append, List.length_take, List.length_replicate]
    omega
  rw [splice, if_neg (mt List.isEmpty_iff.mp nonempty), List.append_assoc, List.drop_left' front]

theorem splice_take_range (bytes data : Bytes) (start count : Nat) :
    ((splice bytes start (data.take count)).drop start).take data.length =
      data.take count ++ (bytes.drop (start + count)).take (data.length - count) := by
  by_cases written : data.take count = []
  · rcases List.take_eq_nil_iff.mp written with rfl | rfl
    · simp [splice]
    · simp [splice]
  · rw [splice_drop bytes written, List.take_append, List.take_of_length_le (List.length_take_le' _ _),
      List.length_take]
    by_cases whole : count ≤ data.length
    · rw [Nat.min_eq_left whole]
    · rw [Nat.min_eq_right (by omega), Nat.sub_self, Nat.sub_eq_zero_of_le (by omega)]
      rfl

def PieceOf (whole : Bytes) (start : Nat) (data : Bytes) : Prop :=
  data = (whole.drop start).take data.length

theorem PieceOf.getElem? {whole data : Bytes} {start index : Nat} (piece : PieceOf whole start data)
    (lower : start ≤ index) (upper : index < start + data.length) :
    data[index - start]? = whole[index]? := by
  rw [piece, List.getElem?_take_of_lt (by omega), List.getElem?_drop]
  congr 1
  omega

theorem PieceOf.end_le {whole data : Bytes} {start : Nat} (piece : PieceOf whole start data)
    (nonempty : data ≠ []) : start + data.length ≤ whole.length := by
  have length := congrArg List.length piece
  have positive := List.length_pos_iff.mpr nonempty
  rw [List.length_take, List.length_drop] at length
  omega

/-- A part of `whole` that is right wherever `covered` says so. -/
structure Assembled (whole bytes : Bytes) (covered : Nat → Prop) : Prop where
  within : bytes.length ≤ whole.length
  agrees : ∀ index, index < whole.length → covered index → bytes[index]? = whole[index]?

theorem assembled_empty (whole : Bytes) : Assembled whole [] fun _ => False :=
  ⟨Nat.zero_le _, fun _ _ none => none.elim⟩

theorem Assembled.splice {whole bytes data : Bytes} {covered : Nat → Prop} {start : Nat}
    (assembled : Assembled whole bytes covered) (piece : PieceOf whole start data) :
    Assembled whole (splice bytes start data)
      fun index => covered index ∨ (start ≤ index ∧ index < start + data.length) := by
  constructor
  · have before := assembled.within
    rw [splice_length]
    by_cases empty : data = []
    · rwa [if_pos empty]
    · rw [if_neg empty]
      exact Nat.max_le.mpr ⟨before, piece.end_le empty⟩
  · intro index inside covers
    by_cases written : start ≤ index ∧ index < start + data.length
    · rw [splice_inside bytes written.1 written.2, piece.getElem? written.1 written.2]
    · have same := assembled.agrees index inside (covers.resolve_right written)
      have here : index < bytes.length := by
        rw [List.getElem?_eq_getElem inside] at same
        exact (List.getElem?_eq_some_iff.mp same).1
      rw [splice_outside here (by omega), same]

theorem Assembled.eq_whole {whole bytes : Bytes} {covered : Nat → Prop}
    (assembled : Assembled whole bytes covered)
    (all : ∀ index, index < whole.length → covered index) : bytes = whole := by
  apply List.ext_getElem?
  intro index
  by_cases inside : index < whole.length
  · exact assembled.agrees index inside (all index inside)
  · have beyond := assembled.within
    rw [List.getElem?_eq_none (by omega), List.getElem?_eq_none (by omega)]

end ByteString
