import Mathlib.Tactic.Ring
import Udaf.Lib.Bytes

/-!
Decimal numbers as text: how an output stream prints them, and how `strtoull` and
`strtoll` read them, with leading white space, a sign and whatever follows the digits.
-/

namespace Decimal

open ByteString

def isDigit (byte : UInt8) : Bool := decide (48 ≤ byte.toNat ∧ byte.toNat ≤ 57)

def isSpace (byte : UInt8) : Bool :=
  decide (byte.toNat = 32 ∨ (9 ≤ byte.toNat ∧ byte.toNat ≤ 13))

def decimal (number : Nat) : Bytes :=
  (Nat.toDigits 10 number).map fun char => UInt8.ofNat char.toNat

def decimalInt (number : Int) : Bytes :=
  if number < 0 then 45 :: decimal number.natAbs else decimal number.natAbs

def digitsValue (digits : Bytes) : Nat :=
  digits.foldl (fun value byte => 10 * value + (byte.toNat - 48)) 0

def splitSign : Bytes → Bool × Bytes
  | [] => (false, [])
  | byte :: rest =>
      if byte = 45 then (true, rest) else if byte = 43 then (false, rest) else (false, byte :: rest)

def signedDigits (text : Bytes) : Option (Bool × Nat) :=
  let (negative, unsigned) := splitSign (text.dropWhile isSpace)
  let digits := unsigned.takeWhile isDigit
  if digits.isEmpty then none else some (negative, digitsValue digits)

/-- `std::stoull`: out of range throws, and a minus sign negates modulo 2^64. -/
def stoull (text : Bytes) : Option UInt64 :=
  match signedDigits text with
  | none => none
  | some (negative, value) =>
      if 2 ^ 64 ≤ value then none
      else some (if negative then 0 - UInt64.ofNat value else UInt64.ofNat value)

def stoll (text : Bytes) : Option Int64 :=
  match signedDigits text with
  | none => none
  | some (true, value) => if 2 ^ 63 < value then none else some (Int64.ofInt (-value))
  | some (false, value) => if 2 ^ 63 ≤ value then none else some (Int64.ofInt value)

/-- `std::stoi`: a `long` that no `int` holds throws as well. -/
def stoi (text : Bytes) : Option Int32 :=
  (stoll text).bind fun number =>
    if Int32.minValue.toInt ≤ number.toInt ∧ number.toInt ≤ Int32.maxValue.toInt then
      some number.toInt32
    else none

theorem digit_toNat {number : Nat} (small : number < 10) :
    (UInt8.ofNat number.digitChar.toNat).toNat = 48 + number := by
  rw [Nat.toNat_digitChar_of_lt_ten small, UInt8.toNat_ofNat']
  omega

theorem decimal_small {number : Nat} (small : number < 10) :
    decimal number = [UInt8.ofNat number.digitChar.toNat] := by
  rw [decimal, Nat.toDigits_of_lt_base small, List.map_singleton]

theorem decimal_step {number : Nat} (large : 10 ≤ number) :
    decimal number = decimal (number / 10) ++ decimal (number % 10) := by
  rw [decimal_small (Nat.mod_lt _ (by decide)), decimal,
    Nat.toDigits_of_base_le (by decide) large, List.map_append, List.map_singleton, decimal]

theorem decimal_ne_nil (number : Nat) : decimal number ≠ [] := by
  simp [decimal, Nat.toDigits_ne_nil]

theorem decimal_digits (number : Nat) : ∀ byte ∈ decimal number, isDigit byte := by
  induction number using Nat.strongRecOn with
  | ind number ih =>
      by_cases small : number < 10
      · intro byte member
        rw [decimal_small small, List.mem_singleton] at member
        rw [member, isDigit, digit_toNat small]
        simp only [decide_eq_true_eq]
        omega
      · have low := Nat.mod_lt number (show 0 < 10 by decide)
        intro byte member
        rw [decimal_step (by omega)] at member
        rcases List.mem_append.mp member with front | back
        · exact ih _ (by omega) byte front
        · exact ih _ (by omega) byte back

theorem foldl_digits (digits : Bytes) (start : Nat) :
    digits.foldl (fun value byte => 10 * value + (byte.toNat - 48)) start =
      start * 10 ^ digits.length + digitsValue digits := by
  rw [digitsValue]
  induction digits generalizing start with
  | nil => simp
  | cons byte digits ih =>
      rw [List.foldl_cons, List.foldl_cons, ih, ih (10 * 0 + _), List.length_cons, Nat.pow_succ,
        Nat.add_mul]
      ring

theorem digitsValue_append (front back : Bytes) :
    digitsValue (front ++ back) = digitsValue front * 10 ^ back.length + digitsValue back := by
  rw [digitsValue, List.foldl_append, foldl_digits]
  rfl

theorem digitsValue_decimal (number : Nat) : digitsValue (decimal number) = number := by
  induction number using Nat.strongRecOn with
  | ind number ih =>
      by_cases small : number < 10
      · rw [decimal_small small, digitsValue, List.foldl_cons, List.foldl_nil, digit_toNat small]
        omega
      · have low := Nat.mod_lt number (show 0 < 10 by decide)
        rw [decimal_step (by omega), digitsValue_append, ih _ (by omega), ih _ (by omega),
          decimal_small low, List.length_singleton]
        omega

theorem decimal_injective {first second : Nat} (same : decimal first = decimal second) :
    first = second := by
  rw [← digitsValue_decimal first, same, digitsValue_decimal]

theorem decimal_head (number : Nat) (positive : 0 < number) :
    ∃ first rest, decimal number = first :: rest ∧ 48 < first.toNat := by
  induction number using Nat.strongRecOn with
  | ind number ih =>
      by_cases small : number < 10
      · refine ⟨_, [], decimal_small small, ?_⟩
        rw [digit_toNat small]
        omega
      · obtain ⟨first, rest, split, large⟩ := ih (number / 10) (by omega) (by omega)
        refine ⟨first, rest ++ decimal (number % 10), ?_, large⟩
        rw [decimal_step (by omega), split, List.cons_append]

theorem splitSign_digit {first : UInt8} (digit : isDigit first) (rest : Bytes) :
    splitSign (first :: rest) = (false, first :: rest) := by
  have notMinus : first ≠ 45 := by
    rintro rfl
    simp [isDigit] at digit
  have notPlus : first ≠ 43 := by
    rintro rfl
    simp [isDigit] at digit
  rw [splitSign, if_neg notMinus, if_neg notPlus]

theorem digit_solid {byte : UInt8} (digit : isDigit byte) : isSpace byte = false := by
  simp only [isDigit, decide_eq_true_eq] at digit
  simp only [isSpace, decide_eq_false_iff_not]
  omega

theorem takeWhile_digits {digits : Bytes} (all : ∀ byte ∈ digits, isDigit byte) :
    digits.takeWhile isDigit = digits := by
  have whole := @List.takeWhile_append_of_pos _ isDigit digits [] all
  simpa using whole

theorem signedDigits_digits {digits : Bytes} (nonempty : digits ≠ [])
    (all : ∀ byte ∈ digits, isDigit byte) :
    signedDigits digits = some (false, digitsValue digits) := by
  obtain ⟨first, others, rfl⟩ := List.exists_cons_of_ne_nil nonempty
  have digit := all first (by simp)
  simp only [signedDigits, List.dropWhile_cons, digit_solid digit, Bool.false_eq_true, if_false,
    splitSign_digit digit, takeWhile_digits all, List.isEmpty_cons]

theorem signedDigits_minus {digits : Bytes} (nonempty : digits ≠ [])
    (all : ∀ byte ∈ digits, isDigit byte) :
    signedDigits (45 :: digits) = some (true, digitsValue digits) := by
  have empty : digits.isEmpty = false := by simpa using nonempty
  simp only [signedDigits, List.dropWhile_cons, show isSpace 45 = false by decide,
    Bool.false_eq_true, if_false, splitSign, if_true, takeWhile_digits all, empty]

theorem stoull_decimal {number : Nat} (bound : number < 2 ^ 64) :
    stoull (decimal number) = some (UInt64.ofNat number) := by
  simp only [stoull, signedDigits_digits (decimal_ne_nil number) (decimal_digits number),
    digitsValue_decimal, if_neg (Nat.not_le.mpr bound), Bool.false_eq_true, if_false]

theorem digitsValue_head {first : UInt8} (large : 48 < first.toNat) (rest : Bytes) :
    0 < digitsValue (first :: rest) := by
  rw [digitsValue, List.foldl_cons, foldl_digits]
  have power : 0 < 10 ^ rest.length := Nat.pow_pos (by decide)
  have leading : 0 < 10 * 0 + (first.toNat - 48) := by omega
  have product := Nat.mul_pos leading power
  omega

theorem stoull_prefixed {number kept suffix : Nat} {result : UInt64} (positive : 0 < number)
    (some : 0 < kept)
    (read : stoull ((decimal number).take kept ++ decimal suffix) = .some result) :
    suffix < result.toNat := by
  obtain ⟨first, rest, shape, large⟩ := decimal_head number positive
  have digits : ∀ byte ∈ (decimal number).take kept ++ decimal suffix, isDigit byte := by
    intro byte member
    rcases List.mem_append.mp member with front | back
    · exact decimal_digits number byte (List.mem_of_mem_take front)
    · exact decimal_digits suffix byte back
  have nonempty : (decimal number).take kept ++ decimal suffix ≠ [] := by
    simp [decimal_ne_nil]
  have ahead : 0 < digitsValue ((decimal number).take kept) := by
    obtain ⟨count, rfl⟩ := Nat.exists_eq_succ_of_ne_zero (Nat.pos_iff_ne_zero.mp some)
    rw [shape, List.take_succ_cons]
    exact digitsValue_head large _
  have power : 0 < 10 ^ (decimal suffix).length := Nat.pow_pos (by decide)
  have product := Nat.mul_pos ahead power
  simp only [stoull, signedDigits_digits nonempty digits, digitsValue_append,
    digitsValue_decimal, Bool.false_eq_true, if_false] at read
  split at read
  · cases read
  · rename_i bound
    rw [← Option.some.inj read, UInt64.toNat_ofNat', Nat.mod_eq_of_lt (by omega)]
    omega

theorem stoll_decimalInt (number : Int64) : stoll (decimalInt number.toInt) = some number := by
  have low := Int64.le_toInt number
  have high := Int64.toInt_lt number
  have digits := decimal_digits number.toInt.natAbs
  have nonempty := decimal_ne_nil number.toInt.natAbs
  by_cases negative : number.toInt < 0
  · rw [decimalInt, if_pos negative]
    simp only [stoll, signedDigits_minus nonempty digits, digitsValue_decimal]
    rw [if_neg (by omega)]
    have same : (-(number.toInt.natAbs : Int)) = number.toInt := by omega
    rw [same, Int64.ofInt_toInt]
  · rw [decimalInt, if_neg negative]
    simp only [stoll, signedDigits_digits nonempty digits, digitsValue_decimal]
    rw [if_neg (by omega)]
    have same : (number.toInt.natAbs : Int) = number.toInt := by omega
    rw [same, Int64.ofInt_toInt]

end Decimal
