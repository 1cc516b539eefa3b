import Udaf.Lib.Bytes

/-!
Byte strings as lower-case hexadecimal text, two digits a byte, and the reading of
hexadecimal text in either case.
-/

namespace Hex

open ByteString

def digit (value : Nat) : UInt8 := UInt8.ofNat (if value < 10 then 48 + value else 87 + value)

def hexByte (byte : UInt8) : Bytes := [digit (byte.toNat / 16), digit (byte.toNat % 16)]

def hexOf (bytes : Bytes) : Bytes := bytes.flatMap hexByte

def hexv (char : UInt8) : Option Nat :=
  if 48 ≤ char.toNat ∧ char.toNat ≤ 57 then some (char.toNat - 48)
  else if 97 ≤ char.toNat ∧ char.toNat ≤ 102 then some (10 + (char.toNat - 97))
  else if 65 ≤ char.toNat ∧ char.toNat ≤ 70 then some (10 + (char.toNat - 65))
  else none

def unhex : Bytes → Option Bytes
  | high :: low :: rest =>
      match hexv high, hexv low with
      | some high, some low => (unhex rest).map (UInt8.ofNat (16 * high + low) :: ·)
      | _, _ => none
  | _ => some []

def lower (char : UInt8) : UInt8 :=
  if 65 ≤ char.toNat ∧ char.toNat ≤ 90 then char + 32 else char

theorem digit_toNat {value : Nat} (small : value < 16) :
    (digit value).toNat = if value < 10 then 48 + value else 87 + value := by
  rw [digit, UInt8.toNat_ofNat']
  split <;> omega

theorem digit_injective {first second : Nat} (small : first < 16) (bound : second < 16)
    (same : digit first = digit second) : first = second := by
  have values := congrArg UInt8.toNat same
  rw [digit_toNat small, digit_toNat bound] at values
  split at values <;> split at values <;> omega

theorem hexByte_injective {first second : UInt8} (same : hexByte first = hexByte second) :
    first = second := by
  have firstBound := first.toNat_lt
  have secondBound := second.toNat_lt
  simp only [hexByte, List.cons.injEq, and_true] at same
  have high := digit_injective (by omega) (by omega) same.1
  have low := digit_injective (by omega) (by omega) same.2
  apply UInt8.toNat_inj.mp
  omega

theorem hexOf_injective {first second : Bytes} (same : hexOf first = hexOf second) :
    first = second := by
  induction first generalizing second with
  | nil =>
      cases second with
      | nil => rfl
      | cons byte rest => simp [hexOf, hexByte] at same
  | cons byte first ih =>
      cases second with
      | nil => simp [hexOf, hexByte] at same
      | cons other second =>
          simp only [hexOf, List.flatMap_cons] at same
          obtain ⟨head, tail⟩ := List.append_inj same rfl
          rw [hexByte_injective head, ih tail]

theorem hexOf_length (bytes : Bytes) : (hexOf bytes).length = 2 * bytes.length := by
  induction bytes with
  | nil => rfl
  | cons byte bytes ih =>
      rw [hexOf, List.flatMap_cons, List.length_append, ← hexOf, ih, List.length_cons]
      change 2 + _ = _
      omega

theorem hexOf_range {bytes : Bytes} {byte : UInt8} (member : byte ∈ hexOf bytes) :
    48 ≤ byte.toNat ∧ byte.toNat < 103 := by
  obtain ⟨source, _, inside⟩ := List.mem_flatMap.mp member
  have bound := source.toNat_lt
  have place : ∃ value, value < 16 ∧ byte = digit value := by
    simp only [hexByte, List.mem_cons, List.not_mem_nil, or_false] at inside
    rcases inside with high | low
    · exact ⟨_, by omega, high⟩
    · exact ⟨_, by omega, low⟩
  obtain ⟨value, small, rfl⟩ := place
  rw [digit_toNat small]
  split <;> omega

theorem digit_hexv {char : UInt8} {value : Nat} (read : hexv char = some value) :
    value < 16 ∧ digit value = lower char := by
  have place : value < 16 ∧ (if value < 10 then 48 + value else 87 + value) = (lower char).toNat := by
    unfold hexv at read
    unfold lower
    split_ifs at read with decimal small large
    · cases read
      rw [if_pos (by omega), if_neg (by omega)]
      omega
    · cases read
      rw [if_neg (by omega), if_neg (by omega)]
      omega
    · cases read
      rw [if_neg (by omega), if_pos (by omega), UInt8.toNat_add]
      change _ ∧ _ = (char.toNat + 32) % 2 ^ 8
      omega
  refine ⟨place.1, UInt8.toNat_inj.mp ?_⟩
  rw [digit_toNat place.1]
  exact place.2

theorem hexByte_pair {high low : Nat} (top : high < 16) (bottom : low < 16) :
    hexByte (UInt8.ofNat (16 * high + low)) = [digit high, digit low] := by
  have value : (UInt8.ofNat (16 * high + low)).toNat = 16 * high + low := by
    rw [UInt8.toNat_ofNat']
    omega
  rw [hexByte, value]
  congr 2
  · omega
  · congr 1
    omega

theorem hexOf_unhex {text bytes : Bytes} (even : text.length % 2 = 0)
    (read : unhex text = some bytes) :
    hexOf bytes = text.map lower ∧ 2 * bytes.length = text.length := by
  induction text using unhex.induct generalizing bytes with
  | case1 high low rest top bottom readBottom readTop ih =>
      rw [unhex, readTop, readBottom] at read
      obtain ⟨tail, readRest, rfl⟩ := Option.map_eq_some_iff.mp read
      obtain ⟨printed, length⟩ := ih (by simp only [List.length_cons] at even; omega) readRest
      obtain ⟨topBound, topDigit⟩ := digit_hexv readTop
      obtain ⟨bottomBound, bottomDigit⟩ := digit_hexv readBottom
      constructor
      · rw [hexOf, List.flatMap_cons, hexByte_pair topBound bottomBound, topDigit, bottomDigit]
        exact congrArg (lower high :: lower low :: ·) printed
      · simp only [List.length_cons]
        omega
  | case2 high low rest unread =>
      rw [unhex] at read
      split at read
      · rename_i top bottom readTop readBottom
        exact absurd readBottom (unread top bottom readTop)
      · cases read
  | case3 text short =>
      match text with
      | [] =>
          cases read
          exact ⟨rfl, rfl⟩
      | [_] => simp at even
      | high :: low :: rest => exact absurd rfl (short high low rest)

end Hex
