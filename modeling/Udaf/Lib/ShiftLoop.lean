import Udaf.Lib.Bytes
import Mathlib.Algebra.Order.Ring.Nat

/-!
The loops with which C code takes a machine word apart into bytes, lowest first, and puts it
together again: they are `leBytes` and `leNat`.
-/

namespace ByteString

variable {width : Nat}

def lowByte (value : BitVec width) : UInt8 := .ofBitVec ((value &&& 0xFF).setWidth 8)

/-- `push(value & 0xFF); value >>= 8;`, this many times. -/
def shiftOut : Nat → BitVec width → Bytes
  | 0, _ => []
  | count + 1, value => lowByte value :: shiftOut count (value >>> 8)

/-- `push((value >> (i * 8)) & 0xFF);` for `i` from `first` on, this many times. -/
def shiftOutAt (value : BitVec width) : Nat → Nat → Bytes
  | 0, _ => []
  | count + 1, first => lowByte (value >>> (first * 8)) :: shiftOutAt value count (first + 1)

/-- `value |= data[start + i] << (i * 8);` for `i` from `first` on, this many times; `none` when a
read leaves `data`. -/
def shiftIn (data : Bytes) (start : Nat) : Nat → Nat → BitVec width → Option (BitVec width)
  | 0, _, value => some value
  | count + 1, first, value => do
      let byte ← data[start + first]?
      shiftIn data start count (first + 1) (value ||| byte.toBitVec.setWidth width <<< (first * 8))

theorem lowByte_eq (value : BitVec width) (wide : 8 ≤ width) :
    lowByte value = UInt8.ofNat value.toNat := by
  have mask : (0xFF : BitVec width).toNat = 2 ^ 8 - 1 :=
    Nat.mod_eq_of_lt (Nat.lt_of_lt_of_le (by decide) (Nat.pow_le_pow_right (by decide) wide))
  apply UInt8.toNat_inj.mp
  rw [lowByte, UInt8.toNat_ofBitVec, BitVec.toNat_setWidth, BitVec.toNat_and, mask,
    Nat.and_two_pow_sub_one_eq_mod, UInt8.toNat_ofNat', Nat.mod_mod]

theorem shiftOut_eq (count : Nat) (value : BitVec width) (wide : 8 ≤ width) :
    shiftOut count value = leBytes count value.toNat := by
  induction count generalizing value with
  | zero => rfl
  | succ count ih =>
      have shifted : (value >>> 8).toNat = value.toNat / 256 := by
        rw [BitVec.toNat_ushiftRight, Nat.shiftRight_eq_div_pow]
      rw [shiftOut, leBytes, lowByte_eq value wide, ih, shifted]

theorem shiftOutAt_eq (value : BitVec width) (count first : Nat) (wide : 8 ≤ width) :
    shiftOutAt value count first = leBytes count (value.toNat / 256 ^ first) := by
  induction count generalizing first with
  | zero => rfl
  | succ count ih =>
      have shifted : (value >>> (first * 8)).toNat = value.toNat / 256 ^ first := by
        rw [BitVec.toNat_ushiftRight, Nat.shiftRight_eq_div_pow, Nat.mul_comm, Nat.pow_mul]
      rw [shiftOutAt, leBytes, lowByte_eq _ wide, shifted, ih, Nat.div_div_eq_div_mul, Nat.pow_succ]

theorem or_byte {value : BitVec width} {first : Nat} (low : value.toNat < 256 ^ first)
    (room : (first + 1) * 8 ≤ width) (byte : UInt8) :
    (value ||| byte.toBitVec.setWidth width <<< (first * 8)).toNat =
      value.toNat + 256 ^ first * byte.toNat := by
  have power : 256 ^ first = 2 ^ (first * 8) := by rw [Nat.mul_comm, Nat.pow_mul]
  have top : 2 ^ (first * 8) * byte.toNat < 2 ^ width := calc
    2 ^ (first * 8) * byte.toNat < 2 ^ (first * 8) * 2 ^ 8 :=
      Nat.mul_lt_mul_of_pos_left byte.toNat_lt (Nat.two_pow_pos _)
    _ = 2 ^ ((first + 1) * 8) := by rw [← Nat.pow_add, Nat.add_mul, Nat.one_mul]
    _ ≤ 2 ^ width := Nat.pow_le_pow_right (by decide) room
  have small : byte.toNat < 2 ^ width :=
    Nat.lt_of_lt_of_le byte.toNat_lt (Nat.pow_le_pow_right (by decide) (by omega))
  rw [power] at low ⊢
  rw [BitVec.toNat_or, BitVec.toNat_shiftLeft, BitVec.toNat_setWidth, UInt8.toNat_toBitVec,
    Nat.mod_eq_of_lt small, Nat.shiftLeft_eq, Nat.mul_comm byte.toNat, Nat.mod_eq_of_lt top,
    Nat.or_comm, ← Nat.two_pow_add_eq_or_of_lt low, Nat.add_comm]

theorem shiftIn_eq (data : Bytes) (start count first : Nat) (value : BitVec width)
    (inside : start + first + count ≤ data.length) (room : (first + count) * 8 ≤ width)
    (low : value.toNat < 256 ^ first) :
    shiftIn data start count first value = some (BitVec.ofNat width
      (value.toNat + 256 ^ first * leNat ((data.drop (start + first)).take count))) := by
  induction count generalizing first value with
  | zero => simp [shiftIn, leNat]
  | succ count ih =>
      have here : start + first < data.length := by omega
      have sum := or_byte low (by omega) data[start + first]
      have below : value.toNat + 256 ^ first * data[start + first].toNat < 256 ^ (first + 1) := by
        have step := Nat.mul_le_mul_left (256 ^ first) (Nat.le_of_lt_succ data[start + first].toNat_lt)
        rw [Nat.pow_succ]
        omega
      have rest := ih (first + 1) _ (by omega) (by omega) (sum ▸ below)
      simp only [shiftIn, List.getElem?_eq_getElem here, Option.bind_eq_bind, Option.bind_some]
      rw [rest, sum, List.drop_eq_getElem_cons here, List.take_succ_cons, leNat, Nat.pow_succ,
        Nat.mul_add, Nat.mul_assoc, Nat.add_assoc, Nat.add_assoc]

theorem shiftIn_zero (data : Bytes) (start count : Nat) (inside : start + count ≤ data.length)
    (room : count * 8 ≤ width) :
    shiftIn data start count 0 (BitVec.ofNat width 0) =
      some (BitVec.ofNat width (leNat ((data.drop start).take count))) := by
  rw [shiftIn_eq data start count 0 (BitVec.ofNat width 0) (by omega) (by omega) (by simp), BitVec.toNat_zero,
    Nat.pow_zero, Nat.zero_add, Nat.one_mul, Nat.add_zero]

end ByteString
