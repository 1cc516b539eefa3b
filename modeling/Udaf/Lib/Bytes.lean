import Mathlib.Algebra.Ring.Nat
import Mathlib.Data.List.Basic

/-! Byte strings: little-endian fields, blocks of a fixed size, overwriting a range of a file. -/

namespace ByteString

abbrev Bytes := List UInt8

def ascii (text : String) : Bytes := text.toList.map fun char => char.toNat.toUInt8

def leBytes : Nat → Nat → Bytes
  | 0, _ => []
  | width + 1, value => UInt8.ofNat value :: leBytes width (value / 256)

def leNat : Bytes → Nat
  | [] => 0
  | byte :: rest => byte.toNat + 256 * leNat rest

@[simp] theorem leBytes_length (width value : Nat) : (leBytes width value).length = width := by
  induction width generalizing value with
  | zero => rfl
  | succ width ih => simp [leBytes, ih]

theorem leNat_leBytes (width value : Nat) (bound : value < 256 ^ width) :
    leNat (leBytes width value) = value := by
  induction width generalizing value with
  | zero =>
      simp only [Nat.pow_zero, Nat.lt_one_iff] at bound
      simp [leBytes, leNat, bound]
  | succ width ih =>
      have quotient : value / 256 < 256 ^ width := by
        rw [Nat.pow_succ] at bound
        exact Nat.div_lt_of_lt_mul (by rwa [Nat.mul_comm])
      simp only [leBytes, leNat, ih _ quotient, UInt8.toNat_ofNat']
      omega

theorem leNat_lt (bytes : Bytes) : leNat bytes < 256 ^ bytes.length := by
  induction bytes with
  | nil => simp [leNat]
  | cons byte rest ih =>
      have low := byte.toNat_lt
      rw [leNat, List.length_cons, Nat.pow_succ]
      omega

theorem leBytes_leNat (bytes : Bytes) : leBytes bytes.length (leNat bytes) = bytes := by
  induction bytes with
  | nil => rfl
  | cons byte rest ih =>
      have small := byte.toNat_lt
      have low : UInt8.ofNat (byte.toNat + 256 * leNat rest) = byte := by
        apply UInt8.toNat_inj.mp
        rw [UInt8.toNat_ofNat']
        omega
      have high : (byte.toNat + 256 * leNat rest) / 256 = leNat rest := by omega
      rw [List.length_cons, leNat, leBytes, low, high, ih]

theorem leNat_inj {bytes other : Bytes} (length : other.length = bytes.length)
    (same : leNat other = leNat bytes) : other = bytes := by
  rw [← leBytes_leNat other, ← leBytes_leNat bytes, length, same]

/-- `data` written over `bytes` from `start` on; a gap behind the end is filled with zeros. -/
def splice (bytes : Bytes) (start : Nat) (data : Bytes) : Bytes :=
  if data.isEmpty then bytes
  else bytes.take start ++ List.replicate (start - bytes.length) 0 ++ data ++
    bytes.drop (start + data.length)

@[simp] theorem splice_end (bytes data : Bytes) : splice bytes bytes.length data = bytes ++ data := by
  cases data with
  | nil => simp [splice]
  | cons byte rest =>
      have past : bytes.drop (bytes.length + (byte :: rest).length) = [] :=
        List.drop_eq_nil_of_le (by omega)
      simp only [splice, List.isEmpty_cons, Bool.false_eq_true, if_false, List.take_length,
        Nat.sub_self, List.replicate_zero, List.append_nil, past]

def resize (bytes : Bytes) (length : Nat) : Bytes :=
  bytes.take length ++ List.replicate (length - bytes.length) 0

theorem resize_append_left (front back : Bytes) : resize (front ++ back) front.length = front := by
  simp [resize]

/-- `assign(data + start, data + start + count)`; `none` when the range leaves `data`. -/
def readRange (data : Bytes) (start count : Nat) : Option Bytes :=
  if start + count ≤ data.length then some ((data.drop start).take count) else none

structure Block (α : Type) (size : Nat) where
  bytes : List α
  length_eq : bytes.length = size
  deriving DecidableEq

namespace Block

variable {α : Type} {size : Nat}

attribute [simp] length_eq

@[ext] theorem ext {block other : Block α size} (same : block.bytes = other.bytes) :
    block = other := by
  cases block
  cases other
  cases same
  rfl

def fill (size : Nat) (byte : α) : Block α size := ⟨List.replicate size byte, by simp⟩

def slice (bytes : List α) (start size : Nat) (inside : start + size ≤ bytes.length) :
    Block α size :=
  ⟨(bytes.drop start).take size, by rw [List.length_take, List.length_drop]; omega⟩

theorem slice_eq {bytes : List α} {block : Block α size} {start : Nat} (front back : List α)
    (shape : bytes = front ++ (block.bytes ++ back)) (length : front.length = start)
    (inside : start + size ≤ bytes.length) : slice bytes start size inside = block := by
  subst shape
  apply Block.ext
  simp only [slice]
  rw [List.drop_left' length, List.take_left' block.length_eq]

end Block

end ByteString
