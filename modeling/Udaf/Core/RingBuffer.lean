import Udaf.Core.ErrorCode
import Udaf.Lib.Ring

/-!
`core/buffer/buffer.hpp`: `RingBuffer`, a byte buffer of records, each behind its
length. The counters are 64-bit and wrap, and a copy that leaves the storage is `none`.
-/

namespace Udaf

open ByteString Ring

structure RingBuffer (capacity : Nat) where
  storage : Block UInt8 capacity := Block.fill capacity 0
  head : UInt64 := 0
  tail : UInt64 := 0

def entryHeaderBytes : UInt64 := 4

namespace RingBuffer

variable {capacity : Nat}

def maxEntryBytes (capacity : Nat) : UInt64 := UInt64.ofNat capacity - entryHeaderBytes

def index (capacity : Nat) (pos : UInt64) : Nat := (pos &&& (UInt64.ofNat capacity - 1)).toNat

def size (buffer : RingBuffer capacity) : UInt64 := buffer.head - buffer.tail

def freeSpace (buffer : RingBuffer capacity) : UInt64 := UInt64.ofNat capacity - buffer.size

def writeAt (storage : Block UInt8 capacity) (pos : UInt64) (src : Bytes) :
    Option (Block UInt8 capacity) :=
  let idx := index capacity pos
  let first := min src.length (capacity - idx)
  match store storage idx (src.take first) with
  | none => none
  | some storage =>
      if first < src.length then store storage 0 (src.drop first) else some storage

def readAt (storage : Block UInt8 capacity) (pos : UInt64) (size : Nat) : Option Bytes :=
  let idx := index capacity pos
  let first := min size (capacity - idx)
  match load storage idx first with
  | none => none
  | some front =>
      if first < size then
        match load storage 0 (size - first) with
        | none => none
        | some back => some (front ++ back)
      else some front

def write (buffer : RingBuffer capacity) (data : Bytes) :
    Option (Except ErrorCode Unit × RingBuffer capacity) :=
  if (maxEntryBytes capacity).toNat < data.length then
    some (.error .protocolPayloadTooLarge, buffer)
  else
    let need := entryHeaderBytes + UInt64.ofNat data.length
    if UInt64.ofNat capacity - (buffer.head - buffer.tail) < need then
      some (.error .resMemoryExhausted, buffer)
    else
      let len := UInt32.ofNat data.length
      match writeAt buffer.storage buffer.head (leBytes 4 len.toNat) with
      | none => none
      | some storage =>
          match writeAt storage (buffer.head + entryHeaderBytes) data with
          | none => none
          | some storage =>
              some (.ok (), { buffer with storage := storage, head := buffer.head + need })

def read (buffer : RingBuffer capacity) (out : Bytes) :
    Option (Except ErrorCode Nat × Bytes × RingBuffer capacity) :=
  if buffer.head = buffer.tail then some (.error .resMemoryExhausted, out, buffer)
  else
    match readAt buffer.storage buffer.tail 4 with
    | none => none
    | some header =>
        let len := leNat header
        if out.length < len then some (.error .protocolTruncatedBuffer, out, buffer)
        else
          match readAt buffer.storage (buffer.tail + entryHeaderBytes) len with
          | none => none
          | some data =>
              some (.ok len, data ++ out.drop len,
                { buffer with tail := buffer.tail + entryHeaderBytes + UInt64.ofNat len })

def peekSize (buffer : RingBuffer capacity) : Option (Except ErrorCode Nat) :=
  if buffer.head = buffer.tail then some (.error .resMemoryExhausted)
  else
    match readAt buffer.storage buffer.tail 4 with
    | none => none
    | some header => some (.ok (leNat header))

end RingBuffer

inductive BufferOp where
  | write (data : Bytes)
  | read (out : Bytes)
  | peekSize
  | size
  | freeSpace
  deriving DecidableEq

inductive BufferReply where
  | wrote (result : Except ErrorCode Unit)
  | got (result : Except ErrorCode Nat) (out : Bytes)
  | peeked (result : Except ErrorCode Nat)
  | counted (bytes : Nat)

namespace RingBuffer

variable {capacity : Nat}

def step (buffer : RingBuffer capacity) : BufferOp → Option (BufferReply × RingBuffer capacity)
  | .write data =>
      match buffer.write data with
      | none => none
      | some (result, next) => some (.wrote result, next)
  | .read out =>
      match buffer.read out with
      | none => none
      | some (result, filled, next) => some (.got result filled, next)
  | .peekSize =>
      match buffer.peekSize with
      | none => none
      | some result => some (.peeked result, buffer)
  | .size => some (.counted buffer.size.toNat, buffer)
  | .freeSpace => some (.counted buffer.freeSpace.toNat, buffer)

structure Event (capacity : Nat) where
  before : RingBuffer capacity
  op : BufferOp
  reply : BufferReply
  after : RingBuffer capacity

def exec (buffer : RingBuffer capacity) :
    List BufferOp → Option (List (Event capacity) × RingBuffer capacity)
  | [] => some ([], buffer)
  | op :: rest =>
      match buffer.step op with
      | none => none
      | some (reply, next) =>
          match next.exec rest with
          | none => none
          | some (events, final) => some (⟨buffer, op, reply, next⟩ :: events, final)

end RingBuffer

/-- The capacities that the template admits, from the size of a header on. -/
structure ValidCapacity (capacity : Nat) : Prop where
  power : ∃ k, capacity = 2 ^ k
  header : 4 ≤ capacity
  bound : capacity ≤ 2 ^ 32

namespace ValidCapacity

variable {capacity : Nat}

theorem divides (valid : ValidCapacity capacity) : capacity ∣ 2 ^ 64 := by
  obtain ⟨k, rfl⟩ := valid.power
  apply Nat.pow_dvd_pow
  have small := valid.bound
  by_contra large
  have huge : 2 ^ 65 ≤ 2 ^ k := Nat.pow_le_pow_right (by decide) (by omega)
  omega

theorem toNat_ofNat (valid : ValidCapacity capacity) : (UInt64.ofNat capacity).toNat = capacity := by
  have small := valid.bound
  rw [UInt64.toNat_ofNat']
  exact Nat.mod_eq_of_lt (by omega)

theorem index_eq (valid : ValidCapacity capacity) (pos : UInt64) :
    RingBuffer.index capacity pos = pos.toNat % capacity := by
  have whole := valid.toNat_ofNat
  have large := valid.header
  have mask : (UInt64.ofNat capacity - 1).toNat = capacity - 1 := by
    rw [UInt64.toNat_sub_of_le _ _ (by rw [UInt64.le_iff_toNat_le, whole]; exact Nat.le_trans (by decide) large),
      whole]
    rfl
  obtain ⟨k, power⟩ := valid.power
  rw [RingBuffer.index, UInt64.toNat_and, mask, power, Nat.and_two_pow_sub_one_eq_mod]

theorem advance (valid : ValidCapacity capacity) (pos : UInt64) (count : Nat) :
    (pos + UInt64.ofNat count).toNat % capacity = (pos.toNat + count) % capacity := by
  rw [UInt64.toNat_add, UInt64.toNat_ofNat', Nat.add_mod_mod, Nat.mod_mod_of_dvd _ valid.divides]

end ValidCapacity

end Udaf
