import Udaf.Core.RingBufferFifo

/-!
`core/buffer/buffer.cpp`: `DynamicRingBuffer`, which copies the length of a record in
one piece. It is the ring buffer as long as no header starts in the last three bytes,
and leaves its storage at the first that does.
-/

namespace Udaf

open ByteString Ring

structure DynamicRingBuffer (capacity : Nat) where
  head : UInt64 := 0
  storage : Block UInt8 capacity := Block.fill capacity 0
  tail : UInt64 := 0

namespace DynamicRingBuffer

variable {capacity : Nat}

def index (pos : UInt64) (cap : Nat) : Nat := (pos &&& (UInt64.ofNat cap - 1)).toNat

def storeData (storage : Block UInt8 capacity) (dataPos : Nat) (data : Bytes) :
    Option (Block UInt8 capacity) :=
  if dataPos + data.length ≤ capacity then store storage dataPos data
  else
    let first := capacity - dataPos
    match store storage dataPos (data.take first) with
    | none => none
    | some storage => store storage 0 (data.drop first)

def loadData (storage : Block UInt8 capacity) (dataPos len : Nat) : Option Bytes :=
  if dataPos + len ≤ capacity then load storage dataPos len
  else
    let first := capacity - dataPos
    match load storage dataPos first with
    | none => none
    | some front =>
        match load storage 0 (len - first) with
        | none => none
        | some back => some (front ++ back)

def write (buffer : DynamicRingBuffer capacity) (data : Bytes) :
    Option (Except ErrorCode Unit × DynamicRingBuffer capacity) :=
  let maxEntry := UInt64.ofNat capacity - entryHeaderBytes
  if maxEntry.toNat < data.length then some (.error .protocolPayloadTooLarge, buffer)
  else
    let need := entryHeaderBytes + UInt64.ofNat data.length
    if UInt64.ofNat capacity - (buffer.head - buffer.tail) < need then
      some (.error .resMemoryExhausted, buffer)
    else
      let len := UInt32.ofNat data.length
      let idx := index buffer.head capacity
      match store buffer.storage idx (leBytes 4 len.toNat) with
      | none => none
      | some storage =>
          let dataPos := index (UInt64.ofNat idx + entryHeaderBytes) capacity
          match storeData storage dataPos data with
          | none => none
          | some storage =>
              some (.ok (), { buffer with storage := storage, head := buffer.head + need })

def read (buffer : DynamicRingBuffer capacity) (out : Bytes) :
    Option (Except ErrorCode Nat × Bytes × DynamicRingBuffer capacity) :=
  if buffer.head = buffer.tail then some (.error .resMemoryExhausted, out, buffer)
  else
    match load buffer.storage (index buffer.tail capacity) 4 with
    | none => none
    | some header =>
        let len := leNat header
        if out.length < len then some (.error .protocolTruncatedBuffer, out, buffer)
        else
          let dataPos := index (buffer.tail + entryHeaderBytes) capacity
          match loadData buffer.storage dataPos len with
          | none => none
          | some data =>
              some (.ok len, data ++ out.drop len,
                { buffer with tail := buffer.tail + entryHeaderBytes + UInt64.ofNat len })

end DynamicRingBuffer

inductive TransferOp where
  | write (data : Bytes)
  | read (out : Bytes)
  deriving DecidableEq

def TransferOp.op : TransferOp → BufferOp
  | .write data => .write data
  | .read out => .read out

namespace DynamicRingBuffer

variable {capacity : Nat}

def step (buffer : DynamicRingBuffer capacity) :
    TransferOp → Option (BufferReply × DynamicRingBuffer capacity)
  | .write data =>
      match buffer.write data with
      | none => none
      | some (result, next) => some (.wrote result, next)
  | .read out =>
      match buffer.read out with
      | none => none
      | some (result, filled, next) => some (.got result filled, next)

def exec (buffer : DynamicRingBuffer capacity) :
    List TransferOp → Option (List BufferReply × DynamicRingBuffer capacity)
  | [] => some ([], buffer)
  | op :: rest =>
      match buffer.step op with
      | none => none
      | some (reply, next) =>
          match next.exec rest with
          | none => none
          | some (replies, final) => some (reply :: replies, final)

def toRing (buffer : DynamicRingBuffer capacity) : RingBuffer capacity where
  storage := buffer.storage
  head := buffer.head
  tail := buffer.tail

def ofRing (buffer : RingBuffer capacity) : DynamicRingBuffer capacity where
  head := buffer.head
  storage := buffer.storage
  tail := buffer.tail

theorem index_eq (pos : UInt64) : index pos capacity = RingBuffer.index capacity pos := rfl

theorem storeData_eq {storage : Block UInt8 capacity} {dataPos : Nat} (inside : dataPos < capacity)
    (data : Bytes) : storeData storage dataPos data = storeAround storage dataPos data := by
  rw [storeData]
  by_cases whole : dataPos + data.length ≤ capacity
  · rw [if_pos whole, storeAround_inside whole]
  · rw [if_neg whole, storeAround_outside (Nat.lt_of_not_le whole) inside]
    simp only
    cases store storage dataPos (data.take (capacity - dataPos)) <;> rfl

theorem loadData_eq {storage : Block UInt8 capacity} {dataPos : Nat} (inside : dataPos < capacity)
    (len : Nat) : loadData storage dataPos len = loadAround storage dataPos len := by
  rw [loadData]
  by_cases whole : dataPos + len ≤ capacity
  · rw [if_pos whole, loadAround_inside whole]
  · rw [if_neg whole, loadAround_outside (Nat.lt_of_not_le whole) inside]
    simp only
    cases load storage dataPos (capacity - dataPos) with
    | none => rfl
    | some front => cases load storage 0 (len - (capacity - dataPos)) <;> rfl

section Valid

variable (valid : ValidCapacity capacity) {buffer : DynamicRingBuffer capacity}
include valid

theorem index_lt (pos : UInt64) : index pos capacity < capacity := by
  rw [index_eq, valid.index_eq]
  exact Nat.mod_lt _ (Nat.lt_of_lt_of_le (by decide) valid.header)

theorem dataPos_eq (pos : UInt64) :
    index (UInt64.ofNat (index pos capacity) + entryHeaderBytes) capacity =
      RingBuffer.index capacity (pos + entryHeaderBytes) := by
  have small := valid.bound
  have low := index_lt valid pos
  have place : (UInt64.ofNat (index pos capacity)).toNat = index pos capacity := by
    rw [UInt64.toNat_ofNat']
    exact Nat.mod_eq_of_lt (by omega)
  rw [index_eq, valid.index_eq, valid.index_eq, entryHeaderBytes, ← show UInt64.ofNat 4 = 4 from rfl,
    valid.advance, valid.advance, place, index_eq, valid.index_eq, Nat.mod_add_mod]

theorem write_whole (whole : RingBuffer.index capacity buffer.head + 4 ≤ capacity) (data : Bytes) :
    buffer.write data = (buffer.toRing.write data).map fun (result, next) =>
      (result, ofRing next) := by
  have header (len : Nat) :
      RingBuffer.writeAt buffer.toRing.storage buffer.toRing.head (leBytes 4 len) =
        store buffer.storage (index buffer.head capacity) (leBytes 4 len) := by
    rw [RingBuffer.writeAt_eq]
    exact storeAround_inside (by rw [leBytes_length]; exact whole)
  unfold write RingBuffer.write
  simp only
  rw [RingBuffer.maxEntryBytes]
  by_cases large : (UInt64.ofNat capacity - entryHeaderBytes).toNat < data.length
  · rw [if_pos large, if_pos large]
    rfl
  · rw [if_neg large, if_neg large]
    by_cases full : UInt64.ofNat capacity - (buffer.head - buffer.tail) <
        entryHeaderBytes + UInt64.ofNat data.length
    · have ringFull : UInt64.ofNat capacity - (buffer.toRing.head - buffer.toRing.tail) <
          entryHeaderBytes + UInt64.ofNat data.length := full
      rw [if_pos full, if_pos ringFull]
      rfl
    · have ringRoom : ¬ UInt64.ofNat capacity - (buffer.toRing.head - buffer.toRing.tail) <
          entryHeaderBytes + UInt64.ofNat data.length := full
      rw [if_neg full, if_neg ringRoom, header]
      cases store buffer.storage (index buffer.head capacity)
          (leBytes 4 (UInt32.ofNat data.length).toNat) with
      | none => rfl
      | some storage =>
          simp only
          have body : RingBuffer.writeAt storage (buffer.toRing.head + entryHeaderBytes) data =
              storeData storage (index (UInt64.ofNat (index buffer.head capacity) + entryHeaderBytes)
                capacity) data := by
            rw [storeData_eq (index_lt valid _), dataPos_eq valid, RingBuffer.writeAt_eq]
            rfl
          rw [body]
          cases storeData storage _ data <;> rfl

theorem read_whole (whole : RingBuffer.index capacity buffer.tail + 4 ≤ capacity) (out : Bytes) :
    buffer.read out = (buffer.toRing.read out).map fun (result, filled, next) =>
      (result, filled, ofRing next) := by
  have header : RingBuffer.readAt buffer.toRing.storage buffer.toRing.tail 4 =
      load buffer.storage (index buffer.tail capacity) 4 := by
    rw [RingBuffer.readAt_eq]
    exact loadAround_inside whole
  unfold read RingBuffer.read
  by_cases empty : buffer.head = buffer.tail
  · have ringEmpty : buffer.toRing.head = buffer.toRing.tail := empty
    rw [if_pos empty, if_pos ringEmpty]
    rfl
  · have ringFilled : ¬ buffer.toRing.head = buffer.toRing.tail := empty
    rw [if_neg empty, if_neg ringFilled, header]
    cases load buffer.storage (index buffer.tail capacity) 4 with
    | none => rfl
    | some bytes =>
        simp only
        by_cases short : out.length < leNat bytes
        · rw [if_pos short, if_pos short]
          rfl
        · have body : RingBuffer.readAt buffer.toRing.storage
              (buffer.toRing.tail + entryHeaderBytes) (leNat bytes) = loadData buffer.storage
                (index (buffer.tail + entryHeaderBytes) capacity) (leNat bytes) := by
            rw [loadData_eq (index_lt valid _), RingBuffer.readAt_eq]
            rfl
          rw [if_neg short, if_neg short, body]
          cases loadData buffer.storage _ (leNat bytes) <;> rfl

end Valid

def Whole (capacity : Nat) : (start : Nat) → (queue : List Bytes) → Prop
  | _, [] => True
  | start, front :: rest =>
      start % capacity + 4 ≤ capacity ∧ Whole capacity (start + (4 + front.length)) rest

theorem Whole.turn {start other : Nat} {queue : List Bytes} (whole : Whole capacity start queue)
    (same : start % capacity = other % capacity) : Whole capacity other queue := by
  induction queue generalizing start other with
  | nil => trivial
  | cons front rest ih =>
      obtain ⟨header, behind⟩ := whole
      refine ⟨by rw [← same]; exact header, ih behind ?_⟩
      rw [Nat.add_mod, same, ← Nat.add_mod]

theorem Whole.concat {start : Nat} {queue : List Bytes} {data : Bytes}
    (whole : Whole capacity start queue)
    (header : (start + Fifo.used queue) % capacity + 4 ≤ capacity) :
    Whole capacity start (queue ++ [data]) := by
  induction queue generalizing start with
  | nil => exact ⟨header, trivial⟩
  | cons front rest ih =>
      rw [used_cons, ← Nat.add_assoc] at header
      exact ⟨whole.1, ih whole.2 header⟩

structure Follows (buffer : DynamicRingBuffer capacity) (queue : List Bytes) (written : Nat) :
    Prop where
  represents : buffer.toRing.Represents queue
  whole : Whole capacity buffer.tail.toNat queue
  head_mod : buffer.head.toNat % capacity = written % capacity

theorem follows_new : Follows ({} : DynamicRingBuffer capacity) [] 0 :=
  ⟨RingBuffer.represents_new, trivial, rfl⟩

/-- Every write that is accepted starts where a whole header fits before the end of the storage;
`written` counts the bytes of the writes accepted before. -/
def HeadersWhole (capacity : Nat) : (queue : List Bytes) → (written : Nat) → List TransferOp → Prop
  | _, _, [] => True
  | queue, written, .write data :: rest =>
      match Fifo.write capacity queue data with
      | (.error _, _) => HeadersWhole capacity queue written rest
      | (.ok _, next) =>
          written % capacity + 4 ≤ capacity ∧
            HeadersWhole capacity next (written + (4 + data.length)) rest
  | queue, written, .read out :: rest => HeadersWhole capacity (Fifo.read queue out).2.2 written rest

theorem fifo_accepted {queue next : List Bytes} {data : Bytes}
    (accepted : Fifo.write capacity queue data = (.ok (), next)) :
    next = queue ++ [data] ∧ data.length ≤ capacity - 4 ∧
      Fifo.used queue + (4 + data.length) ≤ capacity := by
  rw [Fifo.write] at accepted
  split at accepted
  · cases accepted
  · split at accepted
    · cases accepted
    · cases accepted
      exact ⟨rfl, by omega, by omega⟩

theorem fifo_refused {queue next : List Bytes} {data : Bytes} {code : ErrorCode}
    (refused : Fifo.write capacity queue data = (.error code, next)) : next = queue := by
  rw [Fifo.write] at refused
  split at refused
  · cases refused
    rfl
  · split at refused
    · cases refused
      rfl
    · cases refused

section Follows

variable (valid : ValidCapacity capacity) {buffer : DynamicRingBuffer capacity} {queue : List Bytes}
  {written : Nat} (follows : Follows buffer queue written)
include valid follows

theorem write_refused {data : Bytes} {code : ErrorCode} {next : List Bytes}
    (refused : Fifo.write capacity queue data = (.error code, next)) :
    buffer.write data = some (.error code, buffer) := by
  have large := RingBuffer.maxEntryBytes_eq valid
  rw [Fifo.write] at refused
  by_cases tooLong : capacity - 4 < data.length
  · rw [if_pos tooLong] at refused
    cases refused
    exact if_pos (by rw [← large] at tooLong; exact tooLong)
  · rw [if_neg tooLong] at refused
    by_cases full : capacity < Fifo.used queue + (4 + data.length)
    · rw [if_pos full] at refused
      cases refused
      have room := (RingBuffer.full_iff valid follows.represents (Nat.le_of_not_lt tooLong)).mpr full
      unfold write
      simp only
      rw [if_neg (by rw [← large] at tooLong; exact tooLong)]
      exact if_pos room
    · rw [if_neg full] at refused
      cases refused

theorem write_follows {data : Bytes} {later : List Bytes}
    (accepted : Fifo.write capacity queue data = (.ok (), later))
    (header : written % capacity + 4 ≤ capacity) :
    ∃ next, buffer.write data = some (.ok (), next) ∧
      Follows next later (written + (4 + data.length)) := by
  obtain ⟨rfl, -, fits⟩ := fifo_accepted accepted
  have place : RingBuffer.index capacity buffer.head = written % capacity := by
    rw [valid.index_eq, follows.head_mod]
  obtain ⟨next, stored, represents, tail, head⟩ :=
    RingBuffer.write_fits valid follows.represents fits
  refine ⟨ofRing next, ?_, represents, ?_, ?_⟩
  · rw [write_whole valid (by rw [place]; exact header), stored]
    rfl
  · have behind := follows.represents.head_eq
    have headAt : (buffer.tail.toNat + Fifo.used queue) % capacity = buffer.head.toNat % capacity := by
      rw [← valid.advance]
      exact congrArg (fun pos : UInt64 => pos.toNat % capacity) behind.symm
    rw [ofRing, tail]
    apply follows.whole.concat
    rw [headAt, follows.head_mod]
    exact header
  · rw [ofRing, head, entryHeaderBytes, ← show UInt64.ofNat 4 = 4 from rfl, ← UInt64.ofNat_add,
      valid.advance, Nat.add_mod, show buffer.toRing.head = buffer.head from rfl, follows.head_mod,
      ← Nat.add_mod]

theorem write_overruns {data : Bytes} {later : List Bytes}
    (accepted : Fifo.write capacity queue data = (.ok (), later))
    (outside : ¬ written % capacity + 4 ≤ capacity) : buffer.write data = none := by
  obtain ⟨-, short, fits⟩ := fifo_accepted accepted
  have large := RingBuffer.maxEntryBytes_eq valid
  have place : index buffer.head capacity = written % capacity := by
    rw [index_eq, valid.index_eq, follows.head_mod]
  have room := mt (RingBuffer.full_iff valid follows.represents short).mp (by omega)
  have entry : ¬ (UInt64.ofNat capacity - entryHeaderBytes).toNat < data.length := by
    rw [RingBuffer.maxEntryBytes] at large
    omega
  unfold write
  simp only
  rw [if_neg entry]
  refine (if_neg room).trans ?_
  rw [store_outside (by rw [leBytes_length, place]; omega)]

theorem read_follows (out : Bytes) :
    ∃ next, buffer.read out = some ((Fifo.read queue out).1, (Fifo.read queue out).2.1, next) ∧
      Follows next (Fifo.read queue out).2.2 written := by
  cases queue with
  | nil =>
      refine ⟨buffer, ?_, follows⟩
      exact if_pos ((RingBuffer.head_eq_tail valid follows.represents).mpr rfl)
  | cons front rest =>
      have header : RingBuffer.index capacity buffer.tail + 4 ≤ capacity := by
        rw [valid.index_eq]
        exact follows.whole.1
      rw [Fifo.read]
      by_cases short : out.length < front.length
      · rw [if_pos short]
        refine ⟨buffer, ?_, follows⟩
        rw [read_whole valid header, RingBuffer.read_short valid follows.represents short]
        rfl
      · rw [if_neg short]
        refine ⟨ofRing { buffer.toRing with
          tail := buffer.tail + entryHeaderBytes + UInt64.ofNat front.length }, ?_,
          RingBuffer.represents_rest valid follows.represents, ?_, follows.head_mod⟩
        · rw [read_whole valid header, RingBuffer.read_front valid follows.represents short]
          rfl
        · apply follows.whole.2.turn
          rw [← valid.advance, UInt64.ofNat_add, ← UInt64.add_assoc]
          rfl

end Follows

theorem exec_step {buffer next : DynamicRingBuffer capacity} {op : TransferOp} {reply : BufferReply}
    (stepped : buffer.step op = some (reply, next)) (rest : List TransferOp)
    (replies : List BufferReply) :
    (∃ final, buffer.exec (op :: rest) = some (reply :: replies, final)) ↔
      ∃ final, next.exec rest = some (replies, final) := by
  rw [exec, stepped]
  simp only
  cases next.exec rest with
  | none => simp
  | some outcome => simp [Prod.ext_iff]

theorem exec_iff (valid : ValidCapacity capacity) {buffer : DynamicRingBuffer capacity}
    {queue : List Bytes} {written : Nat} (follows : Follows buffer queue written)
    (ops : List TransferOp) :
    (∃ final, buffer.exec ops =
        some (Fifo.replies capacity queue (ops.map TransferOp.op), final)) ↔
      HeadersWhole capacity queue written ops := by
  induction ops generalizing buffer queue written with
  | nil => exact ⟨fun _ => trivial, fun _ => ⟨buffer, rfl⟩⟩
  | cons op rest ih =>
      cases op with
      | write data =>
          rw [List.map_cons, TransferOp.op, Fifo.replies, Fifo.step, HeadersWhole]
          cases answer : Fifo.write capacity queue data with
          | mk result later =>
              cases result with
              | error code =>
                  have stepped : buffer.step (.write data) = some (.wrote (.error code), buffer) := by
                    rw [step, write_refused valid follows answer]
                  rw [exec_step stepped, fifo_refused answer]
                  exact ih follows
              | ok done =>
                  by_cases header : written % capacity + 4 ≤ capacity
                  · obtain ⟨next, stored, kept⟩ := write_follows valid follows answer header
                    have stepped : buffer.step (.write data) = some (.wrote (.ok ()), next) := by
                      rw [step, stored]
                    rw [exec_step stepped, ih kept]
                    exact ⟨fun behind => ⟨header, behind⟩, And.right⟩
                  · constructor
                    · rintro ⟨final, ran⟩
                      rw [exec, step, write_overruns valid follows answer header] at ran
                      cases ran
                    · intro whole
                      exact absurd whole.1 header
      | read out =>
          obtain ⟨next, filled, kept⟩ := read_follows valid follows out
          have stepped : buffer.step (.read out) =
              some (.got (Fifo.read queue out).1 (Fifo.read queue out).2.1, next) := by
            rw [step, filled]
          rw [List.map_cons, TransferOp.op, Fifo.replies, Fifo.step, HeadersWhole, exec_step stepped]
          exact ih kept

/-- Driven by the same calls, both buffers answer alike, and no copy leaves the storage. -/
def Agrees (capacity : Nat) (ops : List TransferOp) : Prop :=
  ∃ events ringFinal final,
    ({} : RingBuffer capacity).exec (ops.map TransferOp.op) = some (events, ringFinal) ∧
    ({} : DynamicRingBuffer capacity).exec ops = some (events.map RingBuffer.Event.reply, final)

/-- The dynamic buffer agrees with the ring buffer exactly when every write that is accepted starts
where its header fits before the end of the storage. -/
theorem agrees_iff (valid : ValidCapacity capacity) (ops : List TransferOp) :
    Agrees capacity ops ↔ HeadersWhole capacity [] 0 ops := by
  obtain ⟨events, ringFinal, ran, replies, -⟩ :=
    RingBuffer.exec_refines valid RingBuffer.represents_new (ops.map TransferOp.op)
  rw [← exec_iff valid follows_new ops, ← replies]
  constructor
  · rintro ⟨others, otherFinal, final, again, dynamic⟩
    rw [ran] at again
    cases again
    exact ⟨final, dynamic⟩
  · rintro ⟨final, dynamic⟩
    exact ⟨events, ringFinal, final, ran, dynamic⟩

theorem agrees_iff_around : Agrees 16 [.write [1, 2, 3, 4, 5, 6], .read [0, 0, 0, 0, 0, 0],
    .write [7, 8, 9, 10], .read [0, 0, 0, 0]] :=
  (agrees_iff ⟨⟨4, rfl⟩, by decide, by decide⟩ _).mpr ⟨by decide, by decide, trivial⟩

/-- In eight bytes, the second record starts at the fifth. -/
theorem header_overruns : ¬ Agrees 8 [.write [1], .read [0], .write [2]] := by
  rintro ⟨events, ringFinal, final, -, dynamic⟩
  cases dynamic

end DynamicRingBuffer

end Udaf
