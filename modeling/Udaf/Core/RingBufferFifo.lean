import Udaf.Core.RingBuffer

/-!
A ring buffer is a bounded queue of byte strings. The records of the queue lie from
the tail on, each behind its length, however both wrap around the storage.
-/

namespace Udaf

open ByteString Ring

def BufferReply.Failed : BufferReply → Prop
  | .wrote (.error _) => True
  | .got (.error _) _ => True
  | .peeked (.error _) => True
  | _ => False

namespace Fifo

def used (queue : List Bytes) : Nat := (queue.map fun data => 4 + data.length).sum

def write (capacity : Nat) (queue : List Bytes) (data : Bytes) : Except ErrorCode Unit × List Bytes :=
  if capacity - 4 < data.length then (.error .protocolPayloadTooLarge, queue)
  else if capacity < used queue + (4 + data.length) then (.error .resMemoryExhausted, queue)
  else (.ok (), queue ++ [data])

def read (queue : List Bytes) (out : Bytes) : Except ErrorCode Nat × Bytes × List Bytes :=
  match queue with
  | [] => (.error .resMemoryExhausted, out, queue)
  | front :: rest =>
      if out.length < front.length then (.error .protocolTruncatedBuffer, out, queue)
      else (.ok front.length, front ++ out.drop front.length, rest)

def peekSize (queue : List Bytes) : Except ErrorCode Nat :=
  match queue with
  | [] => .error .resMemoryExhausted
  | front :: _ => .ok front.length

def step (capacity : Nat) (queue : List Bytes) : BufferOp → BufferReply × List Bytes
  | .write data => (.wrote (write capacity queue data).1, (write capacity queue data).2)
  | .read out => (.got (read queue out).1 (read queue out).2.1, (read queue out).2.2)
  | .peekSize => (.peeked (peekSize queue), queue)
  | .size => (.counted (used queue), queue)
  | .freeSpace => (.counted (capacity - used queue), queue)

def replies (capacity : Nat) (queue : List Bytes) : List BufferOp → List BufferReply
  | [] => []
  | op :: rest => (step capacity queue op).1 :: replies capacity (step capacity queue op).2 rest

end Fifo

def record (data : Bytes) : Bytes := leBytes 4 data.length ++ data

@[simp] theorem record_length (data : Bytes) : (record data).length = 4 + data.length := by
  simp [record]

theorem used_flatMap (queue : List Bytes) : (queue.flatMap record).length = Fifo.used queue := by
  simp [Fifo.used, List.length_flatMap]

@[simp] theorem used_cons (front : Bytes) (rest : List Bytes) :
    Fifo.used (front :: rest) = 4 + front.length + Fifo.used rest := by
  simp [Fifo.used]

@[simp] theorem used_concat (queue : List Bytes) (data : Bytes) :
    Fifo.used (queue ++ [data]) = Fifo.used queue + (4 + data.length) := by
  simp [Fifo.used]

theorem used_append (front back : List Bytes) :
    Fifo.used (front ++ back) = Fifo.used front + Fifo.used back := by
  simp [Fifo.used]

namespace RingBuffer

variable {capacity : Nat}

structure Represents (buffer : RingBuffer capacity) (queue : List Bytes) : Prop where
  fits : Fifo.used queue ≤ capacity
  head_eq : buffer.head = buffer.tail + UInt64.ofNat (Fifo.used queue)
  laid : Laid buffer.storage buffer.tail.toNat (queue.flatMap record)

theorem represents_new : Represents ({} : RingBuffer capacity) [] :=
  ⟨Nat.zero_le _, rfl, laid_nil _ _⟩

theorem writeAt_eq (storage : Block UInt8 capacity) (pos : UInt64) (src : Bytes) :
    writeAt storage pos src = storeAround storage (index capacity pos) src := by
  unfold writeAt storeAround
  simp only
  cases store storage (index capacity pos) (src.take (min src.length (capacity - index capacity pos)))
  · rfl
  · rfl

theorem readAt_eq (storage : Block UInt8 capacity) (pos : UInt64) (size : Nat) :
    readAt storage pos size = loadAround storage (index capacity pos) size := by
  unfold readAt loadAround
  simp only
  cases load storage (index capacity pos) (min size (capacity - index capacity pos))
  · rfl
  · simp only
    split
    · cases load storage 0 (size - min size (capacity - index capacity pos))
      · rfl
      · rfl
    · rfl

section Valid

variable (valid : ValidCapacity capacity)
include valid

theorem maxEntryBytes_eq : (maxEntryBytes capacity).toNat = capacity - 4 := by
  have whole := valid.toNat_ofNat
  have large := valid.header
  rw [maxEntryBytes, entryHeaderBytes, UInt64.toNat_sub_of_le _ _
    (by rw [UInt64.le_iff_toNat_le, whole]; exact large), whole]
  rfl

theorem need_toNat {data : Bytes} (fits : data.length ≤ capacity - 4) :
    (entryHeaderBytes + UInt64.ofNat data.length).toNat = 4 + data.length := by
  have small := valid.bound
  have large := valid.header
  have place : (UInt64.ofNat data.length).toNat = data.length := by
    rw [UInt64.toNat_ofNat']
    exact Nat.mod_eq_of_lt (by omega)
  rw [UInt64.toNat_add, place]
  exact Nat.mod_eq_of_lt (by show 4 + data.length < 2 ^ 64; omega)

variable {buffer : RingBuffer capacity} {queue : List Bytes} (represents : Represents buffer queue)
include represents

theorem toNat_used : (UInt64.ofNat (Fifo.used queue)).toNat = Fifo.used queue := by
  have small := valid.bound
  have fits := represents.fits
  rw [UInt64.toNat_ofNat']
  exact Nat.mod_eq_of_lt (by omega)

omit valid in
theorem size_eq : buffer.size = UInt64.ofNat (Fifo.used queue) := by
  rw [size, represents.head_eq, UInt64.add_comm, UInt64.add_sub_cancel]

theorem freeSpace_eq : buffer.freeSpace.toNat = capacity - Fifo.used queue := by
  have whole := valid.toNat_ofNat
  have count := toNat_used valid represents
  rw [freeSpace, size_eq represents, UInt64.toNat_sub_of_le _ _
    (by rw [UInt64.le_iff_toNat_le, whole, count]; exact represents.fits), whole, count]

theorem head_eq_tail : buffer.head = buffer.tail ↔ queue = [] := by
  constructor
  · intro same
    have none := size_eq represents
    rw [size, same, UInt64.sub_self] at none
    have count := toNat_used valid represents
    rw [← none] at count
    cases queue with
    | nil => rfl
    | cons front rest =>
        rw [used_cons] at count
        simp at count
        omega
  · rintro rfl
    rw [represents.head_eq]
    exact UInt64.add_zero _

theorem full_iff {data : Bytes} (fits : data.length ≤ capacity - 4) :
    UInt64.ofNat capacity - (buffer.head - buffer.tail) <
        entryHeaderBytes + UInt64.ofNat data.length ↔
      capacity < Fifo.used queue + (4 + data.length) := by
  have free := freeSpace_eq valid represents
  have inside := represents.fits
  rw [freeSpace, size] at free
  rw [UInt64.lt_iff_toNat_lt, need_toNat valid fits, free]
  omega

theorem write_fits {data : Bytes} (fits : Fifo.used queue + (4 + data.length) ≤ capacity) :
    ∃ next, buffer.write data = some (.ok (), next) ∧ Represents next (queue ++ [data]) ∧
      next.tail = buffer.tail ∧
      next.head = buffer.head + (entryHeaderBytes + UInt64.ofNat data.length) := by
  have small := valid.bound
  have large := valid.header
  have positive : 0 < capacity := by omega
  have length := used_flatMap queue
  have short : data.length ≤ capacity - 4 := by omega
  have header : (UInt32.ofNat data.length).toNat = data.length := by
    rw [UInt32.toNat_ofNat']
    exact Nat.mod_eq_of_lt (by omega)
  have headAt : index capacity buffer.head =
      (buffer.tail.toNat + (queue.flatMap record).length) % capacity := by
    rw [valid.index_eq, represents.head_eq, valid.advance, length]
  obtain ⟨middle, stored, laid⟩ := @Laid.store _ _ _ _ _ (leBytes 4 data.length) positive
    represents.laid (by rw [length, leBytes_length]; omega)
  have bodyAt : index capacity (buffer.head + entryHeaderBytes) =
      (buffer.tail.toNat + (queue.flatMap record ++ leBytes 4 data.length).length) % capacity := by
    rw [valid.index_eq, entryHeaderBytes, ← show UInt64.ofNat 4 = 4 from rfl, valid.advance,
      ← Nat.mod_add_mod, ← valid.index_eq, headAt, Nat.mod_add_mod, List.length_append,
      leBytes_length, Nat.add_assoc]
  obtain ⟨after, filled, whole⟩ := @Laid.store _ _ _ _ _ data positive laid
    (by rw [List.length_append, length, leBytes_length]; omega)
  rw [← headAt] at stored
  rw [← bodyAt] at filled
  refine ⟨{ storage := after, head := buffer.head + (entryHeaderBytes + UInt64.ofNat data.length),
            tail := buffer.tail }, ?_, ⟨?_, ?_, ?_⟩, rfl, rfl⟩
  · rw [write, if_neg (by rw [maxEntryBytes_eq valid]; omega)]
    simp only
    rw [if_neg (mt (full_iff valid represents short).mp (by omega)), header, writeAt_eq, stored]
    simp only
    rw [writeAt_eq, filled]
  · rw [used_concat]
    exact fits
  · simp only [represents.head_eq, used_concat, UInt64.ofNat_add, UInt64.add_assoc]
    rfl
  · rw [List.flatMap_append, List.flatMap_singleton, record, ← List.append_assoc]
    exact whole

theorem write_refines (data : Bytes) :
    ∃ next, buffer.write data = some ((Fifo.write capacity queue data).1, next) ∧
      Represents next (Fifo.write capacity queue data).2 ∧
      (∀ code, (Fifo.write capacity queue data).1 = .error code → next = buffer) := by
  have large := maxEntryBytes_eq valid
  rw [Fifo.write]
  by_cases tooLong : capacity - 4 < data.length
  · rw [if_pos tooLong]
    exact ⟨buffer, by rw [write, if_pos (by omega)], represents, fun _ _ => rfl⟩
  · rw [if_neg tooLong]
    by_cases full : capacity < Fifo.used queue + (4 + data.length)
    · rw [if_pos full]
      refine ⟨buffer, ?_, represents, fun _ _ => rfl⟩
      rw [write, if_neg (by omega)]
      exact if_pos ((full_iff valid represents (Nat.le_of_not_lt tooLong)).mpr full)
    · rw [if_neg full]
      obtain ⟨next, written, kept, -⟩ := write_fits valid represents (Nat.le_of_not_lt full)
      exact ⟨next, written, kept, nofun⟩

end Valid

section Front

variable (valid : ValidCapacity capacity) {buffer : RingBuffer capacity} {front : Bytes}
  {rest : List Bytes} (represents : Represents buffer (front :: rest))
include valid represents

theorem front_small : front.length < 2 ^ 32 := by
  have fits := represents.fits
  have small := valid.bound
  rw [used_cons] at fits
  omega

theorem load_part {before items behind : Bytes} (parts : record front = before ++ (items ++ behind)) :
    loadAround buffer.storage ((buffer.tail.toNat + before.length) % capacity) items.length =
      some items := by
  have fits := represents.fits
  have lies := represents.laid
  have positive : 0 < capacity := Nat.lt_of_lt_of_le (by decide) valid.header
  have length := congrArg List.length parts
  rw [used_cons] at fits
  rw [record_length, List.length_append, List.length_append] at length
  rw [List.flatMap_cons, parts, List.append_assoc, List.append_assoc] at lies
  exact lies.load positive (by omega)

theorem read_header : readAt buffer.storage buffer.tail 4 = some (leBytes 4 front.length) := by
  have loaded := @load_part _ valid _ _ _ represents [] (leBytes 4 front.length) front rfl
  rw [leBytes_length] at loaded
  rw [readAt_eq, valid.index_eq]
  exact loaded

theorem read_body :
    readAt buffer.storage (buffer.tail + entryHeaderBytes) front.length = some front := by
  have loaded := @load_part _ valid _ _ _ represents (leBytes 4 front.length) front []
    (by rw [List.append_nil, record])
  rw [leBytes_length, ← valid.advance, ← valid.index_eq] at loaded
  rw [readAt_eq]
  exact loaded

theorem represents_rest : Represents
    { buffer with tail := buffer.tail + entryHeaderBytes + UInt64.ofNat front.length } rest := by
  have fits := represents.fits
  have lies := represents.laid
  rw [used_cons] at fits
  rw [List.flatMap_cons] at lies
  refine ⟨by omega, ?_, lies.drop.turn ?_⟩
  · simp only [represents.head_eq, used_cons, UInt64.ofNat_add, UInt64.add_assoc]
    rfl
  · rw [record_length, UInt64.add_assoc, entryHeaderBytes, ← show UInt64.ofNat 4 = 4 from rfl,
      ← UInt64.ofNat_add, valid.advance]

theorem read_front {out : Bytes} (long : ¬ out.length < front.length) :
    buffer.read out = some (.ok front.length, front ++ out.drop front.length,
      { buffer with tail := buffer.tail + entryHeaderBytes + UInt64.ofNat front.length }) := by
  have apart : buffer.head ≠ buffer.tail := fun same =>
    nomatch (head_eq_tail valid represents).mp same
  rw [read, if_neg apart, read_header valid represents]
  simp only [leNat_leBytes 4 _ (front_small valid represents)]
  rw [if_neg long, read_body valid represents]

theorem read_short {out : Bytes} (short : out.length < front.length) :
    buffer.read out = some (.error .protocolTruncatedBuffer, out, buffer) := by
  have apart : buffer.head ≠ buffer.tail := fun same =>
    nomatch (head_eq_tail valid represents).mp same
  rw [read, if_neg apart, read_header valid represents]
  simp only [leNat_leBytes 4 _ (front_small valid represents)]
  rw [if_pos short]

end Front

section Valid

variable (valid : ValidCapacity capacity) {buffer : RingBuffer capacity} {queue : List Bytes}
  (represents : Represents buffer queue)
include valid represents

theorem read_refines (out : Bytes) :
    ∃ next, buffer.read out = some ((Fifo.read queue out).1, (Fifo.read queue out).2.1, next) ∧
      Represents next (Fifo.read queue out).2.2 ∧
      (∀ code, (Fifo.read queue out).1 = .error code →
        (Fifo.read queue out).2.1 = out ∧ next = buffer) := by
  have met := head_eq_tail valid represents
  cases queue with
  | nil =>
      refine ⟨buffer, ?_, represents, fun _ _ => ⟨rfl, rfl⟩⟩
      rw [read, if_pos (met.mpr rfl)]
      rfl
  | cons front rest =>
      rw [Fifo.read]
      by_cases short : out.length < front.length
      · rw [if_pos short]
        exact ⟨buffer, read_short valid represents short, represents, fun _ _ => ⟨rfl, rfl⟩⟩
      · rw [if_neg short]
        exact ⟨_, read_front valid represents short, represents_rest valid represents, nofun⟩

theorem peekSize_refines : buffer.peekSize = some (Fifo.peekSize queue) := by
  have met := head_eq_tail valid represents
  cases queue with
  | nil =>
      rw [peekSize, if_pos (met.mpr rfl)]
      rfl
  | cons front rest =>
      have apart : buffer.head ≠ buffer.tail := fun same => nomatch met.mp same
      rw [peekSize, if_neg apart, read_header valid represents]
      simp only
      rw [leNat_leBytes 4 _ (front_small valid represents)]
      rfl

theorem step_refines (op : BufferOp) :
    ∃ next, buffer.step op = some ((Fifo.step capacity queue op).1, next) ∧
      Represents next (Fifo.step capacity queue op).2 ∧
      ((Fifo.step capacity queue op).1.Failed → next = buffer) := by
  cases op with
  | write data =>
      obtain ⟨next, written, kept, unchanged⟩ := write_refines valid represents data
      refine ⟨next, ?_, kept, ?_⟩
      · rw [step, written]
        rfl
      · rw [Fifo.step]
        cases result : (Fifo.write capacity queue data).1 with
        | error code => exact fun _ => unchanged code result
        | ok done => exact False.elim
  | read out =>
      obtain ⟨next, filled, kept, unchanged⟩ := read_refines valid represents out
      refine ⟨next, ?_, kept, ?_⟩
      · rw [step, filled]
        rfl
      · rw [Fifo.step]
        cases result : (Fifo.read queue out).1 with
        | error code => exact fun _ => (unchanged code result).2
        | ok count => exact False.elim
  | peekSize =>
      refine ⟨buffer, ?_, represents, fun _ => rfl⟩
      rw [step, peekSize_refines valid represents]
      rfl
  | size =>
      refine ⟨buffer, ?_, represents, fun _ => rfl⟩
      rw [step, size_eq represents, toNat_used valid represents]
      rfl
  | freeSpace =>
      refine ⟨buffer, ?_, represents, fun _ => rfl⟩
      rw [step, freeSpace_eq valid represents]
      rfl

end Valid

theorem exec_refines (valid : ValidCapacity capacity) {buffer : RingBuffer capacity}
    {queue : List Bytes} (represents : Represents buffer queue) (ops : List BufferOp) :
    ∃ events final, buffer.exec ops = some (events, final) ∧
      events.map Event.reply = Fifo.replies capacity queue ops ∧
      ∀ event ∈ events, event.reply.Failed → event.after = event.before := by
  induction ops generalizing buffer queue with
  | nil => exact ⟨[], buffer, rfl, rfl, by simp⟩
  | cons op rest ih =>
      obtain ⟨next, stepped, kept, unchanged⟩ := step_refines valid represents op
      obtain ⟨events, final, ran, replies, failures⟩ := ih kept
      refine ⟨⟨buffer, op, (Fifo.step capacity queue op).1, next⟩ :: events, final, ?_, ?_, ?_⟩
      · rw [exec, stepped]
        simp only [ran]
      · rw [List.map_cons, replies]
        rfl
      · intro event member failed
        rcases List.mem_cons.mp member with rfl | later
        · exact unchanged failed
        · exact failures event later failed

/-- For every sequence of calls, a ring buffer answers as the bounded queue does, never leaves its
storage, and is left alone by each call that fails. -/
theorem ringBuffer_refines_fifo (valid : ValidCapacity capacity) (ops : List BufferOp) :
    ∃ events final, ({} : RingBuffer capacity).exec ops = some (events, final) ∧
      events.map Event.reply = Fifo.replies capacity [] ops ∧
      ∀ event ∈ events, event.reply.Failed → event.after = event.before :=
  exec_refines valid represents_new ops

def aroundOps : List BufferOp :=
  [.write [1], .read [0, 0], .write [2, 3], .write [4], .size, .peekSize, .read [0], .read [0, 0, 0],
    .freeSpace, .write [5, 6, 7, 8, 9]]

theorem ringBuffer_refines_fifo_around :
    ∃ events final, ({} : RingBuffer 8).exec aroundOps = some (events, final) ∧
      events.map Event.reply =
        [.wrote (.ok ()), .got (.ok 1) [1, 0], .wrote (.ok ()), .wrote (.error .resMemoryExhausted),
          .counted 6, .peeked (.ok 2), .got (.error .protocolTruncatedBuffer) [0],
          .got (.ok 2) [2, 3, 0], .counted 8, .wrote (.error .protocolPayloadTooLarge)] := by
  obtain ⟨events, final, ran, replies, -⟩ :=
    ringBuffer_refines_fifo ⟨⟨3, rfl⟩, by decide, by decide⟩ aroundOps
  exact ⟨events, final, ran, replies⟩

end RingBuffer

end Udaf
