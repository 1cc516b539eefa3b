import Udaf.Core.RingBufferFifo
import Udaf.Core.RingBufferSpsc

/-!
One producer and one consumer on a `RingBuffer`. Whatever a thread has loaded of the
other's counter only lets it do less than it could: the producer stays behind the
records that are published and not yet received, the consumer in front of what is
published.
-/

namespace Udaf

open ByteString Ring Runs

namespace Spsc

variable {capacity : Nat}

section Positions

variable (valid : ValidCapacity capacity)
include valid

theorem copyCell_eq {pos : UInt64} {size place : Nat} (fits : size ≤ capacity)
    (inside : place < size) :
    copyCell capacity pos size place = (pos.toNat + place) % capacity := by
  have large := valid.header
  rw [@position capacity pos.toNat place (by omega) (by omega), copyCell, valid.index_eq]
  have low := Nat.mod_lt pos.toNat (show 0 < capacity by omega)
  split <;> split <;> omega

theorem writtenCell_eq {h : UInt64} {data : Bytes} {place : Nat}
    (fits : data.length ≤ capacity - 4) (inside : place < 4 + data.length) :
    writtenCell capacity h data place = (h.toNat + place) % capacity := by
  have large := valid.header
  rw [writtenCell]
  by_cases header : place < 4
  · rw [if_pos header]
    exact copyCell_eq valid large header
  · rw [if_neg header, copyCell_eq valid (by omega) (by omega), Nat.add_mod,
      show entryHeaderBytes = UInt64.ofNat 4 from rfl, valid.advance, ← Nat.add_mod]
    congr 1
    omega

theorem ofNat_mod (count : Nat) : (UInt64.ofNat count).toNat % capacity = count % capacity := by
  rw [UInt64.toNat_ofNat', Nat.mod_mod_of_dvd _ valid.divides]

theorem writtenBytes_eq {data : Bytes} (fits : data.length ≤ capacity - 4) :
    writtenBytes data = record data := by
  have large := valid.header
  have small := valid.bound
  rw [writtenBytes, record, UInt32.toNat_ofNat', Nat.mod_eq_of_lt (by omega)]

end Positions

def Producer.copied : Producer → Bytes
  | .copying data _ done => (record data).take done
  | _ => []

def numbered (data : Bytes) : List (UInt8 × Nat) := (record data).zipIdx

def Producer.numbered : Producer → List (UInt8 × Nat)
  | .copying data _ done => (Spsc.numbered data).take done
  | _ => []

def Producer.reserved : Producer → Nat
  | .copying data _ _ => 4 + data.length
  | _ => 0

def Producer.Holds (capacity : Nat) (head : UInt64) : Producer → Prop
  | .idle => True
  | .loadedHead data h => h = head ∧ data.length ≤ capacity - 4
  | .copying data h done => h = head ∧ data.length ≤ capacity - 4 ∧ done ≤ 4 + data.length

def Consumer.Holds (tail : UInt64) (queue : List Bytes) : Consumer → Prop
  | .idle => True
  | .loadedTail _ t => t = tail
  | .header _ t got => t = tail ∧ got.length ≤ 4 ∧ ∃ front rest, queue = front :: rest ∧
      got = (record front).take got.length
  | .copying out t len got => t = tail ∧ len ≤ out.length ∧ got.length ≤ len ∧
      ∃ front rest, queue = front :: rest ∧ len = front.length ∧ got = front.take got.length

structure Holds (past : List Event) (queue : List Bytes) (system : System capacity) : Prop where
  fifo : accepted past = received past ++ queue
  head : system.buffer.head = UInt64.ofNat (Fifo.used (accepted past))
  tail : system.buffer.tail = UInt64.ofNat (Fifo.used (received past))
  room : Fifo.used queue + system.producer.reserved ≤ capacity
  laid : Laid system.buffer.storage (Fifo.used (received past))
    (queue.flatMap record ++ system.producer.copied)
  written : written past = ((accepted past).flatMap numbered ++ system.producer.numbered).mapIdx
    fun position item => (position % capacity, item)
  producer : system.producer.Holds capacity system.buffer.head
  consumer : system.consumer.Holds system.buffer.tail queue

theorem initial_holds : Holds [] [] ({} : System capacity) where
  fifo := rfl
  head := rfl
  tail := rfl
  room := Nat.zero_le _
  laid := laid_nil _ _
  written := rfl
  producer := trivial
  consumer := trivial

variable {past : List Event} {queue : List Bytes} {system : System capacity}

theorem Consumer.Holds.grow {consumer : Consumer} {tail : UInt64}
    (holds : consumer.Holds tail queue) (data : Bytes) : consumer.Holds tail (queue ++ [data]) := by
  cases consumer with
  | idle => trivial
  | loadedTail call t => exact holds
  | header call t got =>
      obtain ⟨same, short, front, rest, shape, copied⟩ := holds
      exact ⟨same, short, front, rest ++ [data], by rw [shape]; rfl, copied⟩
  | copying out t len got =>
      obtain ⟨same, room, short, front, rest, shape, copied⟩ := holds
      exact ⟨same, room, short, front, rest ++ [data], by rw [shape]; rfl, copied⟩

theorem Holds.accepted_used (holds : Holds past queue system) :
    Fifo.used (accepted past) = Fifo.used (received past) + Fifo.used queue := by
  rw [holds.fifo, used_append]

theorem Holds.represents (valid : ValidCapacity capacity) (holds : Holds past queue system) :
    RingBuffer.Represents system.buffer queue where
  fits := by
    have room := holds.room
    omega
  head_eq := by
    rw [holds.head, holds.tail, holds.accepted_used, UInt64.ofNat_add]
  laid := by
    refine holds.laid.take.turn ?_
    rw [holds.tail, ofNat_mod valid]

theorem Holds.silent (holds : Holds past queue system) {event : Event}
    (accepts : accepted [event] = []) (receives : received [event] = [])
    (stores : Spsc.written [event] = []) : Holds (past ++ [event]) queue system := by
  have same : accepted (past ++ [event]) = accepted past := by
    rw [accepted_append, accepts, List.append_nil]
  have kept : received (past ++ [event]) = received past := by
    rw [received_append, receives, List.append_nil]
  refine ⟨?_, ?_, ?_, holds.room, ?_, ?_, holds.producer, holds.consumer⟩
  · rw [same, kept]
    exact holds.fifo
  · rw [same]
    exact holds.head
  · rw [kept]
    exact holds.tail
  · rw [kept]
    exact holds.laid
  · rw [same, written_append, stores, List.append_nil]
    exact holds.written

theorem Holds.producing (holds : Holds past queue system) {producer : Producer}
    (clean : producer.copied = []) (before : system.producer.numbered = [])
    (after : producer.numbered = []) (room : Fifo.used queue + producer.reserved ≤ capacity)
    (kept : producer.Holds capacity system.buffer.head) :
    Holds past queue { system with producer := producer } := by
  refine ⟨holds.fifo, holds.head, holds.tail, room, ?_, ?_, kept, holds.consumer⟩
  · rw [clean, List.append_nil]
    exact holds.laid.take
  · have written := holds.written
    rw [before] at written
    rw [after]
    exact written

theorem Holds.consuming (holds : Holds past queue system) {consumer : Consumer}
    (kept : consumer.Holds system.buffer.tail queue) :
    Holds past queue { system with consumer := consumer } :=
  ⟨holds.fifo, holds.head, holds.tail, holds.room, holds.laid, holds.written, holds.producer, kept⟩

theorem numbered_at {data : Bytes} {place : Nat} {byte : UInt8}
    (inside : (record data)[place]? = some byte) : (numbered data)[place]? = some (byte, place) := by
  rw [numbered, List.getElem?_zipIdx, inside]
  exact congrArg (fun at' => some (byte, at')) (Nat.zero_add place)

theorem numbered_used (queue : List Bytes) :
    (queue.flatMap numbered).length = Fifo.used queue := by
  simp [Fifo.used, List.length_flatMap, numbered]

theorem numbered_length {queue : List Bytes} {data : Bytes} {done : Nat}
    (bound : done < 4 + data.length) :
    (queue.flatMap numbered ++ (numbered data).take done).length = Fifo.used queue + done := by
  have whole : (numbered data).length = 4 + data.length := by simp [numbered]
  rw [List.length_append, numbered_used, List.length_take]
  omega

section Producing

variable (valid : ValidCapacity capacity) (holds : Holds past queue system)
include valid holds

theorem store_holds {data : Bytes} {h : UInt64} {done : Nat} {byte : UInt8}
    (producer : system.producer = .copying data h done) (inside : (record data)[done]? = some byte) :
    Holds (past ++ [.stored done (writtenCell capacity h data done) byte]) queue { system with
      buffer := { system.buffer with
        storage := put system.buffer.storage (writtenCell capacity h data done) byte }
      producer := .copying data h (done + 1) } := by
  have state := holds.producer
  have room := holds.room
  have laid := holds.laid
  have written := holds.written
  rw [producer] at state room laid written
  obtain ⟨rfl, fits, -⟩ := state
  rw [Producer.reserved] at room
  rw [Producer.copied] at laid
  have bound := (List.getElem?_eq_some_iff.mp inside).1
  rw [record_length] at bound
  have length : (queue.flatMap record ++ (record data).take done).length =
      Fifo.used queue + done := by
    rw [List.length_append, used_flatMap, List.length_take, record_length]
    omega
  have behind := laid.put byte (by omega)
  have cell : writtenCell capacity system.buffer.head data done =
      (Fifo.used (accepted past) + done) % capacity := by
    rw [writtenCell_eq valid fits bound, holds.head, Nat.add_mod, ofNat_mod valid, ← Nat.add_mod]
  have same : accepted (past ++ [.stored done (writtenCell capacity system.buffer.head data done) byte]) =
      accepted past := by
    rw [accepted_append]
    exact List.append_nil _
  have kept : received (past ++ [.stored done (writtenCell capacity system.buffer.head data done) byte]) =
      received past := by
    rw [received_append]
    exact List.append_nil _
  refine ⟨?_, ?_, ?_, room, ?_, ?_, ⟨rfl, fits, bound⟩, holds.consumer⟩
  · rw [same, kept]
    exact holds.fifo
  · rw [same]
    exact holds.head
  · rw [kept]
    exact holds.tail
  · rw [kept, cell, Producer.copied, List.take_add_one, inside, ← List.append_assoc,
      holds.accepted_used, Nat.add_assoc, ← length]
    exact behind
  · rw [same, written_append, written]
    simp only [Producer.numbered]
    rw [List.take_add_one, numbered_at inside, ← List.append_assoc, Option.toList_some,
      List.mapIdx_concat, cell, numbered_length bound]
    rfl

omit valid in
theorem accept_holds {data : Bytes} {h : UInt64} {done : Nat}
    (producer : system.producer = .copying data h done) (all : (record data)[done]? = none) :
    Holds (past ++ [.accepted data]) (queue ++ [data]) { system with
      buffer := { system.buffer with head := h + (entryHeaderBytes + UInt64.ofNat data.length) }
      producer := .idle } := by
  have state := holds.producer
  have room := holds.room
  have laid := holds.laid
  rw [producer] at state room laid
  obtain ⟨rfl, fits, -⟩ := state
  rw [Producer.reserved] at room
  have whole := List.getElem?_eq_none_iff.mp all
  rw [Producer.copied, List.take_of_length_le whole] at laid
  have more : accepted (past ++ [.accepted data]) = accepted past ++ [data] := accepted_append _ _
  have kept : received (past ++ [.accepted data]) = received past := by
    rw [received_append]
    exact List.append_nil _
  refine ⟨?_, ?_, ?_, ?_, ?_, ?_, trivial, holds.consumer.grow data⟩
  · rw [more, kept, holds.fifo, List.append_assoc]
  · rw [more, used_concat, UInt64.ofNat_add, ← holds.head, UInt64.ofNat_add]
    rfl
  · rw [kept]
    exact holds.tail
  · rw [used_concat]
    exact room
  · rw [kept, List.flatMap_append, List.flatMap_singleton]
    simpa only [Producer.copied, List.append_nil] using laid
  · have written := holds.written
    rw [producer, Producer.numbered, List.take_of_length_le (by simpa [numbered] using whole)] at written
    rw [more, written_append, written, List.flatMap_append, List.flatMap_singleton]
    simp only [Producer.numbered, List.append_nil]
    exact List.append_nil _

theorem produce_holds (data : Bytes) :
    ∃ queue, Holds (past ++ [(system.produce data).1]) queue (system.produce data).2 := by
  have large := RingBuffer.maxEntryBytes_eq valid
  cases producer : system.producer with
  | idle =>
      simp only [System.produce, producer]
      split
      · exact ⟨queue, holds.silent rfl rfl rfl⟩
      · rename_i fits
        have room := (holds.represents valid).fits
        exact ⟨queue, (holds.silent rfl rfl rfl).producing rfl (by rw [producer]; rfl) rfl room
          ⟨rfl, by omega⟩⟩
  | loadedHead data h =>
      have state := holds.producer
      rw [producer] at state
      obtain ⟨rfl, fits⟩ := state
      simp only [System.produce, producer]
      split
      · have room := (holds.represents valid).fits
        exact ⟨queue, (holds.silent rfl rfl rfl).producing rfl (by rw [producer]; rfl) rfl room
          trivial⟩
      · rename_i space
        have room := mt (RingBuffer.full_iff valid (holds.represents valid) fits).mpr space
        refine ⟨queue, (holds.silent rfl rfl rfl).producing rfl (by rw [producer]; rfl) rfl ?_
          ⟨rfl, fits, Nat.zero_le _⟩⟩
        rw [Producer.reserved]
        omega
  | copying data h done =>
      have state := holds.producer
      rw [producer] at state
      simp only [System.produce, producer, writtenBytes_eq valid state.2.1]
      cases inside : (record data)[done]? with
      | some byte => exact ⟨queue, store_holds valid holds producer inside⟩
      | none => exact ⟨queue ++ [data], accept_holds holds producer inside⟩

end Producing

section Consuming

variable (valid : ValidCapacity capacity) (holds : Holds past queue system)
include valid holds

omit valid in
theorem front_cell {front : Bytes} {rest : List Bytes} (shape : queue = front :: rest) {place : Nat}
    {byte : UInt8} (inside : (record front)[place]? = some byte) :
    system.buffer.storage.bytes[(Fifo.used (received past) + place) % capacity]? = some byte := by
  have bound := (List.getElem?_eq_some_iff.mp inside).1
  have laid := holds.laid.take
  rw [shape, List.flatMap_cons] at laid
  rw [laid place (by rw [List.length_append]; omega), List.getElem?_append_left bound, inside]

theorem front_fits {front : Bytes} {rest : List Bytes} (shape : queue = front :: rest) :
    4 + front.length ≤ capacity ∧ front.length < 256 ^ 4 := by
  have room := (holds.represents valid).fits
  have small := valid.bound
  rw [shape, used_cons] at room
  omega

theorem header_byte {t : UInt64} {front got : Bytes} {rest : List Bytes} (same : t = system.buffer.tail)
    (shape : queue = front :: rest) (short : got.length < 4) :
    ∃ byte, (record front)[got.length]? = some byte ∧
      copyCell capacity t 4 got.length = (Fifo.used (received past) + got.length) % capacity ∧
      system.buffer.storage.bytes.getD (copyCell capacity t 4 got.length) 0 = byte := by
  have large := valid.header
  have cell : copyCell capacity t 4 got.length =
      (Fifo.used (received past) + got.length) % capacity := by
    rw [copyCell_eq valid large short, same, holds.tail, Nat.add_mod, ofNat_mod valid,
      ← Nat.add_mod]
  have inside : got.length < (record front).length := by
    rw [record_length]
    omega
  refine ⟨_, List.getElem?_eq_getElem inside, cell, ?_⟩
  rw [cell, List.getD_eq_getElem?_getD,
    front_cell holds shape (List.getElem?_eq_getElem inside)]
  rfl

theorem data_byte {t : UInt64} {front got : Bytes} {rest : List Bytes}
    (same : t = system.buffer.tail) (shape : queue = front :: rest)
    (short : got.length < front.length) :
    ∃ byte, front[got.length]? = some byte ∧
      copyCell capacity (t + entryHeaderBytes) front.length got.length =
        (Fifo.used (received past) + (4 + got.length)) % capacity ∧
      system.buffer.storage.bytes.getD
        (copyCell capacity (t + entryHeaderBytes) front.length got.length) 0 = byte := by
  obtain ⟨fits, -⟩ := front_fits valid holds shape
  have cell : copyCell capacity (t + entryHeaderBytes) front.length got.length =
      (Fifo.used (received past) + (4 + got.length)) % capacity := by
    rw [copyCell_eq valid (by omega) short, same, holds.tail, Nat.add_mod,
      show entryHeaderBytes = UInt64.ofNat 4 from rfl, valid.advance, ← Nat.add_mod, Nat.add_assoc,
      Nat.add_mod, ofNat_mod valid, ← Nat.add_mod]
  have inside : (record front)[4 + got.length]? = some (front[got.length]) := by
    rw [record, List.getElem?_append_right (by simp), leBytes_length, Nat.add_sub_cancel_left,
      List.getElem?_eq_getElem short]
  refine ⟨_, List.getElem?_eq_getElem short, cell, ?_⟩
  rw [cell, List.getD_eq_getElem?_getD, front_cell holds shape inside]
  rfl

theorem header_length {front : Bytes} {rest : List Bytes} (shape : queue = front :: rest) :
    leNat ((record front).take 4) = front.length := by
  rw [record, List.take_append_of_le_length (by simp), List.take_of_length_le (by simp)]
  exact leNat_leBytes 4 _ (front_fits valid holds shape).2

omit valid in
theorem receive_holds {out : Bytes} {t : UInt64} {front : Bytes} {rest : List Bytes}
    (same : t = system.buffer.tail) (shape : queue = front :: rest) :
    Holds (past ++ [.received front.length (front ++ out.drop front.length)]) rest { system with
      buffer := { system.buffer with
        tail := t + entryHeaderBytes + UInt64.ofNat front.length }
      consumer := .idle } := by
  have kept : accepted (past ++ [.received front.length (front ++ out.drop front.length)]) =
      accepted past := by
    rw [accepted_append]
    exact List.append_nil _
  have more : received (past ++ [.received front.length (front ++ out.drop front.length)]) =
      received past ++ [front] := by
    rw [received_append]
    exact congrArg (fun data => received past ++ [data]) (List.take_left' rfl)
  have room := holds.room
  rw [shape, used_cons] at room
  have less : Fifo.used rest + system.producer.reserved ≤ capacity := by omega
  refine ⟨?_, ?_, ?_, less, ?_, ?_, holds.producer, trivial⟩
  · rw [kept, more, holds.fifo, shape, List.append_assoc]
    rfl
  · rw [kept]
    exact holds.head
  · rw [more, used_concat, same, holds.tail, UInt64.ofNat_add, UInt64.ofNat_add,
      UInt64.add_assoc]
    rfl
  · have laid := holds.laid
    rw [shape, List.flatMap_cons, List.append_assoc] at laid
    rw [more, used_concat, ← record_length]
    exact laid.drop
  · rw [kept, written_append]
    exact (List.append_nil _).trans holds.written

theorem consume_holds (call : ReadCall) :
    ∃ queue, Holds (past ++ [(system.consume call).1]) queue (system.consume call).2 := by
  have state := holds.consumer
  cases consumer : system.consumer with
  | idle =>
      simp only [System.consume, consumer]
      exact ⟨queue, (holds.silent rfl rfl rfl).consuming rfl⟩
  | loadedTail call t =>
      rw [consumer] at state
      simp only [System.consume, consumer]
      split
      · exact ⟨queue, (holds.silent rfl rfl rfl).consuming trivial⟩
      · rename_i different
        rw [show t = system.buffer.tail from state] at different
        cases shape : queue with
        | nil =>
            have empty := (RingBuffer.head_eq_tail valid (holds.represents valid)).mpr shape
            exact absurd empty different
        | cons front rest =>
            rw [shape] at holds
            exact ⟨_, (holds.silent rfl rfl rfl).consuming
              ⟨state, Nat.zero_le _, front, rest, rfl, List.take_zero.symm⟩⟩
  | header call t got =>
      rw [consumer] at state
      obtain ⟨same, short, front, rest, shape, copied⟩ := state
      simp only [System.consume, consumer]
      by_cases more : got.length < 4
      · obtain ⟨byte, inside, -, fetched⟩ := header_byte valid holds same shape more
        rw [if_pos more, fetched]
        refine ⟨queue, (holds.silent rfl rfl rfl).consuming ⟨same, ?_, front, rest, shape, ?_⟩⟩
        · rw [List.length_append, List.length_singleton]
          exact more
        · rw [List.length_append, List.length_singleton, List.take_add_one, inside, ← copied]
          rfl
      · have four : got.length = 4 := by omega
        have len : leNat got = front.length := by
          rw [copied, four]
          exact header_length valid holds shape
        rw [if_neg more, len]
        cases call with
        | peekSize => exact ⟨queue, (holds.silent rfl rfl rfl).consuming trivial⟩
        | read out =>
            simp only
            split
            · exact ⟨queue, (holds.silent rfl rfl rfl).consuming trivial⟩
            · rename_i long
              exact ⟨queue, (holds.silent rfl rfl rfl).consuming ⟨same, Nat.le_of_not_lt long,
                Nat.zero_le _, front, rest, shape, rfl, List.take_zero.symm⟩⟩
  | copying out t len got =>
      rw [consumer] at state
      obtain ⟨same, long, short, front, rest, shape, rfl, copied⟩ := state
      simp only [System.consume, consumer]
      by_cases more : got.length < front.length
      · obtain ⟨byte, inside, -, fetched⟩ := data_byte valid holds same shape more
        rw [if_pos more, fetched]
        refine ⟨queue, (holds.silent rfl rfl rfl).consuming
          ⟨same, long, ?_, front, rest, shape, rfl, ?_⟩⟩
        · rw [List.length_append, List.length_singleton]
          exact more
        · rw [List.length_append, List.length_singleton, List.take_add_one, inside, ← copied]
          rfl
      · have whole : got = front := by
          rw [copied]
          exact List.take_of_length_le (by omega)
        rw [if_neg more, whole]
        exact ⟨rest, receive_holds holds same shape⟩

end Consuming

theorem step_holds (valid : ValidCapacity capacity) {next : System capacity} {event : Event}
    (step : Step system event next) (holds : ∃ queue, Holds past queue system) :
    ∃ queue, Holds (past ++ [event]) queue next := by
  obtain ⟨queue, holds⟩ := holds
  cases step with
  | produce data => exact produce_holds valid holds data
  | consume call => exact consume_holds valid holds call

theorem run_holds (valid : ValidCapacity capacity) {events : List Event} {final : System capacity}
    (run : Run Step ({} : System capacity) events final) : ∃ queue, Holds events queue final :=
  @Run.history _ _ _ (fun past system => ∃ queue, Holds past queue system) (step_holds valid) []
    _ _ _ run ⟨[], initial_holds⟩

theorem Step.made {next : System capacity} {event : Event} (step : Step system event next) :
    (∃ data, (system.produce data).1 = event) ∨ ∃ call, (system.consume call).1 = event := by
  cases step with
  | produce data => exact .inl ⟨data, rfl⟩
  | consume call => exact .inr ⟨call, rfl⟩

theorem produce_fetches {data : Bytes} {place cell : Nat} {byte : UInt8} :
    (system.produce data).1 ≠ .fetched place cell byte := by
  intro made
  unfold System.produce at made
  split at made
  · split at made <;> cases made
  · simp only at made
    split at made <;> cases made
  · split at made <;> cases made

theorem consume_stores {call : ReadCall} {place cell : Nat} {byte : UInt8} :
    (system.consume call).1 ≠ .stored place cell byte := by
  intro made
  unfold System.consume at made
  split at made
  · cases made
  · split at made <;> cases made
  · split at made
    · cases made
    · simp only at made
      split at made
      · cases made
      · split at made <;> cases made
  · split at made <;> cases made

section Copies

variable {place cell : Nat} {byte : UInt8} (valid : ValidCapacity capacity)
  (holds : Holds past queue system)
include valid holds

theorem stored_position {next : System capacity} (step : Step system (.stored place cell byte) next) :
    (written past).length = Fifo.used (accepted past) + place ∧
      cell = (written past).length % capacity ∧
      (written past).length < Fifo.used (received past) + capacity := by
  have length := congrArg List.length holds.written
  have used := holds.accepted_used
  have room := holds.room
  rw [List.length_mapIdx] at length
  obtain ⟨data, made⟩ | ⟨call, made⟩ := step.made
  · cases producer : system.producer with
    | idle =>
        simp only [System.produce, producer] at made
        split at made <;> cases made
    | loadedHead data h =>
        simp only [System.produce, producer] at made
        split at made <;> cases made
    | copying data h done =>
        have state := holds.producer
        rw [producer] at state room length
        obtain ⟨rfl, fits, -⟩ := state
        simp only [System.produce, producer, writtenBytes_eq valid fits] at made
        cases inside : (record data)[done]? with
        | none =>
            rw [inside] at made
            cases made
        | some byte =>
            rw [inside] at made
            cases made
            have bound := (List.getElem?_eq_some_iff.mp inside).1
            rw [record_length] at bound
            rw [Producer.reserved] at room
            rw [Producer.numbered, numbered_length bound] at length
            rw [length, writtenCell_eq valid fits bound, holds.head, Nat.add_mod, ofNat_mod valid,
              ← Nat.add_mod]
            exact ⟨rfl, rfl, by omega⟩
  · exact absurd made consume_stores

theorem fetched_position {next : System capacity}
    (step : Step system (.fetched place cell byte) next) :
    ∃ front rest, queue = front :: rest ∧ (record front)[place]? = some byte ∧
      cell = (Fifo.used (received past) + place) % capacity := by
  have state := holds.consumer
  obtain ⟨data, made⟩ | ⟨call, made⟩ := step.made
  · exact absurd made produce_fetches
  · cases consumer : system.consumer with
    | idle =>
        simp only [System.consume, consumer] at made
        cases made
    | loadedTail call t =>
        simp only [System.consume, consumer] at made
        split at made <;> cases made
    | header call t got =>
        rw [consumer] at state
        obtain ⟨same, short, front, rest, shape, -⟩ := state
        simp only [System.consume, consumer] at made
        split at made
        · rename_i more
          cases made
          obtain ⟨byte, inside, cell, fetched⟩ := header_byte valid holds same shape more
          exact ⟨front, rest, shape, by rw [fetched]; exact inside, cell⟩
        · cases call with
          | peekSize => cases made
          | read out =>
              simp only at made
              split at made <;> cases made
    | copying out t len got =>
        rw [consumer] at state
        obtain ⟨same, -, short, front, rest, shape, rfl, -⟩ := state
        simp only [System.consume, consumer] at made
        split at made
        · rename_i more
          cases made
          obtain ⟨byte, inside, cell, fetched⟩ := data_byte valid holds same shape more
          refine ⟨front, rest, shape, ?_, cell⟩
          rw [fetched, record, List.getElem?_append_right (by simp), leBytes_length,
            Nat.add_sub_cancel_left, inside]
        · cases made

omit valid in
theorem written_at {front : Bytes} {rest : List Bytes} (shape : queue = front :: rest)
    (inside : (record front)[place]? = some byte) :
    (written past)[Fifo.used (received past) + place]? =
      some ((Fifo.used (received past) + place) % capacity, byte, place) := by
  have numbered := numbered_at inside
  have bound := (List.getElem?_eq_some_iff.mp numbered).1
  rw [holds.written, holds.fifo, shape, List.flatMap_append, List.flatMap_cons, List.getElem?_mapIdx,
    List.append_assoc, List.getElem?_append_right (by rw [numbered_used]; omega), numbered_used,
    Nat.add_sub_cancel_left, List.append_assoc, List.getElem?_append_left bound, numbered]
  rfl

end Copies

theorem written_split {events : List Event} {position place cell : Nat} {byte : UInt8}
    (at' : (written events)[position]? = some (cell, byte, place)) :
    ∃ front back, events = front ++ .stored place cell byte :: back ∧
      (written front).length = position := by
  obtain ⟨inside, item⟩ := List.getElem?_eq_some_iff.mp at'
  have cut : written events = (written events).take position ++
      ((cell, byte, place) :: (written events).drop (position + 1)) := by
    rw [← item, ← List.drop_eq_getElem_cons inside, List.take_append_drop]
  obtain ⟨front, rest, shape, before, after⟩ := List.filterMap_eq_append_iff.mp cut
  obtain ⟨silent, event, back, shape', none, stored, -⟩ := List.filterMap_eq_cons_iff.mp after
  cases event with
  | stored place cell byte =>
      cases stored
      refine ⟨front ++ silent, back, by rw [shape, shape', List.append_assoc], ?_⟩
      have quiet : written silent = [] := List.filterMap_eq_nil_iff.mpr none
      rw [written_append, quiet, List.append_nil, written, before, List.length_take]
      omega
  | _ => cases stored

theorem used_before {front back whole : List Bytes} (first : front <+: whole) (second : back <+: whole)
    (shorter : Fifo.used front < Fifo.used back) : front.length < back.length := by
  by_contra longer
  obtain ⟨rest, rfl⟩ := List.prefix_of_prefix_length_le second first (by omega)
  rw [used_append] at shorter
  omega

theorem used_same {front back whole : List Bytes} (first : front <+: whole) (second : back <+: whole)
    (same : Fifo.used front = Fifo.used back) : front.length = back.length := by
  rcases Nat.lt_trichotomy front.length back.length with less | equal | more
  · obtain ⟨rest, rfl⟩ := List.prefix_of_prefix_length_le first second (by omega)
    cases rest with
    | nil => simp
    | cons data rest =>
        rw [used_append, used_cons] at same
        omega
  · exact equal
  · obtain ⟨rest, rfl⟩ := List.prefix_of_prefix_length_le second first (by omega)
    cases rest with
    | nil => simp
    | cons data rest =>
        rw [used_append, used_cons] at same
        omega

/-- What holds of a run: the records arrive in order; a byte is copied out of a cell only after it was
copied into it, as that byte of that record; a cell is copied into again only after the record whose
byte it held was received. -/
structure Safe (capacity : Nat) (events : List Event) : Prop where
  fifo : received events <+: accepted events
  fetched : ∀ past rest place cell byte, events = past ++ .fetched place cell byte :: rest →
    cell < capacity ∧ ∃ front back, past = front ++ .stored place cell byte :: back ∧
      (accepted front).length = (received past).length
  stored : ∀ past rest place cell byte, events = past ++ .stored place cell byte :: rest →
    cell < capacity ∧ ∀ front back place' byte', past = front ++ .stored place' cell byte' :: back →
      (accepted front).length < (received past).length

section Runs

variable {events : List Event} {final : System capacity} (valid : ValidCapacity capacity)
include valid

theorem fetched_after_stored {past rest : List Event} {place cell : Nat} {byte : UInt8}
    (run : Run Step ({} : System capacity) (past ++ .fetched place cell byte :: rest) final) :
    cell < capacity ∧ ∃ front back, past = front ++ .stored place cell byte :: back ∧
      (accepted front).length = (received past).length := by
  have large := valid.header
  obtain ⟨middle, next, before, step⟩ := run.before
  obtain ⟨queue, holds⟩ := run_holds valid before
  obtain ⟨data, records, shape, inside, here⟩ := fetched_position valid holds step
  refine ⟨here ▸ Nat.mod_lt _ (by omega), ?_⟩
  have copied := written_at holds shape inside
  rw [← here] at copied
  obtain ⟨front, back, rfl, position⟩ := written_split copied
  refine ⟨front, back, rfl, ?_⟩
  obtain ⟨earlier, later, first, store⟩ := before.before
  obtain ⟨queue', holds'⟩ := run_holds valid first
  obtain ⟨length, -, -⟩ := stored_position valid holds' store
  refine @used_same _ _ (accepted (front ++ .stored place cell byte :: back)) ?_ ?_ (by omega)
  · rw [accepted_append]
    exact List.prefix_append _ _
  · rw [holds.fifo]
    exact List.prefix_append _ _

theorem stored_after_received {front back rest : List Event} {place place' cell : Nat}
    {byte byte' : UInt8} (run : Run Step ({} : System capacity)
      ((front ++ .stored place' cell byte' :: back) ++ .stored place cell byte :: rest) final) :
    (accepted front).length < (received (front ++ .stored place' cell byte' :: back)).length := by
  obtain ⟨middle, next, before, step⟩ := run.before
  obtain ⟨queue, holds⟩ := run_holds valid before
  obtain ⟨-, here, near⟩ := stored_position valid holds step
  obtain ⟨earlier, later, first, store⟩ := before.before
  obtain ⟨queue', holds'⟩ := run_holds valid first
  obtain ⟨length, there, -⟩ := stored_position valid holds' store
  refine @used_before _ _ (accepted (front ++ .stored place' cell byte' :: back)) ?_ ?_ ?_
  · rw [accepted_append]
    exact List.prefix_append _ _
  · rw [holds.fifo]
    exact List.prefix_append _ _
  · by_contra behind
    have grown : (written front).length <
        (written (front ++ .stored place' cell byte' :: back)).length := by
      rw [written_append, List.length_append]
      exact Nat.lt_add_of_pos_right (Nat.zero_lt_succ _)
    exact place_apart grown (by omega) (there.symm.trans here)

end Runs

/-- In every interleaving of one producer and one consumer, down to the single bytes. -/
theorem spsc_safe (valid : ValidCapacity capacity) {events : List Event} {final : System capacity}
    (run : Run Step ({} : System capacity) events final) : Safe capacity events where
  fifo := by
    obtain ⟨queue, holds⟩ := run_holds valid run
    rw [holds.fifo]
    exact List.prefix_append _ _
  fetched := by
    rintro past rest place cell byte rfl
    exact fetched_after_stored valid run
  stored := by
    rintro past rest place cell byte rfl
    have large := valid.header
    obtain ⟨middle, next, before, step⟩ := run.before
    obtain ⟨queue, holds⟩ := run_holds valid before
    obtain ⟨-, here, -⟩ := stored_position valid holds step
    refine ⟨here ▸ Nat.mod_lt _ (by omega), ?_⟩
    rintro front back place' byte' rfl
    exact stored_after_received valid run

theorem spsc_safe_around :
    let turns := List.replicate 10 (.produce [1, 2, 3]) ++ List.replicate 7 (.consume .peekSize) ++
      List.replicate 11 (.consume (.read [0, 0, 0, 0])) ++
      (List.replicate 8 [Turn.produce [4, 5], .consume .peekSize]).flatten ++
      [.produce [4, 5]] ++ List.replicate 10 (.consume (.read [0, 0]))
    let events := (System.schedule ({} : System 8) turns).1
    received events = [[1, 2, 3], [4, 5]] ∧ Safe 8 events :=
  ⟨by decide +kernel, spsc_safe ⟨⟨3, rfl⟩, by decide, by decide⟩ (schedule_run _ _)⟩

end Spsc

end Udaf
