import Udaf.Core.RingBuffer
import Udaf.Lib.Run

/-!
`RingBuffer` between one thread that calls `write` and one that calls `read` and
`peek_size`. A load or store of a counter and the copy of one byte are one step each;
what a call has loaded so far is part of the thread that makes it.
-/

namespace Udaf

open ByteString Ring Runs

namespace Spsc

/-- The cell of byte `place` in a `write_at` or `read_at` of `size` bytes at `pos`. -/
def copyCell (capacity : Nat) (pos : UInt64) (size place : Nat) : Nat :=
  let idx := RingBuffer.index capacity pos
  let first := min size (capacity - idx)
  if place < first then idx + place else place - first

def writtenBytes (data : Bytes) : Bytes :=
  leBytes 4 (UInt32.ofNat data.length).toNat ++ data

def writtenCell (capacity : Nat) (h : UInt64) (data : Bytes) (place : Nat) : Nat :=
  if place < 4 then copyCell capacity h 4 place
  else copyCell capacity (h + entryHeaderBytes) data.length (place - 4)

inductive ReadCall where
  | read (out : Bytes)
  | peekSize
  deriving DecidableEq

inductive Producer where
  | idle
  | loadedHead (data : Bytes) (h : UInt64)
  | copying (data : Bytes) (h : UInt64) (done : Nat)

inductive Consumer where
  | idle
  | loadedTail (call : ReadCall) (t : UInt64)
  | header (call : ReadCall) (t : UInt64) (got : Bytes)
  | copying (out : Bytes) (t : UInt64) (len : Nat) (got : Bytes)

structure System (capacity : Nat) where
  buffer : RingBuffer capacity := {}
  producer : Producer := .idle
  consumer : Consumer := .idle

/-- A step: byte `place` of a record goes to a cell or comes from it, a call returns, or neither. -/
inductive Event where
  | loaded
  | refused (code : ErrorCode)
  | stored (place cell : Nat) (byte : UInt8)
  | accepted (data : Bytes)
  | failed (code : ErrorCode)
  | fetched (place cell : Nat) (byte : UInt8)
  | peeked (len : Nat)
  | received (len : Nat) (out : Bytes)
  deriving DecidableEq

variable {capacity : Nat}

/-- The next step of the producer, which calls `write` with `data` if it is idle. -/
def System.produce (system : System capacity) (data : Bytes) : Event × System capacity :=
  match system.producer with
  | .idle =>
      if (RingBuffer.maxEntryBytes capacity).toNat < data.length then
        (.refused .protocolPayloadTooLarge, system)
      else (.loaded, { system with producer := .loadedHead data system.buffer.head })
  | .loadedHead data h =>
      let t := system.buffer.tail
      if UInt64.ofNat capacity - (h - t) < entryHeaderBytes + UInt64.ofNat data.length then
        (.refused .resMemoryExhausted, { system with producer := .idle })
      else (.loaded, { system with producer := .copying data h 0 })
  | .copying data h done =>
      match (writtenBytes data)[done]? with
      | some byte =>
          let cell := writtenCell capacity h data done
          (.stored done cell byte, { system with
            buffer := { system.buffer with storage := put system.buffer.storage cell byte }
            producer := .copying data h (done + 1) })
      | none =>
          let need := entryHeaderBytes + UInt64.ofNat data.length
          (.accepted data, { system with
            buffer := { system.buffer with head := h + need }
            producer := .idle })

def System.consume (system : System capacity) (call : ReadCall) : Event × System capacity :=
  match system.consumer with
  | .idle => (.loaded, { system with consumer := .loadedTail call system.buffer.tail })
  | .loadedTail call t =>
      if system.buffer.head = t then
        (.failed .resMemoryExhausted, { system with consumer := .idle })
      else (.loaded, { system with consumer := .header call t [] })
  | .header call t got =>
      if got.length < 4 then
        let cell := copyCell capacity t 4 got.length
        let byte := system.buffer.storage.bytes.getD cell 0
        (.fetched got.length cell byte, { system with consumer := .header call t (got ++ [byte]) })
      else
        let len := leNat got
        match call with
        | .peekSize => (.peeked len, { system with consumer := .idle })
        | .read out =>
            if out.length < len then
              (.failed .protocolTruncatedBuffer, { system with consumer := .idle })
            else (.loaded, { system with consumer := .copying out t len [] })
  | .copying out t len got =>
      if got.length < len then
        let cell := copyCell capacity (t + entryHeaderBytes) len got.length
        let byte := system.buffer.storage.bytes.getD cell 0
        (.fetched (4 + got.length) cell byte,
          { system with consumer := .copying out t len (got ++ [byte]) })
      else
        (.received len (got ++ out.drop len), { system with
          buffer := { system.buffer with tail := t + entryHeaderBytes + UInt64.ofNat len }
          consumer := .idle })

inductive Step : System capacity → Event → System capacity → Prop where
  | produce {system : System capacity} (data : Bytes) :
      Step system (system.produce data).1 (system.produce data).2
  | consume {system : System capacity} (call : ReadCall) :
      Step system (system.consume call).1 (system.consume call).2

inductive Turn where
  | produce (data : Bytes)
  | consume (call : ReadCall)

def System.turn (system : System capacity) : Turn → Event × System capacity
  | .produce data => system.produce data
  | .consume call => system.consume call

def System.schedule (system : System capacity) : List Turn → List Event × System capacity
  | [] => ([], system)
  | turn :: turns =>
      let first := system.turn turn
      let rest := first.2.schedule turns
      (first.1 :: rest.1, rest.2)

theorem schedule_run (turns : List Turn) (system : System capacity) :
    Run Step system (system.schedule turns).1 (system.schedule turns).2 := by
  induction turns generalizing system with
  | nil => exact .nil
  | cons turn turns ih =>
      cases turn with
      | produce data => exact .cons (.produce data) (ih _)
      | consume call => exact .cons (.consume call) (ih _)

def accepted (events : List Event) : List Bytes :=
  events.filterMap fun event =>
    match event with
    | .accepted data => some data
    | _ => none

def received (events : List Event) : List Bytes :=
  events.filterMap fun event =>
    match event with
    | .received len out => some (out.take len)
    | _ => none

def written (events : List Event) : List (Nat × UInt8 × Nat) :=
  events.filterMap fun event =>
    match event with
    | .stored place cell byte => some (cell, byte, place)
    | _ => none

@[simp] theorem accepted_append (front back : List Event) :
    accepted (front ++ back) = accepted front ++ accepted back :=
  List.filterMap_append

@[simp] theorem received_append (front back : List Event) :
    received (front ++ back) = received front ++ received back :=
  List.filterMap_append

@[simp] theorem written_append (front back : List Event) :
    written (front ++ back) = written front ++ written back :=
  List.filterMap_append

end Spsc

end Udaf
