import Udaf.Lib.Bytes
import Udaf.Lib.Run
import Mathlib.Logic.Function.Basic

/-!
`ability_b/transport/inproc_channel.cpp`: a channel of three queues under a mutex,
and any number of callers on it. Each section under the mutex is one step; a caller
that waits can be woken by a notification or by nothing, or its time runs out.
-/

namespace Udaf

open ByteString

/-- The value of the enumeration; a cast can give it any byte. -/
structure MessagePriority where
  value : UInt8
  deriving DecidableEq

namespace MessagePriority

def heartbeat : MessagePriority := ⟨0⟩

def control : MessagePriority := ⟨1⟩

def data : MessagePriority := ⟨2⟩

end MessagePriority

inductive RecvStatus where
  | ok
  | timeout
  | closed
  | error
  deriving DecidableEq

inductive SendResult where
  | ok
  | full
  | closed
  | error
  deriving DecidableEq

structure MessageFrame where
  payload : Bytes := []
  priority : MessagePriority := .data
  seq : UInt64 := 0
  deriving DecidableEq

structure InprocChannel where
  queues : Fin 3 → List MessageFrame := fun _ => []
  capacity : Nat
  closed : Bool := false
  nextSeq : UInt64 := 0

inductive RecvTurn where
  | done (status : RecvStatus) (m : MessageFrame)
  | waits
  deriving DecidableEq

namespace InprocChannel

def sendChecks (channel : InprocChannel) (m : MessageFrame) : Option SendResult :=
  if channel.closed then some .closed
  else if 3 ≤ m.priority.value.toNat then some .error
  else none

/-- The section of `send_base` under the mutex: the frame that is queued, unless there is no room. -/
def push (channel : InprocChannel) (m : MessageFrame) (inside : m.priority.value.toNat < 3) :
    Option (MessageFrame × InprocChannel) :=
  let prio : Fin 3 := ⟨m.priority.value.toNat, inside⟩
  if m.priority ≠ .heartbeat ∧ channel.capacity ≤ (channel.queues prio).length then none
  else
    let seq := channel.nextSeq + 1
    let m := { m with seq := seq }
    some (m, { channel with
      nextSeq := seq
      queues := Function.update channel.queues prio (channel.queues prio ++ [m]) })

/-- The loop of `pick`: the front of the first queue that has one, and the queues without it. -/
def pickFrom (queues : Fin 3 → List MessageFrame) :
    List (Fin 3) → Option (MessageFrame × (Fin 3 → List MessageFrame))
  | [] => none
  | level :: rest =>
      match queues level with
      | [] => pickFrom queues rest
      | front :: behind => some (front, Function.update queues level behind)

def pick (queues : Fin 3 → List MessageFrame) :
    Option (MessageFrame × (Fin 3 → List MessageFrame)) :=
  pickFrom queues [0, 1, 2]

/-- `closed_ || pick()`, with `m` and the channel after it. -/
def waitPredicate (channel : InprocChannel) (m : MessageFrame) :
    Bool × MessageFrame × InprocChannel :=
  if channel.closed then (true, m, channel)
  else
    match pick channel.queues with
    | some (front, queues) => (true, front, { channel with queues := queues })
    | none => (false, m, channel)

def afterWait (channel : InprocChannel) (m : MessageFrame) : RecvTurn × InprocChannel :=
  if channel.closed ∧ channel.queues 0 = [] ∧ channel.queues 1 = [] ∧ channel.queues 2 = [] then
    (.done .closed m, channel)
  else
    match pick channel.queues with
    | some (front, queues) => (.done .ok front, { channel with queues := queues })
    | none => (.done .timeout m, channel)

/-- From the predicate on; a caller whose time has run out does not wait again. -/
def recheck (channel : InprocChannel) (m : MessageFrame) (expired : Bool) :
    RecvTurn × InprocChannel :=
  match channel.waitPredicate m with
  | (true, m, channel) => channel.afterWait m
  | (false, m, channel) => if expired then channel.afterWait m else (.waits, channel)

def recvEnter (channel : InprocChannel) (m : MessageFrame) (timeoutMs : Int) :
    RecvTurn × InprocChannel :=
  match pick channel.queues with
  | some (front, queues) => (.done .ok front, { channel with queues := queues })
  | none =>
      if timeoutMs = 0 then (.done .timeout m, channel)
      else if channel.closed then (.done .closed m, channel)
      else channel.recheck m false

/-- Where a caller stands: outside, between two sections of a call, or waiting in `recv_base` with
its `m` and `timeout_ms`. -/
inductive Caller where
  | idle
  | sending (m : MessageFrame) (inside : m.priority.value.toNat < 3)
  | notifying
  | closing
  | blocked (m : MessageFrame) (timeoutMs : Int)
  | woken (m : MessageFrame) (timeoutMs : Int)
  | expired (m : MessageFrame)

def Caller.wake : Caller → Caller
  | .blocked m timeoutMs => .woken m timeoutMs
  | other => other

def Caller.afterTurn (m : MessageFrame) (timeoutMs : Int) : RecvTurn → Caller
  | .done _ _ => .idle
  | .waits => .blocked m timeoutMs

structure System (ι : Type) where
  channel : InprocChannel
  callers : ι → Caller := fun _ => .idle

inductive Label where
  | refused (result : SendResult)
  | checked
  | accepted (frame : MessageFrame)
  | sent
  | closed
  | closeDone
  | entered (turn : RecvTurn)
  | roused
  | timedOut
  | rechecked (turn : RecvTurn)
  deriving DecidableEq

structure Event (ι : Type) where
  thread : ι
  before : InprocChannel
  label : Label
  after : InprocChannel

variable {ι : Type} [DecidableEq ι]

def System.move (system : System ι) (thread : ι) (caller : Caller) (channel : InprocChannel) :
    System ι where
  channel := channel
  callers := Function.update system.callers thread caller

inductive Step : System ι → Event ι → System ι → Prop where
  | sendRefused {system : System ι} {thread : ι} (idle : system.callers thread = .idle)
      {m : MessageFrame} {result : SendResult}
      (refused : system.channel.sendChecks m = some result) :
      Step system ⟨thread, system.channel, .refused result, system.channel⟩ system
  | sendChecked {system : System ι} {thread : ι} (idle : system.callers thread = .idle)
      {m : MessageFrame} (inside : m.priority.value.toNat < 3)
      (passes : system.channel.sendChecks m = none) :
      Step system ⟨thread, system.channel, .checked, system.channel⟩
        (system.move thread (.sending m inside) system.channel)
  | sendFull {system : System ι} {thread : ι} {m : MessageFrame}
      {inside : m.priority.value.toNat < 3} (sending : system.callers thread = .sending m inside)
      (full : system.channel.push m inside = none) :
      Step system ⟨thread, system.channel, .refused .full, system.channel⟩
        (system.move thread .idle system.channel)
  | sendAccepted {system : System ι} {thread : ι} {m frame : MessageFrame} {after : InprocChannel}
      {inside : m.priority.value.toNat < 3} (sending : system.callers thread = .sending m inside)
      (pushed : system.channel.push m inside = some (frame, after)) :
      Step system ⟨thread, system.channel, .accepted frame, after⟩
        (system.move thread .notifying after)
  | notifyOne {system : System ι} {thread other : ι}
      (notifying : system.callers thread = .notifying) {m : MessageFrame} {timeoutMs : Int}
      (waiting : system.callers other = .blocked m timeoutMs) :
      Step system ⟨thread, system.channel, .sent, system.channel⟩
        ((system.move thread .idle system.channel).move other (.woken m timeoutMs) system.channel)
  | notifyNone {system : System ι} {thread : ι} (notifying : system.callers thread = .notifying)
      (alone : ∀ other m timeoutMs, system.callers other ≠ .blocked m timeoutMs) :
      Step system ⟨thread, system.channel, .sent, system.channel⟩
        (system.move thread .idle system.channel)
  | close {system : System ι} {thread : ι} (idle : system.callers thread = .idle) :
      Step system ⟨thread, system.channel, .closed, { system.channel with closed := true }⟩
        (system.move thread .closing { system.channel with closed := true })
  | notifyAll {system : System ι} {thread : ι} (closing : system.callers thread = .closing) :
      Step system ⟨thread, system.channel, .closeDone, system.channel⟩
        { channel := system.channel
          callers := Function.update (fun other => (system.callers other).wake) thread .idle }
  | recvEnters {system : System ι} {thread : ι} (idle : system.callers thread = .idle)
      (m : MessageFrame) (timeoutMs : Int) {turn : RecvTurn} {after : InprocChannel}
      (entered : system.channel.recvEnter m timeoutMs = (turn, after)) :
      Step system ⟨thread, system.channel, .entered turn, after⟩
        (system.move thread (.afterTurn m timeoutMs turn) after)
  | rouse {system : System ι} {thread : ι} {m : MessageFrame} {timeoutMs : Int}
      (waiting : system.callers thread = .blocked m timeoutMs) :
      Step system ⟨thread, system.channel, .roused, system.channel⟩
        (system.move thread (.woken m timeoutMs) system.channel)
  | timeOut {system : System ι} {thread : ι} {m : MessageFrame} {timeoutMs : Int}
      (waiting : system.callers thread = .blocked m timeoutMs) (timed : 0 < timeoutMs) :
      Step system ⟨thread, system.channel, .timedOut, system.channel⟩
        (system.move thread (.expired m) system.channel)
  | rechecks {system : System ι} {thread : ι} {m : MessageFrame} {timeoutMs : Int}
      (woken : system.callers thread = .woken m timeoutMs) {turn : RecvTurn} {after : InprocChannel}
      (rechecked : system.channel.recheck m false = (turn, after)) :
      Step system ⟨thread, system.channel, .rechecked turn, after⟩
        (system.move thread (.afterTurn m timeoutMs turn) after)
  | rechecksLast {system : System ι} {thread : ι} {m : MessageFrame}
      (expired : system.callers thread = .expired m) {turn : RecvTurn} {after : InprocChannel}
      (rechecked : system.channel.recheck m true = (turn, after)) :
      Step system ⟨thread, system.channel, .rechecked turn, after⟩
        (system.move thread .idle after)

end InprocChannel

end Udaf
