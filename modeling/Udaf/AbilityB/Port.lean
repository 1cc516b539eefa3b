import Udaf.Core.ErrorCode
import Udaf.Lib.Run
import Mathlib.Logic.Function.Basic

/-!
`ability_b/port/port.hpp`: a queue under a mutex with any number of callers. Each section
under the mutex is one step, and a wait gives the mutex up until a notification, the end
of its time or nothing at all ends it.
-/

namespace Udaf

structure InputPort (τ : Type) where
  capacity : Nat := 64
  queue : List τ := []

/-- The port an output port is bound to, as it stands. -/
structure OutputPort (τ : Type) where
  target : Option (InputPort τ)

namespace InputPort

variable {τ : Type}

def push (port : InputPort τ) (v : τ) : Except ErrorCode Unit × InputPort τ :=
  if 0 < port.capacity ∧ port.capacity ≤ port.queue.length then (.error .resourceBusy, port)
  else (.ok (), { port with queue := port.queue ++ [v] })

def takeFront (port : InputPort τ) (code : ErrorCode) : Except ErrorCode τ × InputPort τ :=
  match port.queue with
  | [] => (.error code, port)
  | front :: behind => (.ok front, { port with queue := behind })

def tryRecv (port : InputPort τ) : Except ErrorCode τ × InputPort τ :=
  port.takeFront .bizServiceNotFound

inductive RecvTurn (τ : Type) where
  | done (result : Except ErrorCode τ)
  | waits

/-- From the predicate of the wait on; a caller whose time has run out does not wait again. -/
def recheck (port : InputPort τ) (expired : Bool) : RecvTurn τ × InputPort τ :=
  if port.queue.isEmpty ∧ expired = false then (.waits, port)
  else (.done (port.takeFront .netTimeout).1, (port.takeFront .netTimeout).2)

def recvEnter (port : InputPort τ) (timeoutMs : Int) : RecvTurn τ × InputPort τ :=
  if port.queue.isEmpty ∧ timeoutMs ≠ 0 then port.recheck false
  else (.done (port.takeFront .netTimeout).1, (port.takeFront .netTimeout).2)

end InputPort

namespace OutputPort

variable {τ : Type}

def trySend (port : OutputPort τ) (v : τ) : Except ErrorCode Unit × OutputPort τ :=
  match port.target with
  | none => (.error .netNotConnected, port)
  | some target => ((target.push v).1, ⟨some (target.push v).2⟩)

end OutputPort

namespace InputPort

inductive Caller where
  | idle
  | blocked (timeoutMs : Int)
  | woken (timeoutMs : Int)
  | expired
  deriving DecidableEq

def Caller.afterTurn {τ : Type} (timeoutMs : Int) : RecvTurn τ → Caller
  | .done _ => .idle
  | .waits => .blocked timeoutMs

structure System (τ ι : Type) where
  port : InputPort τ
  callers : ι → Caller := fun _ => .idle

inductive Label (τ : Type) where
  | pushed (v : τ) (result : Except ErrorCode Unit)
  | received (result : Except ErrorCode τ)
  | waits
  | roused
  | timedOut

def RecvTurn.label {τ : Type} : RecvTurn τ → Label τ
  | .done result => .received result
  | .waits => .waits

structure Event (τ ι : Type) where
  thread : ι
  before : InputPort τ
  label : Label τ
  after : InputPort τ

variable {τ ι : Type}

/-- The two calls that reach `push`: its own, and `try_send` of an output port bound to the port. -/
def Sends (port : InputPort τ) (v : τ) (result : Except ErrorCode Unit) (after : InputPort τ) : Prop :=
  port.push v = (result, after) ∨ (⟨some port⟩ : OutputPort τ).trySend v = (result, ⟨some after⟩)

variable [DecidableEq ι]

def System.move (system : System τ ι) (thread : ι) (caller : Caller) (port : InputPort τ) :
    System τ ι where
  port := port
  callers := Function.update system.callers thread caller

/-- A `push` that succeeds notifies one of the callers that wait, if there is one. -/
inductive Step : System τ ι → Event τ ι → System τ ι → Prop where
  | refused {system : System τ ι} {thread : ι} (idle : system.callers thread = .idle) {v : τ}
      {code : ErrorCode} {after : InputPort τ} (sends : Sends system.port v (.error code) after) :
      Step system ⟨thread, system.port, .pushed v (.error code), after⟩
        (system.move thread .idle after)
  | notifies {system : System τ ι} {thread other : ι} (idle : system.callers thread = .idle) {v : τ}
      {after : InputPort τ} (sends : Sends system.port v (.ok ()) after) {timeoutMs : Int}
      (waiting : system.callers other = .blocked timeoutMs) :
      Step system ⟨thread, system.port, .pushed v (.ok ()), after⟩
        (system.move other (.woken timeoutMs) after)
  | unheard {system : System τ ι} {thread : ι} (idle : system.callers thread = .idle) {v : τ}
      {after : InputPort τ} (sends : Sends system.port v (.ok ()) after)
      (alone : ∀ other timeoutMs, system.callers other ≠ .blocked timeoutMs) :
      Step system ⟨thread, system.port, .pushed v (.ok ()), after⟩ (system.move thread .idle after)
  | tries {system : System τ ι} {thread : ι} (idle : system.callers thread = .idle)
      {result : Except ErrorCode τ} {after : InputPort τ}
      (tried : system.port.tryRecv = (result, after)) :
      Step system ⟨thread, system.port, .received result, after⟩ (system.move thread .idle after)
  | recvEnters {system : System τ ι} {thread : ι} (idle : system.callers thread = .idle)
      (timeoutMs : Int) {turn : RecvTurn τ} {after : InputPort τ}
      (entered : system.port.recvEnter timeoutMs = (turn, after)) :
      Step system ⟨thread, system.port, turn.label, after⟩
        (system.move thread (.afterTurn timeoutMs turn) after)
  | rouse {system : System τ ι} {thread : ι} {timeoutMs : Int}
      (waiting : system.callers thread = .blocked timeoutMs) :
      Step system ⟨thread, system.port, .roused, system.port⟩
        (system.move thread (.woken timeoutMs) system.port)
  | timeOut {system : System τ ι} {thread : ι} {timeoutMs : Int}
      (waiting : system.callers thread = .blocked timeoutMs) (timed : 0 < timeoutMs) :
      Step system ⟨thread, system.port, .timedOut, system.port⟩
        (system.move thread .expired system.port)
  | rechecks {system : System τ ι} {thread : ι} {timeoutMs : Int}
      (woken : system.callers thread = .woken timeoutMs) {turn : RecvTurn τ} {after : InputPort τ}
      (rechecked : system.port.recheck false = (turn, after)) :
      Step system ⟨thread, system.port, turn.label, after⟩
        (system.move thread (.afterTurn timeoutMs turn) after)
  | rechecksLast {system : System τ ι} {thread : ι} (expired : system.callers thread = .expired)
      {turn : RecvTurn τ} {after : InputPort τ}
      (rechecked : system.port.recheck true = (turn, after)) :
      Step system ⟨thread, system.port, turn.label, after⟩ (system.move thread .idle after)

end InputPort

end Udaf
