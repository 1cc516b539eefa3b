import Udaf.Crypto.Handshake
import Mathlib.Logic.Function.Basic

/-!
`ability_a/transport/udp_socket.cpp`: sending, with the rate limits and the
encryption under a PSK. The clock and what the system calls answer are passed in;
a time is a count of nanoseconds.
-/

namespace Udaf

open ByteString

structure Endpoint where
  address : String
  port : UInt16 := 0
  isBroadcast : Bool := false
  deriving DecidableEq

structure UdpSocket (β : Type) where
  fd : Int := -1
  psk : List β := []
  unicastHistory : String → List Int := fun _ => []
  lastBroadcastAt : Int := 0

inductive SendTo where
  | sent (count : Nat)
  | again
  | failed
  deriving DecidableEq

inductive Select where
  | ready
  | timedOut
  | failed
  deriving DecidableEq

/-- What `recvfrom` answers: it fills at most the buffer. -/
inductive RecvFrom (β : Type) where
  | received (buf : List β) (fits : buf.length ≤ 64 * 1024)
  | again
  | failed

structure Datagram (β : Type) where
  address : Block UInt8 4
  port : UInt16
  bytes : List β

structure SendOutcome (β : Type) where
  result : Except ErrorCode Nat
  after : UdpSocket β
  sealings : List (Sealing β) := []
  datagram : Option (Datagram β) := none

namespace UdpSocket

variable {β : Type} (platform : Platform β)

def unicastMaxPerSec : Nat := 5

def second : Int := 1000000000

def broadcastPeriod : Int := 30000 * 1000000

def checkUnicastRate (socket : UdpSocket β) (addr : String) (now : Int) : Bool × UdpSocket β :=
  let hist := (socket.unicastHistory addr).dropWhile fun stamp => now - stamp > second
  if hist.length ≥ unicastMaxPerSec then
    (false, { socket with unicastHistory := Function.update socket.unicastHistory addr hist })
  else
    (true, { socket with
      unicastHistory := Function.update socket.unicastHistory addr (hist ++ [now]) })

def checkBroadcastRate (socket : UdpSocket β) (now : Int) : Bool × UdpSocket β :=
  if socket.lastBroadcastAt ≠ 0 ∧ now - socket.lastBroadcastAt < broadcastPeriod then (false, socket)
  else (true, { socket with lastBroadcastAt := now })

def checkRate (socket : UdpSocket β) (dst : Endpoint) (now : Int) : Bool × UdpSocket β :=
  if dst.isBroadcast then socket.checkBroadcastRate now
  else socket.checkUnicastRate dst.address now

def toSend (socket : UdpSocket β) (payload : List β) :
    Except ErrorCode (List β) × List (Sealing β) :=
  if socket.psk.length = 32 ∧ payload ≠ [] then
    match pskAeadEncrypt platform socket.psk (zeroNonce platform) payload [] with
    | (.error code, sealings) => (.error code, sealings)
    | (.ok enc, sealings) => (.ok ((zeroNonce platform).bytes ++ enc), sealings)
  else (.ok payload, [])

def send (inetPton : String → Option (Block UInt8 4)) (socket : UdpSocket β) (payload : List β)
    (dst : Endpoint) (now : Int) (accepted : SendTo) : SendOutcome β :=
  if socket.fd < 0 then { result := .error .netSocketClosed, after := socket }
  else
    match socket.checkRate dst now with
    | (false, limited) => { result := .error .netRateLimited, after := limited }
    | (true, limited) =>
        match limited.toSend platform payload with
        | (.error code, sealings) => { result := .error code, after := limited, sealings := sealings }
        | (.ok bytes, sealings) =>
            match inetPton dst.address with
            | none => { result := .error .invalidArg, after := limited, sealings := sealings }
            | some address => {
                result := match accepted with
                  | .sent count => .ok count
                  | .again => .error .netTimeout
                  | .failed => .error .netSendFailed
                after := limited
                sealings := sealings
                datagram := some ⟨address, dst.port, bytes⟩ }

def opened (socket : UdpSocket β) (buf : List β) : Except ErrorCode (List β) :=
  if long : socket.psk.length = 32 ∧ 12 < buf.length then
    pskAeadDecrypt platform socket.psk (Block.slice buf 0 12 (by omega)) (buf.drop 12) []
  else .ok buf

def recv (socket : UdpSocket β) (timeoutMs : Int) (selected : Select) (received : RecvFrom β) :
    Except ErrorCode (List β) :=
  if socket.fd < 0 then .error .netSocketClosed
  else if 0 ≤ timeoutMs ∧ selected = .timedOut then .error .netTimeout
  else if 0 ≤ timeoutMs ∧ selected = .failed then .error .netSendFailed
  else
    match received with
    | .again => .error .netTimeout
    | .failed => .error .netSendFailed
    | .received buf _ => socket.opened platform buf

def admits (socket : UdpSocket β) (dst : Endpoint) (now : Int) : Bool :=
  0 ≤ socket.fd && (socket.checkRate dst now).1

@[simp] theorem checkUnicastRate_kept (socket : UdpSocket β) (addr : String) (now : Int) :
    (socket.checkUnicastRate addr now).2.psk = socket.psk ∧
      (socket.checkUnicastRate addr now).2.fd = socket.fd := by
  rw [checkUnicastRate]
  split <;> exact ⟨rfl, rfl⟩

@[simp] theorem checkBroadcastRate_kept (socket : UdpSocket β) (now : Int) :
    (socket.checkBroadcastRate now).2.psk = socket.psk ∧
      (socket.checkBroadcastRate now).2.fd = socket.fd := by
  rw [checkBroadcastRate]
  split <;> exact ⟨rfl, rfl⟩

@[simp] theorem checkRate_kept (socket : UdpSocket β) (dst : Endpoint) (now : Int) :
    (socket.checkRate dst now).2.psk = socket.psk ∧ (socket.checkRate dst now).2.fd = socket.fd := by
  rw [checkRate]
  split
  · exact checkBroadcastRate_kept socket now
  · exact checkUnicastRate_kept socket dst.address now

variable {platform}

theorem toSend_sealings {socket : UdpSocket β} {payload : List β} (size : socket.psk.length = 32)
    (nonempty : payload ≠ []) :
    (socket.toSend platform payload).2 = [⟨socket.psk, zeroNonce platform, [], payload⟩] := by
  have sealed := @pskAeadEncrypt_sealings β platform socket.psk payload [] (zeroNonce platform) size
  rw [toSend, if_pos ⟨size, nonempty⟩]
  split
  all_goals
    rename_i encrypted
    rw [encrypted] at sealed
    exact sealed

theorem send_sealings {inetPton : String → Option (Block UInt8 4)} {socket : UdpSocket β}
    {payload : List β} {dst : Endpoint} {now : Int} {accepted : SendTo}
    (size : socket.psk.length = 32) (nonempty : payload ≠ []) :
    (socket.send platform inetPton payload dst now accepted).after.psk = socket.psk ∧
      (socket.send platform inetPton payload dst now accepted).sealings =
        if socket.admits dst now then [⟨socket.psk, zeroNonce platform, [], payload⟩] else [] := by
  have kept := (checkRate_kept socket dst now).1
  unfold send admits
  by_cases closed : socket.fd < 0
  · rw [if_pos closed]
    have refused : (decide (0 ≤ socket.fd) && (socket.checkRate dst now).1) = false := by
      rw [decide_eq_false (by omega), Bool.false_and]
    rw [refused]
    exact ⟨rfl, rfl⟩
  · rw [if_neg closed]
    cases checked : socket.checkRate dst now with
    | mk passes limited =>
        rw [checked] at kept
        simp only at kept
        cases passes with
        | false => exact ⟨kept, by simp⟩
        | true =>
            have sealed := @toSend_sealings β platform limited payload (by rw [kept, size]) nonempty
            cases filled : limited.toSend platform payload with
            | mk bytes sealings =>
                rw [filled, kept] at sealed
                simp only at sealed
                simp only [filled]
                have passed : (decide (0 ≤ socket.fd) && true) = true := by
                  rw [decide_eq_true (by omega), Bool.true_and]
                rw [passed, if_pos rfl]
                cases bytes with
                | error code => exact ⟨kept, sealed⟩
                | ok bytes => cases inetPton dst.address <;> exact ⟨kept, sealed⟩

end UdpSocket

end Udaf
