import Udaf.AbilityB.TcpFrame
import Udaf.Lib.LossyLink

/-!
`TcpChannel` of `ability_b/transport/tcp_channel.cpp`: a channel over a socket of ZeroMQ. What
ZeroMQ answers is an argument. Two channels joined by it get whole messages in the order they
were sent in, of which any may be lost.
-/

namespace Udaf

open ByteString LossyLink Runs

inductive TcpError where
  | ok
  | internal
  | invalidArg
  | netConnectionRefused
  | netTimeout
  | protocolTruncatedBuffer
  deriving DecidableEq, Repr

inductive ZmqErrno where
  | eagain
  | ehostunreach
  | econnrefused
  | enetunreach
  | other
  deriving DecidableEq, Repr

def msToZmqTimeout (ms : Int) : Int := if ms < 0 then -1 else ms

/-- A socket, by the options that the channel sets and sets again. -/
structure TcpSocket where
  rcvTimeo : Int
  sndTimeo : Int
  deriving DecidableEq, Repr

structure TcpChannel where
  ioTimeout : Int
  socket : Option TcpSocket := none
  connected : Bool := false
  closed : Bool := false
  nextSeq : UInt64 := 0
  lastError : TcpError := .ok
  deriving DecidableEq, Repr

namespace TcpChannel

def connect (channel : TcpChannel) (rc : Bool) : Bool × TcpChannel :=
  if channel.closed then (false, { channel with lastError := .invalidArg })
  else if channel.socket.isNone then (false, { channel with lastError := .internal })
  else if !rc then (false, { channel with lastError := .netConnectionRefused })
  else (true, { channel with connected := true, lastError := .ok })

def create (ioTimeout : Int) (context socket : Bool) (autoConnect : Option Bool) : TcpChannel :=
  if !context || !socket then { ioTimeout := ioTimeout, lastError := .internal }
  else
    let timeout := msToZmqTimeout ioTimeout
    let channel : TcpChannel :=
      { ioTimeout := ioTimeout, socket := some { rcvTimeo := timeout, sndTimeo := timeout } }
    match autoConnect with
    | none => channel
    | some rc => (channel.connect rc).2

def close (channel : TcpChannel) : TcpChannel :=
  if channel.closed then channel
  else { channel with closed := true, connected := false, socket := none }

/-- The result, the message that ZeroMQ has taken over, and the channel after the call. -/
def sendBase (channel : TcpChannel) (m : MessageFrame) (sent : Except ZmqErrno Unit) :
    SendResult × Option Bytes × TcpChannel :=
  if channel.closed then (.closed, none, channel)
  else if channel.socket.isNone then (.error, none, channel)
  else
    -- the sequence number is used up whether the message goes out or not
    let channel := { channel with nextSeq := channel.nextSeq + 1 }
    let buf := encodeFrame { m with seq := channel.nextSeq }
    match sent with
    | .error .eagain => (.full, none, { channel with lastError := .netTimeout })
    | .error .ehostunreach | .error .econnrefused | .error .enetunreach =>
        (.error, none, { channel with lastError := .netConnectionRefused, connected := false })
    | .error .other => (.error, none, { channel with lastError := .internal })
    | .ok () => (.ok, some buf, { channel with lastError := .ok })

def withTimeout (socket : TcpSocket) (timeoutMs : Int) : TcpSocket × TcpSocket :=
  let oldTo := socket.rcvTimeo
  let during := { socket with rcvTimeo := msToZmqTimeout timeoutMs }
  (during, { during with rcvTimeo := oldTo })

/-- The status, what is in `m` then, the message taken from ZeroMQ, and the channel after the call;
`none` when the decoder reads outside the message. -/
def recvBase (channel : TcpChannel) (m : MessageFrame) (timeoutMs : Int)
    (received : TcpSocket → Except ZmqErrno Bytes) :
    Option (RecvStatus × MessageFrame × Option Bytes × TcpChannel) :=
  if channel.closed then some (.closed, m, none, channel)
  else
    match channel.socket with
    | none => some (.error, m, none, channel)
    | some socket =>
        let (during, after) := withTimeout socket timeoutMs
        let channel := { channel with socket := some after }
        match received during with
        | .error .eagain => some (.timeout, m, none, { channel with lastError := .netTimeout })
        | .error .ehostunreach | .error .econnrefused =>
            some (.error, m, none, { channel with lastError := .netConnectionRefused })
        | .error .enetunreach | .error .other =>
            some (.error, m, none, { channel with lastError := .internal })
        | .ok data =>
            match decodeFrame data m with
            | none => none
            | some (false, left) =>
                some (.error, left, some data, { channel with lastError := .protocolTruncatedBuffer })
            | some (true, frame) => some (.ok, frame, some data, { channel with lastError := .ok })

end TcpChannel

/-- Two channels, and the messages on their way to each of them. -/
structure TcpLink where
  ends : Bool → TcpChannel
  toward : Bool → List Bytes

inductive TcpEvent where
  | connect (who : Bool) (done : Bool)
  | close (who : Bool)
  | send (who : Bool) (m : MessageFrame) (result : SendResult) (put : Option Bytes)
  | recv (who : Bool) (status : RecvStatus) (m : MessageFrame) (got : Option Bytes)
  | lost (who : Bool)

namespace TcpLink

structure Opened (link : TcpLink) : Prop where
  created : ∀ who, ∃ ioTimeout context socket autoConnect,
    link.ends who = TcpChannel.create ioTimeout context socket autoConnect
  toward : ∀ who, link.toward who = []

inductive Step : TcpLink → TcpEvent → TcpLink → Prop where
  | connect {link : TcpLink} {who rc done : Bool} {next : TcpChannel}
      (effect : (link.ends who).connect rc = (done, next)) :
      Step link (.connect who done) { link with ends := Function.update link.ends who next }
  | close {link : TcpLink} (who : Bool) :
      Step link (.close who)
        { link with ends := Function.update link.ends who (link.ends who).close }
  | send {link : TcpLink} {who : Bool} {m : MessageFrame} {sent : Except ZmqErrno Unit}
      {result : SendResult} {put : Option Bytes} {next : TcpChannel}
      (effect : (link.ends who).sendBase m sent = (result, put, next)) :
      Step link (.send who m result put) {
        ends := Function.update link.ends who next
        toward := Function.update link.toward (!who) (link.toward (!who) ++ put.toList) }
  | recv {link : TcpLink} {who : Bool} {into m : MessageFrame} {timeoutMs : Int}
      {received : TcpSocket → Except ZmqErrno Bytes} {status : RecvStatus} {got : Option Bytes}
      {next : TcpChannel} {rest : List Bytes}
      (effect : (link.ends who).recvBase into timeoutMs received = some (status, m, got, next))
      (first : link.toward who = got.toList ++ rest) :
      Step link (.recv who status m got) {
        ends := Function.update link.ends who next
        toward := Function.update link.toward who rest }
  | lost {link : TcpLink} {who : Bool} {front back : List Bytes} {data : Bytes}
      (inside : link.toward who = front ++ data :: back) :
      Step link (.lost who)
        { link with toward := Function.update link.toward who (front ++ back) }

end TcpLink

/-- What arrives of a frame: the length field has four bytes. -/
def MessageFrame.clipped (frame : MessageFrame) : MessageFrame :=
  { frame with payload := frame.payload.take (frame.payload.length % 2 ^ 32) }

theorem decodeFrame_clipped (frame into : MessageFrame) :
    decodeFrame (encodeFrame frame) into = some (true, frame.clipped) := by
  have plen : leNat (leBytes 4 (frame.payload.length % 2 ^ 32)) = frame.payload.length % 2 ^ 32 :=
    leNat_leBytes 4 _ (Nat.mod_lt _ (by decide))
  have most := Nat.mod_le frame.payload.length (2 ^ 32)
  rw [encodeFrame_eq, decodeFrame_frameBytes _ _ _ (leBytes_length _ _) (leBytes_length _ _), plen,
    if_neg (by omega), leNat_leBytes 8 _ frame.seq.toNat_lt, UInt64.ofNat_toNat]
  rfl

namespace TcpChannel

variable {channel next : TcpChannel}

theorem sendBase_cases {m : MessageFrame} {sent : Except ZmqErrno Unit} {result : SendResult}
    {put : Option Bytes} (effect : channel.sendBase m sent = (result, put, next)) :
    (result = .ok ∧ put = some (encodeFrame { m with seq := channel.nextSeq + 1 }) ∧
        next.nextSeq = channel.nextSeq + 1) ∨
      (result ≠ .ok ∧ put = none ∧
        (next.nextSeq = channel.nextSeq ∨ next.nextSeq = channel.nextSeq + 1)) := by
  simp only [sendBase] at effect
  split at effect
  · cases effect
    exact Or.inr ⟨by decide, rfl, Or.inl rfl⟩
  · split at effect
    · cases effect
      exact Or.inr ⟨by decide, rfl, Or.inl rfl⟩
    · split at effect <;> cases effect
      · exact Or.inr ⟨by decide, rfl, Or.inr rfl⟩
      · exact Or.inr ⟨by decide, rfl, Or.inr rfl⟩
      · exact Or.inr ⟨by decide, rfl, Or.inr rfl⟩
      · exact Or.inr ⟨by decide, rfl, Or.inr rfl⟩
      · exact Or.inr ⟨by decide, rfl, Or.inr rfl⟩
      · exact Or.inl ⟨rfl, rfl, rfl⟩

theorem recvBase_cases {into m : MessageFrame} {timeoutMs : Int}
    {received : TcpSocket → Except ZmqErrno Bytes} {status : RecvStatus} {got : Option Bytes}
    (effect : channel.recvBase into timeoutMs received = some (status, m, got, next)) :
    next.nextSeq = channel.nextSeq ∧
      ((got = none ∧ status ≠ .ok) ∨ ∃ data, got = some data ∧
        ((status = .ok ∧ decodeFrame data into = some (true, m)) ∨
          (status ≠ .ok ∧ decodeFrame data into = some (false, m)))) := by
  simp only [recvBase] at effect
  split at effect
  · cases effect
    exact ⟨rfl, Or.inl ⟨rfl, by decide⟩⟩
  · split at effect
    · cases effect
      exact ⟨rfl, Or.inl ⟨rfl, by decide⟩⟩
    · split at effect
      · cases effect
        exact ⟨rfl, Or.inl ⟨rfl, by decide⟩⟩
      · cases effect
        exact ⟨rfl, Or.inl ⟨rfl, by decide⟩⟩
      · cases effect
        exact ⟨rfl, Or.inl ⟨rfl, by decide⟩⟩
      · cases effect
        exact ⟨rfl, Or.inl ⟨rfl, by decide⟩⟩
      · cases effect
        exact ⟨rfl, Or.inl ⟨rfl, by decide⟩⟩
      · rename_i data _
        split at effect
        · cases effect
        · rename_i decoded
          cases effect
          exact ⟨rfl, Or.inr ⟨data, rfl, Or.inr ⟨by decide, decoded⟩⟩⟩
        · rename_i decoded
          cases effect
          exact ⟨rfl, Or.inr ⟨data, rfl, Or.inl ⟨rfl, decoded⟩⟩⟩

structure Settled (ioTimeout : Int) (channel : TcpChannel) : Prop where
  closed : channel.closed → channel.socket = none
  connected : channel.connected → channel.socket.isSome
  socket : ∀ socket, channel.socket = some socket →
    socket = ⟨msToZmqTimeout ioTimeout, msToZmqTimeout ioTimeout⟩
  whole : channel.lastError ≠ .protocolTruncatedBuffer

section Settled

variable {ioTimeout : Int} (settled : channel.Settled ioTimeout)

include settled

theorem Settled.noting {error : TcpError} (fine : error ≠ .protocolTruncatedBuffer) :
    Settled ioTimeout { channel with lastError := error } :=
  ⟨settled.closed, settled.connected, settled.socket, fine⟩

theorem Settled.offline : Settled ioTimeout { channel with connected := false } :=
  ⟨settled.closed, (fun same => by cases same), settled.socket, settled.whole⟩

theorem Settled.connect (rc : Bool) : (channel.connect rc).2.Settled ioTimeout := by
  rw [TcpChannel.connect]
  split
  · exact settled.noting (by intro same; cases same)
  · split
    · exact settled.noting (by intro same; cases same)
    · rename_i some
      split
      · exact settled.noting (by intro same; cases same)
      · refine ⟨settled.closed, fun _ => ?_, settled.socket, by intro same; cases same⟩
        rw [Option.isNone_iff_eq_none] at some
        exact Option.isSome_iff_ne_none.mpr some

theorem Settled.close : channel.close.Settled ioTimeout := by
  rw [TcpChannel.close]
  split
  · exact settled
  · exact ⟨fun _ => rfl, (fun same => by cases same), (fun _ same => by cases same), settled.whole⟩

theorem Settled.sendBase (m : MessageFrame) (sent : Except ZmqErrno Unit) :
    (channel.sendBase m sent).2.2.Settled ioTimeout := by
  have counted : Settled ioTimeout { channel with nextSeq := channel.nextSeq + 1 } :=
    ⟨settled.closed, settled.connected, settled.socket, settled.whole⟩
  simp only [TcpChannel.sendBase]
  split
  · exact settled
  · split
    · exact settled
    · split
      · exact counted.noting (by intro same; cases same)
      · exact counted.offline.noting (by intro same; cases same)
      · exact counted.offline.noting (by intro same; cases same)
      · exact counted.offline.noting (by intro same; cases same)
      · exact counted.noting (by intro same; cases same)
      · exact counted.noting (by intro same; cases same)

end Settled

theorem create_settled (ioTimeout : Int) (context socket : Bool) (autoConnect : Option Bool) :
    (create ioTimeout context socket autoConnect).Settled ioTimeout := by
  rw [create]
  split
  · exact ⟨(fun same => by cases same), (fun same => by cases same), (fun _ same => by cases same),
      by intro same; cases same⟩
  · have fresh : Settled ioTimeout {
        ioTimeout := ioTimeout
        socket := some ⟨msToZmqTimeout ioTimeout, msToZmqTimeout ioTimeout⟩ } :=
      ⟨(fun same => by cases same), (fun same => by cases same),
        (fun _ same => (Option.some.inj same).symm), by intro same; cases same⟩
    cases autoConnect with
    | none => exact fresh
    | some rc => exact fresh.connect rc

theorem Settled.recvBase {ioTimeout : Int} (settled : channel.Settled ioTimeout)
    {into m : MessageFrame} {timeoutMs : Int} {received : TcpSocket → Except ZmqErrno Bytes}
    {status : RecvStatus} {got : Option Bytes}
    (effect : channel.recvBase into timeoutMs received = some (status, m, got, next))
    (encoded : ∀ data, got = some data → ∃ frame, data = encodeFrame frame) :
    next.Settled ioTimeout := by
  simp only [TcpChannel.recvBase] at effect
  split at effect
  · cases effect
    exact settled
  · rename_i open_
    split at effect
    · cases effect
      exact settled
    · rename_i socket holds
      have rests := settled.socket socket holds
      have keeps (error : TcpError) (fine : error ≠ .protocolTruncatedBuffer) :
          Settled ioTimeout { channel with
            socket := some (withTimeout socket timeoutMs).2, lastError := error } := by
        refine ⟨fun closed => absurd closed open_, fun _ => rfl, ?_, fine⟩
        intro other same
        rw [← Option.some.inj same, rests]
        rfl
      split at effect
      · cases effect
        exact keeps .netTimeout (by intro same; cases same)
      · cases effect
        exact keeps .netConnectionRefused (by intro same; cases same)
      · cases effect
        exact keeps .netConnectionRefused (by intro same; cases same)
      · cases effect
        exact keeps .internal (by intro same; cases same)
      · cases effect
        exact keeps .internal (by intro same; cases same)
      · rename_i data _
        split at effect
        · cases effect
        · rename_i decoded
          cases effect
          obtain ⟨frame, rfl⟩ := encoded data rfl
          rw [decodeFrame_clipped] at decoded
          cases decoded
        · cases effect
          exact keeps .ok (by intro same; cases same)

end TcpChannel

namespace TcpEvent

def wire (toward : Bool) : TcpEvent → List (LossyLink.Event Bytes)
  | .send who _ _ put => if (!who) = toward then put.toList.map .put else []
  | .recv who _ _ got => if who = toward then got.toList.map .got else []
  | .lost who => if who = toward then [.lost] else []
  | _ => []

def who : TcpEvent → Bool
  | .connect who _ | .close who | .send who _ _ _ | .recv who _ _ _ | .lost who => who

def Refused : TcpEvent → Prop
  | .connect _ done => done = false
  | .send _ _ result put => result = .closed ∧ put = none
  | .recv _ status _ got => status = .closed ∧ got = none
  | .close _ | .lost _ => True

def accepted (sender : Bool) : TcpEvent → Option MessageFrame
  | .send who m .ok _ => if who = sender then some m else none
  | _ => none

def received (reader : Bool) : TcpEvent → Option MessageFrame
  | .recv who .ok m _ => if who = reader then some m else none
  | _ => none

def sends (sender : Bool) : TcpEvent → Bool
  | .send who _ _ _ => who = sender
  | _ => false

end TcpEvent

namespace TcpLink

variable {start link next final : TcpLink} {events past : List TcpEvent} {event : TcpEvent}

theorem step_wire (step : Step link event next) (toward : Bool) :
    Run LossyLink.Step (link.toward toward) (event.wire toward) (next.toward toward) := by
  cases step with
  | connect effect => exact .nil
  | close who => exact .nil
  | send effect =>
      rename_i who m sent result put after
      by_cases here : (!who) = toward
      · subst here
        simp only [TcpEvent.wire, if_true, Function.update_self]
        cases put with
        | none => simpa using Run.nil
        | some data => exact .cons (.put _ data) .nil
      · simp only [TcpEvent.wire, if_neg here, Function.update_of_ne (Ne.symm here)]
        exact .nil
  | recv effect first =>
      rename_i who into m timeoutMs received status got after rest
      by_cases here : who = toward
      · subst here
        simp only [TcpEvent.wire, if_true, Function.update_self, first]
        cases got with
        | none => simpa using Run.nil
        | some data => exact .cons (.got data rest) .nil
      · simp only [TcpEvent.wire, if_neg here, Function.update_of_ne (Ne.symm here)]
        exact .nil
  | lost inside =>
      rename_i who front back data
      by_cases here : who = toward
      · subst here
        simp only [TcpEvent.wire, if_true, Function.update_self, inside]
        exact .cons (.lost front data back) .nil
      · simp only [TcpEvent.wire, if_neg here, Function.update_of_ne (Ne.symm here)]
        exact .nil

theorem run_wire (run : Run Step start events final) (toward : Bool) :
    Run LossyLink.Step (start.toward toward) (events.flatMap (·.wire toward)) (final.toward toward) := by
  induction run with
  | nil => exact .nil
  | cons step _ ih => exact (step_wire step toward).append ih

structure Sound (start link : TcpLink) : Prop where
  encoded : ∀ who, ∀ data ∈ link.toward who, ∃ frame, data = encodeFrame frame
  settled : ∀ who, (link.ends who).Settled (start.ends who).ioTimeout

theorem Sound.mk_update (sound : Sound start link) {who other : Bool} {channel : TcpChannel}
    {queue : List Bytes} (fresh : channel.Settled (start.ends who).ioTimeout)
    (encoded : ∀ data ∈ queue, ∃ frame, data = encodeFrame frame) :
    Sound start {
      ends := Function.update link.ends who channel
      toward := Function.update link.toward other queue } where
  encoded := (Function.forall_update_iff link.toward
    fun _ queue => ∀ data ∈ queue, ∃ frame, data = encodeFrame frame).mpr
      ⟨encoded, fun toward _ => sound.encoded toward⟩
  settled := (Function.forall_update_iff link.ends
    fun who channel => channel.Settled (start.ends who).ioTimeout).mpr
      ⟨fresh, fun other _ => sound.settled other⟩

theorem Sound.step (sound : Sound start link) (step : Step link event next) : Sound start next := by
  cases step with
  | connect effect =>
      rename_i who rc done after
      have fresh := (sound.settled who).connect rc
      rw [effect] at fresh
      have updated := @Sound.mk_update _ _ sound who who after _ fresh (sound.encoded who)
      rwa [Function.update_eq_self] at updated
  | close who =>
      have updated := @Sound.mk_update _ _ sound who who _ _ (sound.settled who).close (sound.encoded who)
      rwa [Function.update_eq_self] at updated
  | send effect =>
      rename_i who m sent result put after
      have fresh := (sound.settled who).sendBase m sent
      rw [effect] at fresh
      refine sound.mk_update fresh fun data member => ?_
      rcases List.mem_append.mp member with before | new
      · exact sound.encoded _ data before
      · rcases TcpChannel.sendBase_cases effect with ⟨-, rfl, -⟩ | ⟨-, rfl, -⟩
        · exact ⟨_, List.mem_singleton.mp new⟩
        · simp at new
  | recv effect first =>
      rename_i who into m timeoutMs received status got after rest
      have taken : ∀ data, got = some data → ∃ frame, data = encodeFrame frame := by
        rintro data rfl
        exact sound.encoded who data (by rw [first]; simp)
      refine sound.mk_update ((sound.settled who).recvBase effect taken) fun data member => ?_
      exact sound.encoded _ data (by rw [first]; simp [member])
  | lost inside =>
      rename_i who front back lost
      have updated := @Sound.mk_update _ _ sound who who _ (front ++ back) (sound.settled who)
        fun data member => sound.encoded who data (by
          rw [inside]
          exact (List.Sublist.append_left (List.sublist_cons_self lost back) front).subset member)
      rwa [Function.update_eq_self] at updated

theorem Opened.sound (opened : Opened start) : Sound start start where
  encoded who data member := by
    rw [opened.toward who] at member
    cases member
  settled who := by
    obtain ⟨ioTimeout, context, socket, autoConnect, created⟩ := opened.created who
    have settled := TcpChannel.create_settled ioTimeout context socket autoConnect
    have timeout : (TcpChannel.create ioTimeout context socket autoConnect).ioTimeout = ioTimeout := by
      rw [TcpChannel.create]
      split
      · rfl
      · cases autoConnect with
        | none => rfl
        | some rc =>
            simp only [TcpChannel.connect]
            split <;> (try split) <;> (try split) <;> rfl
    rw [created, timeout]
    exact settled

theorem run_sound (opened : Opened start) (run : Run Step start events final) : Sound start final := by
  have all := @Run.history _ _ Step (fun _ link => Sound start link)
    (fun step sound => sound.step step) [] _ _ _ run opened.sound
  exact all

structure SentBy (sender : Bool) (past : List TcpEvent) (link : TcpLink) (frames : List MessageFrame) :
    Prop where
  puts : LossyLink.puts (past.flatMap (·.wire !sender)) = frames.map encodeFrame
  content : List.Forall₂ (fun m frame => frame = { m with seq := frame.seq })
    (past.filterMap (·.accepted sender)) frames
  numbers : ∃ count ≤ past.countP (·.sends sender), (link.ends sender).nextSeq = UInt64.ofNat count ∧
    (frames.map MessageFrame.seq).Sublist ((List.range' 1 count).map UInt64.ofNat)

theorem puts_concat (past : List TcpEvent) (event : TcpEvent) (toward : Bool) :
    LossyLink.puts ((past ++ [event]).flatMap (·.wire toward)) =
      LossyLink.puts (past.flatMap (·.wire toward)) ++ LossyLink.puts (event.wire toward) := by
  simp [LossyLink.puts]

theorem seq_next (count : Nat) : UInt64.ofNat count + 1 = UInt64.ofNat (count + 1) := by
  rw [UInt64.ofNat_add]
  rfl

theorem SentBy.quiet {sender : Bool} {frames : List MessageFrame} (sent : SentBy sender past link frames)
    (nothing : LossyLink.puts (event.wire !sender) = []) (unaccepted : event.accepted sender = none)
    (counter : (next.ends sender).nextSeq = (link.ends sender).nextSeq ∨
      event.sends sender ∧ (next.ends sender).nextSeq = (link.ends sender).nextSeq + 1) :
    SentBy sender (past ++ [event]) next frames where
  puts := by rw [puts_concat, nothing, List.append_nil, sent.puts]
  content := by simpa [unaccepted] using sent.content
  numbers := by
    obtain ⟨count, few, number, ordered⟩ := sent.numbers
    rw [List.countP_append, List.countP_singleton]
    rcases counter with same | ⟨sends, more⟩
    · exact ⟨count, by omega, same.trans number, ordered⟩
    · refine ⟨count + 1, by simp [sends, few], by rw [more, number, seq_next], ordered.trans ?_⟩
      rw [List.range'_1_concat, List.map_append]
      exact List.sublist_append_left _ _

theorem SentBy.more {sender : Bool} {frames : List MessageFrame} (sent : SentBy sender past link frames)
    {m frame : MessageFrame} (given : frame = { m with seq := (link.ends sender).nextSeq + 1 })
    (put : LossyLink.puts (event.wire !sender) = [encodeFrame frame])
    (accepted : event.accepted sender = some m) (sends : event.sends sender)
    (counter : (next.ends sender).nextSeq = (link.ends sender).nextSeq + 1) :
    SentBy sender (past ++ [event]) next (frames ++ [frame]) where
  puts := by rw [puts_concat, put, sent.puts, List.map_append, List.map_singleton]
  content := by
    rw [List.filterMap_append, List.filterMap_cons_some accepted, List.filterMap_nil]
    refine List.rel_append sent.content (.cons ?_ .nil)
    rw [given]
  numbers := by
    obtain ⟨count, few, number, ordered⟩ := sent.numbers
    rw [List.countP_append, List.countP_singleton, if_pos sends]
    refine ⟨count + 1, by omega, by rw [counter, number, seq_next], ?_⟩
    have last : frame.seq = UInt64.ofNat (1 + count) := by
      rw [given, number, seq_next, Nat.add_comm]
    rw [List.range'_1_concat, List.map_append, List.map_append, List.map_singleton,
      List.map_singleton, last]
    exact List.Sublist.append_right ordered _

theorem connect_nextSeq (channel : TcpChannel) (rc : Bool) :
    (channel.connect rc).2.nextSeq = channel.nextSeq := by
  rw [TcpChannel.connect]
  split
  · rfl
  · split
    · rfl
    · split <;> rfl

theorem close_nextSeq (channel : TcpChannel) : channel.close.nextSeq = channel.nextSeq := by
  rw [TcpChannel.close]
  split <;> rfl

theorem update_nextSeq {ends : Bool → TcpChannel} {who : Bool} {channel : TcpChannel}
    (same : channel.nextSeq = (ends who).nextSeq) (sender : Bool) :
    (Function.update ends who channel sender).nextSeq = (ends sender).nextSeq := by
  by_cases mine : sender = who
  · subst mine
    rw [Function.update_self, same]
  · rw [Function.update_of_ne mine]

theorem SentBy.step {sender : Bool} {frames : List MessageFrame} (sent : SentBy sender past link frames)
    (step : Step link event next) : ∃ after, SentBy sender (past ++ [event]) next after := by
  cases step with
  | connect effect =>
      rename_i who rc done channel
      have same := connect_nextSeq (link.ends who) rc
      rw [effect] at same
      exact ⟨frames, sent.quiet rfl rfl (Or.inl (update_nextSeq same sender))⟩
  | close who =>
      exact ⟨frames, sent.quiet rfl rfl (Or.inl (update_nextSeq (close_nextSeq _) sender))⟩
  | recv effect first =>
      rename_i who into m timeoutMs received status got channel rest
      refine ⟨frames, sent.quiet ?_ ?_ ?_⟩
      · rw [TcpEvent.wire]
        split
        · cases got <;> rfl
        · rfl
      · rfl
      · exact Or.inl (update_nextSeq (TcpChannel.recvBase_cases effect).1 sender)
  | lost inside =>
      refine ⟨frames, sent.quiet ?_ rfl (Or.inl rfl)⟩
      rw [TcpEvent.wire]
      split <;> rfl
  | send effect =>
      rename_i who m outcome result put channel
      by_cases mine : who = sender
      · subst mine
        rcases TcpChannel.sendBase_cases effect with ⟨rfl, rfl, counter⟩ | ⟨failed, rfl, counter⟩
        · refine ⟨_, @SentBy.more _ _ _ _ _ _ sent m _ rfl ?_ ?_ ?_ ?_⟩
          · simp [TcpEvent.wire, LossyLink.puts]
          · simp [TcpEvent.accepted]
          · simp [TcpEvent.sends]
          · simpa using counter
        · refine ⟨frames, sent.quiet ?_ ?_ ?_⟩
          · simp [TcpEvent.wire, LossyLink.puts]
          · cases result with
            | ok => exact absurd rfl failed
            | full | closed | error => rfl
          · simpa [TcpEvent.sends] using counter
      · refine ⟨frames, sent.quiet ?_ ?_ ?_⟩
        · simp [TcpEvent.wire, mine, LossyLink.puts]
        · cases result with
          | ok => simp [TcpEvent.accepted, mine]
          | full | closed | error => rfl
        · exact Or.inl (congrArg TcpChannel.nextSeq (Function.update_of_ne (Ne.symm mine) _ _))

theorem run_sentBy (opened : Opened start) (run : Run Step start events final) (sender : Bool) :
    ∃ frames, SentBy sender events final frames := by
  have begins : ∃ frames, SentBy sender [] start frames := by
    obtain ⟨ioTimeout, context, socket, autoConnect, created⟩ := opened.created sender
    refine ⟨[], rfl, .nil, 0, Nat.le_refl 0, ?_, .refl _⟩
    rw [created, TcpChannel.create]
    split
    · rfl
    · cases autoConnect with
      | none => rfl
      | some rc => exact connect_nextSeq _ rc
  have all := @Run.history _ _ Step (fun past link => ∃ frames, SentBy sender past link frames)
    (fun step sent => sent.elim fun _ sent => sent.step step) [] _ _ _ run begins
  exact all

theorem Sound.reads (sound : Sound start link) (step : Step link event next) (reader : Bool) :
    List.Forall₂ (fun data m => ∀ frame, data = encodeFrame frame → m = frame.clipped)
      (gots (event.wire reader)) (event.received reader).toList := by
  cases step with
  | connect effect => exact .nil
  | close who => exact .nil
  | lost inside =>
      simp only [TcpEvent.wire]
      split <;> exact .nil
  | send effect =>
      rename_i who m sent result put after
      simp only [TcpEvent.wire]
      split
      · cases put <;> exact .nil
      · exact .nil
  | recv effect first =>
      rename_i who into m timeoutMs received status got after rest
      by_cases mine : who = reader
      · subst mine
        rcases (TcpChannel.recvBase_cases effect).2 with ⟨rfl, failed⟩ | ⟨data, rfl, either⟩
        · cases status with
          | ok => exact absurd rfl failed
          | timeout | closed | error => simp [TcpEvent.wire, gots, TcpEvent.received]
        · obtain ⟨frame, rfl⟩ := sound.encoded who data (by rw [first]; simp)
          rw [decodeFrame_clipped] at either
          rcases either with ⟨rfl, decoded⟩ | ⟨-, decoded⟩
          · have read : m = frame.clipped := by
              cases decoded
              rfl
            simp only [TcpEvent.wire, TcpEvent.received, if_true, gots, Option.toList_some,
              List.map_singleton]
            refine .cons (fun other same => ?_) .nil
            have both := decodeFrame_clipped other into
            rw [← same, decodeFrame_clipped] at both
            rw [read]
            exact (Prod.mk.inj (Option.some.inj both)).2
          · cases decoded
      · have none : TcpEvent.received reader (.recv who status m got) = none := by
          cases status with
          | ok => simp [TcpEvent.received, mine]
          | timeout | closed | error => rfl
        rw [none]
        simp only [TcpEvent.wire, if_neg mine]
        exact .nil

theorem run_reads (opened : Opened start) (run : Run Step start events final) (reader : Bool) :
    List.Forall₂ (fun data m => ∀ frame, data = encodeFrame frame → m = frame.clipped)
      (gots (events.flatMap (·.wire reader))) (events.filterMap (·.received reader)) := by
  have all := @Run.history _ _ Step (fun past link => Sound start link ∧
      List.Forall₂ (fun data m => ∀ frame, data = encodeFrame frame → m = frame.clipped)
        (gots (past.flatMap (·.wire reader))) (past.filterMap (·.received reader))) (by
      rintro past link event next step ⟨sound, reads⟩
      refine ⟨sound.step step, ?_⟩
      have more := sound.reads step reader
      have both := List.rel_append reads more
      have taken : gots ((past ++ [event]).flatMap (·.wire reader)) =
          gots (past.flatMap (·.wire reader)) ++ gots (event.wire reader) := by simp [gots]
      rw [taken, List.filterMap_append]
      cases received : event.received reader with
      | none => simpa [received] using both
      | some m => simpa [received] using both) [] _ _ _ run ⟨opened.sound, .nil⟩
  exact all.2

theorem reads_clipped {frames received : List MessageFrame}
    (reads : List.Forall₂ (fun data m => ∀ frame, data = encodeFrame frame → m = frame.clipped)
      (frames.map encodeFrame) received) : received = frames.map MessageFrame.clipped := by
  induction frames generalizing received with
  | nil =>
      cases reads
      rfl
  | cons frame frames ih =>
      cases reads with
      | cons first rest => rw [first frame rfl, ih rest, List.map_cons]

theorem run_closed (run : Run Step start events final) (who : Bool) (closed : .close who ∈ events) :
    (final.ends who).closed := by
  have all := @Run.history _ _ Step (fun past link => .close who ∈ past → (link.ends who).closed) (by
      intro past link event next step kept member
      cases step with
      | connect effect =>
          rename_i other rc done channel
          have before := kept (by simpa using member)
          by_cases same : who = other
          · subst same
            simp only [TcpChannel.connect, before, if_true] at effect
            cases effect
            simp
          · simpa [Function.update_of_ne same] using before
      | close other =>
          by_cases same : who = other
          · subst same
            simp only [Function.update_self, TcpChannel.close]
            split
            · assumption
            · rfl
          · simp only [Function.update_of_ne same]
            exact kept (by simpa [same] using member)
      | send effect =>
          rename_i other m sent result put channel
          have before := kept (by simpa using member)
          by_cases same : who = other
          · subst same
            simp only [TcpChannel.sendBase, before, if_true] at effect
            cases effect
            simpa using before
          · simpa [Function.update_of_ne same] using before
      | recv effect first =>
          rename_i other into m timeoutMs received status got channel rest
          have before := kept (by simpa using member)
          by_cases same : who = other
          · subst same
            simp only [TcpChannel.recvBase, before, if_true] at effect
            cases effect
            simpa using before
          · simpa [Function.update_of_ne same] using before
      | lost inside => exact kept (by simpa using member)) [] _ _ _ run (by simp)
  exact all closed

/-- What two channels keep to in every run. -/
structure Delivered (start final : TcpLink) (events : List TcpEvent) : Prop where
  frames : ∀ sender, ∃ frames : List MessageFrame,
    List.Forall₂ (fun m frame => frame = { m with seq := frame.seq })
        (events.filterMap (·.accepted sender)) frames ∧
      (frames.map MessageFrame.seq).Sublist
        ((List.range' 1 (events.countP (·.sends sender))).map UInt64.ofNat) ∧
      (events.filterMap (·.received !sender)).Sublist (frames.map MessageFrame.clipped)
  closed : ∀ front event back, events = front ++ event :: back → .close event.who ∈ front →
    event.Refused
  settled : ∀ who, (final.ends who).Settled (start.ends who).ioTimeout

/-- Whatever the order of the calls and whatever is lost: what an end receives is a part, in order, of
what the other end sent with success, under ascending numbers, and a closed end does nothing. -/
theorem tcp_delivers (opened : Opened start) (run : Run Step start events final) :
    Delivered start final events := by
  refine ⟨?_, ?_, (run_sound opened run).settled⟩
  · intro sender
    obtain ⟨frames, sent⟩ := run_sentBy opened run sender
    obtain ⟨count, few, -, ordered⟩ := sent.numbers
    have wires := run_sublist (run_wire run !sender)
    rw [opened.toward, List.nil_append, sent.puts] at wires
    obtain ⟨taken, part, decoded⟩ :=
      List.sublist_map_iff.mp ((List.sublist_append_left _ _).trans wires)
    have reads := run_reads opened run !sender
    rw [decoded] at reads
    refine ⟨frames, sent.content, ordered.trans ?_, ?_⟩
    · exact List.Sublist.map _ (List.range'_sublist_right.mpr few)
    · rw [reads_clipped reads]
      exact part.map _
  · intro front event back shape member
    subst shape
    obtain ⟨middle, next, before, step⟩ := run.before
    have closed := run_closed before event.who member
    cases step with
    | connect effect =>
        simp only [TcpEvent.who] at closed
        simp only [TcpChannel.connect, closed, if_true] at effect
        cases effect
        rfl
    | close who => trivial
    | lost inside => trivial
    | send effect =>
        simp only [TcpEvent.who] at closed
        simp only [TcpChannel.sendBase, closed, if_true] at effect
        cases effect
        exact ⟨rfl, rfl⟩
    | recv effect first =>
        simp only [TcpEvent.who] at closed
        simp only [TcpChannel.recvBase, closed, if_true] at effect
        cases effect
        exact ⟨rfl, rfl⟩

def sampleTcpLink : TcpLink where
  ends _ := .create 5000 true true (some true)
  toward _ := []

def sampleFrame (number : UInt8) : MessageFrame := { payload := [number], seq := number.toUInt64 }

def sampleTcpEvents : List TcpEvent :=
  [.send true { payload := [1] } .ok (some (encodeFrame (sampleFrame 1))),
    .send true { payload := [2] } .ok (some (encodeFrame (sampleFrame 2))),
    .send true { payload := [3] } .ok (some (encodeFrame (sampleFrame 3))), .lost false,
    .recv false .ok (sampleFrame 1) (some (encodeFrame (sampleFrame 1))),
    .recv false .ok (sampleFrame 3) (some (encodeFrame (sampleFrame 3))),
    .close true, .send true {} .closed none]

theorem tcp_delivers_sample : ∃ final, Delivered sampleTcpLink final sampleTcpEvents := by
  have opened : Opened sampleTcpLink :=
    ⟨fun _ => ⟨5000, true, true, some true, rfl⟩, fun _ => rfl⟩
  have inside : [encodeFrame (sampleFrame 1), encodeFrame (sampleFrame 2), encodeFrame (sampleFrame 3)] =
      [encodeFrame (sampleFrame 1)] ++ encodeFrame (sampleFrame 2) :: [encodeFrame (sampleFrame 3)] := rfl
  have run : ∃ final, Run Step sampleTcpLink sampleTcpEvents final :=
    ⟨_, .cons (@Step.send _ _ _ (.ok ()) _ _ _ rfl) (.cons (@Step.send _ _ _ (.ok ()) _ _ _ rfl)
      (.cons (@Step.send _ _ _ (.ok ()) _ _ _ rfl) (.cons (.lost inside)
        (.cons (@Step.recv _ _ {} _ 0 (fun _ => .ok (encodeFrame (sampleFrame 1))) _ _ _ _ rfl rfl)
          (.cons (@Step.recv _ _ {} _ 0 (fun _ => .ok (encodeFrame (sampleFrame 3))) _ _ _ _ rfl rfl)
            (.cons (.close true) (.cons (@Step.send _ _ _ (.ok ()) _ _ _ rfl) .nil)))))))⟩
  obtain ⟨final, run⟩ := run
  exact ⟨final, tcp_delivers opened run⟩

end TcpLink

end Udaf
