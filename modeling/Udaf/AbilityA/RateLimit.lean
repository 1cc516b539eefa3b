import Udaf.AbilityA.UdpSocket
import Udaf.Crypto.Session
import Udaf.Lib.SlidingWindow

/-!
The limits of `UdpSocket::send` over any number of calls: five to one address in a second,
and one broadcast in thirty.
-/

namespace Udaf

open ByteString SlidingWindow

structure SendCall (β : Type) where
  payload : List β
  dst : Endpoint
  now : Int
  accepted : SendTo

def SendCall.isTo {β : Type} (addr : String) (call : SendCall β) : Bool :=
  !call.dst.isBroadcast && call.dst.address == addr

def SendCall.isBroadcast {β : Type} (call : SendCall β) : Bool := call.dst.isBroadcast

namespace UdpSocket

variable {β : Type} (platform : Platform β) (inetPton : String → Option (Block UInt8 4))

def sendCall (socket : UdpSocket β) (call : SendCall β) : SendOutcome β :=
  socket.send platform inetPton call.payload call.dst call.now call.accepted

def hand (state : UdpSocket β × List (SendCall β)) (call : SendCall β) :
    UdpSocket β × List (SendCall β) :=
  ((state.1.sendCall platform inetPton call).after,
    if state.1.admits call.dst call.now then state.2 ++ [call] else state.2)

/-- The socket after the calls, and the calls that passed. -/
def traffic (socket : UdpSocket β) (calls : List (SendCall β)) : UdpSocket β × List (SendCall β) :=
  calls.foldl (hand platform inetPton) (socket, [])

theorem traffic_concat (socket : UdpSocket β) (calls : List (SendCall β)) (call : SendCall β) :
    socket.traffic platform inetPton (calls ++ [call]) =
      hand platform inetPton (socket.traffic platform inetPton calls) call := by
  rw [traffic, List.foldl_append]
  rfl

def stampsTo (addr : String) (passed : List (SendCall β)) : List Int :=
  (passed.filter (SendCall.isTo addr)).map SendCall.now

def broadcastStamps (passed : List (SendCall β)) : List Int :=
  (passed.filter SendCall.isBroadcast).map SendCall.now

structure Tracks (clock : Int) (socket : UdpSocket β) (passed : List (SendCall β)) : Prop where
  ordered : (passed.map SendCall.now).Pairwise (· ≤ ·)
  bounded : ∀ call ∈ passed, call.now ≤ clock ∧ call.now ≠ 0
  closed : socket.fd < 0 → passed = []
  history : ∀ addr, Pruned second clock (stampsTo addr passed) (socket.unicastHistory addr)
  spaced : ∀ addr, Spaced second unicastMaxPerSec (stampsTo addr passed)
  lastBroadcast : socket.lastBroadcastAt = (broadcastStamps passed).getLastD 0
  apart : (broadcastStamps passed).Pairwise fun first later => broadcastPeriod ≤ later - first

variable {platform} {inetPton} {socket : UdpSocket β}

theorem toSend_error {payload : List β} {code : ErrorCode} {sealings : List (Sealing β)}
    (failed : socket.toSend platform payload = (.error code, sealings)) :
    code = .invalidArg ∨ code = .internal := by
  rw [toSend, pskAeadEncrypt] at failed
  by_cases sealing : socket.psk.length = 32 ∧ payload ≠ []
  · rw [if_pos sealing, if_neg (fun size => size sealing.1)] at failed
    cases sealed : platform.gcmEncrypt socket.psk (zeroNonce platform) [] (cInt 0) payload
        (cInt payload.length) with
    | none =>
        simp only [List.length_nil, sealed] at failed
        cases failed
        exact .inr rfl
    | some output =>
        simp only [List.length_nil, sealed] at failed
        cases failed
  · rw [if_neg sealing] at failed
    cases failed

theorem send_passed {call : SendCall β} (opened : ¬ socket.fd < 0)
    (passes : (socket.checkRate call.dst call.now).1 = true) :
    (∀ code, (socket.sendCall platform inetPton call).result = .error code →
        code = .invalidArg ∨ code = .internal ∨ code = .netTimeout ∨ code = .netSendFailed) ∧
      (socket.sendCall platform inetPton call).after = (socket.checkRate call.dst call.now).2 := by
  unfold sendCall send
  rw [if_neg opened]
  generalize socket.checkRate call.dst call.now = checked at passes ⊢
  obtain ⟨_, limited⟩ := checked
  cases passes
  simp only
  cases filled : limited.toSend platform call.payload with
  | mk bytes sealings =>
      cases bytes with
      | error code =>
          refine ⟨?_, rfl⟩
          intro other same
          cases same
          exact (toSend_error filled).imp_right .inl
      | ok bytes =>
          simp only
          cases inetPton call.dst.address with
          | none =>
              refine ⟨?_, rfl⟩
              intro code same
              cases same
              exact .inl rfl
          | some address =>
              refine ⟨?_, rfl⟩
              intro code same
              generalize call.accepted = accepted at same
              cases accepted with
              | sent count => cases same
              | again =>
                  cases same
                  exact .inr (.inr (.inl rfl))
              | failed =>
                  cases same
                  exact .inr (.inr (.inr rfl))

theorem send_refused {call : SendCall β} (opened : ¬ socket.fd < 0)
    (refused : (socket.checkRate call.dst call.now).1 = false) :
    (socket.sendCall platform inetPton call).result = .error .netRateLimited ∧
      (socket.sendCall platform inetPton call).after = (socket.checkRate call.dst call.now).2 := by
  unfold sendCall send
  rw [if_neg opened]
  generalize socket.checkRate call.dst call.now = checked at refused ⊢
  obtain ⟨_, limited⟩ := checked
  cases refused
  exact ⟨rfl, rfl⟩

theorem send_after (call : SendCall β) : (socket.sendCall platform inetPton call).after =
    if socket.fd < 0 then socket else (socket.checkRate call.dst call.now).2 := by
  by_cases closed : socket.fd < 0
  · unfold sendCall send
    rw [if_pos closed, if_pos closed]
  · rw [if_neg closed]
    cases checked : (socket.checkRate call.dst call.now).1 with
    | true => exact (send_passed closed checked).2
    | false => exact (send_refused closed checked).2

theorem send_limited_iff (call : SendCall β) :
    (socket.sendCall platform inetPton call).result = .error .netRateLimited ↔
      0 ≤ socket.fd ∧ (socket.checkRate call.dst call.now).1 = false := by
  by_cases closed : socket.fd < 0
  · unfold sendCall send
    rw [if_pos closed]
    exact iff_of_false (fun same => ErrorCode.noConfusion (Except.error.inj same)) (by omega)
  · rw [and_iff_right (by omega)]
    cases checked : (socket.checkRate call.dst call.now).1 with
    | true =>
        refine iff_of_false ?_ Bool.noConfusion
        intro limited
        rcases (send_passed closed checked).1 _ limited with same | same | same | same <;> cases same
    | false => exact iff_of_true (send_refused closed checked).1 rfl

theorem admits_open (opened : ¬ socket.fd < 0) (dst : Endpoint) (now : Int) :
    socket.admits dst now = (socket.checkRate dst now).1 := by
  rw [admits, decide_eq_true (by omega), Bool.true_and]

theorem admits_closed (closed : socket.fd < 0) (dst : Endpoint) (now : Int) :
    socket.admits dst now = false := by
  rw [admits, decide_eq_false (by omega), Bool.false_and]

theorem hand_open (opened : ¬ socket.fd < 0) (passed : List (SendCall β)) (call : SendCall β) :
    hand platform inetPton (socket, passed) call = ((socket.checkRate call.dst call.now).2,
      if (socket.checkRate call.dst call.now).1 then passed ++ [call] else passed) := by
  simp only [hand, send_after, if_neg opened, admits_open opened]

theorem hand_closed (closed : socket.fd < 0) (passed : List (SendCall β)) (call : SendCall β) :
    hand platform inetPton (socket, passed) call = (socket, passed) := by
  simp only [hand, send_after, if_pos closed, admits_closed closed]
  rfl

theorem stamps_concat (select : SendCall β → Bool) (passed : List (SendCall β)) (call : SendCall β) :
    ((passed ++ [call]).filter select).map SendCall.now =
      (passed.filter select).map SendCall.now ++ if select call then [call.now] else [] := by
  rw [List.filter_append, List.map_append]
  cases selected : select call with
  | true => rw [List.filter_cons_of_pos selected, if_pos rfl]; rfl
  | false => rw [List.filter_cons_of_neg (by simp [selected]), if_neg Bool.false_ne_true]; rfl

theorem stampsTo_concat (addr : String) (passed : List (SendCall β)) (call : SendCall β) :
    stampsTo addr (passed ++ [call]) =
      stampsTo addr passed ++ if call.isTo addr then [call.now] else [] :=
  stamps_concat (SendCall.isTo addr) passed call

theorem broadcastStamps_concat (passed : List (SendCall β)) (call : SendCall β) :
    broadcastStamps (passed ++ [call]) =
      broadcastStamps passed ++ if call.isBroadcast then [call.now] else [] :=
  stamps_concat SendCall.isBroadcast passed call

namespace Tracks

variable {clock : Int} {passed : List (SendCall β)} {call : SendCall β}

theorem initial (clock : Int) {fd : Int} {psk : List β} :
    Tracks clock { fd := fd, psk := psk } ([] : List (SendCall β)) where
  ordered := List.Pairwise.nil
  bounded := by
    intro call member
    cases member
  closed := fun _ => rfl
  history := fun addr => .refl _ _ _
  spaced := fun addr => spaced_nil _ _
  lastBroadcast := rfl
  apart := List.Pairwise.nil

theorem later (tracks : Tracks clock socket passed) {now : Int} (order : clock ≤ now) :
    Tracks now socket passed :=
  { tracks with
    bounded := fun call member =>
      ⟨Int.le_trans (tracks.bounded call member).1 order, (tracks.bounded call member).2⟩
    history := fun addr => (tracks.history addr).later order }

theorem stampsTo_ordered (tracks : Tracks clock socket passed) (addr : String) :
    (stampsTo addr passed).Pairwise (· ≤ ·) :=
  tracks.ordered.sublist (List.Sublist.map _ List.filter_sublist)

theorem unicast (tracks : Tracks clock socket passed) (addr : String) :
    socket.checkUnicastRate addr clock =
      if (recent second clock (stampsTo addr passed)).length ≥ unicastMaxPerSec then
        (false, { socket with
          unicastHistory := Function.update socket.unicastHistory addr
            (recent second clock (stampsTo addr passed)) })
      else
        (true, { socket with
          unicastHistory := Function.update socket.unicastHistory addr
            (recent second clock (stampsTo addr passed) ++ [clock]) }) := by
  rw [checkUnicastRate, (tracks.history addr).dropWhile (tracks.stampsTo_ordered addr)]

theorem broadcast (tracks : Tracks clock socket passed) :
    (socket.checkBroadcastRate clock).1 = false ↔
      ∃ stamp ∈ broadcastStamps passed, clock - stamp < broadcastPeriod := by
  have ordered : (broadcastStamps passed).Pairwise (· ≤ ·) :=
    tracks.ordered.sublist (List.Sublist.map _ List.filter_sublist)
  have nonzero : ∀ stamp ∈ broadcastStamps passed, stamp ≠ 0 := by
    intro stamp member
    obtain ⟨call, inside, rfl⟩ := List.mem_map.mp member
    exact (tracks.bounded call (List.mem_filter.mp inside).1).2
  rw [checkBroadcastRate, tracks.lastBroadcast]
  rcases List.eq_nil_or_concat (broadcastStamps passed) with none | ⟨front, last, split⟩
  · rw [none, if_neg (by simp)]
    simp
  · rw [List.concat_eq_append] at split
    rw [split] at ordered nonzero ⊢
    have present := nonzero last (by simp)
    rw [List.getLastD_concat]
    constructor
    · intro refused
      by_cases near : clock - last < broadcastPeriod
      · exact ⟨last, by simp, near⟩
      · rw [if_neg (fun both => near both.2)] at refused
        cases refused
    · rintro ⟨stamp, member, near⟩
      have order : stamp ≤ last := by
        rcases List.mem_append.mp member with before | same
        · exact (List.pairwise_append.mp ordered).2.2 stamp before last (List.mem_singleton_self _)
        · exact Int.le_of_eq (List.mem_singleton.mp same)
      rw [if_pos ⟨present, by omega⟩]

theorem refuse (tracks : Tracks clock socket passed) {next : UdpSocket β}
    (fd : next.fd = socket.fd)
    (history : ∀ addr, Pruned second clock (stampsTo addr passed) (next.unicastHistory addr))
    (last : next.lastBroadcastAt = socket.lastBroadcastAt) : Tracks clock next passed :=
  { tracks with
    closed := by
      rw [fd]
      exact tracks.closed
    history := history
    lastBroadcast := last.trans tracks.lastBroadcast }

theorem pass (tracks : Tracks call.now socket passed) (nonzero : call.now ≠ 0)
    {next : UdpSocket β} (opened : ¬ next.fd < 0)
    (history : ∀ addr, Pruned second call.now (stampsTo addr (passed ++ [call]))
      (next.unicastHistory addr))
    (room : ∀ addr, call.isTo addr = true →
      (recent second call.now (stampsTo addr passed)).length < unicastMaxPerSec)
    (last : next.lastBroadcastAt = (broadcastStamps (passed ++ [call])).getLastD 0)
    (far : call.isBroadcast = true → ∀ stamp ∈ broadcastStamps passed,
      broadcastPeriod ≤ call.now - stamp) : Tracks call.now next (passed ++ [call]) where
  ordered := by
    rw [List.map_append, List.map_singleton, List.pairwise_append]
    refine ⟨tracks.ordered, List.pairwise_singleton _ _, ?_⟩
    intro stamp member now same
    obtain ⟨other, inside, rfl⟩ := List.mem_map.mp member
    rw [List.mem_singleton.mp same]
    exact (tracks.bounded other inside).1
  bounded := by
    intro other member
    rcases List.mem_append.mp member with before | same
    · exact tracks.bounded other before
    · rw [List.mem_singleton.mp same]
      exact ⟨Int.le_refl _, nonzero⟩
  closed := fun closed => absurd closed opened
  history := history
  spaced := by
    intro addr
    rw [stampsTo_concat]
    by_cases mine : call.isTo addr = true
    · rw [if_pos mine]
      exact spaced_concat.mpr ⟨tracks.spaced addr, room addr mine⟩
    · rw [if_neg mine, List.append_nil]
      exact tracks.spaced addr
  lastBroadcast := last
  apart := by
    rw [broadcastStamps_concat]
    by_cases broadcast : call.isBroadcast = true
    · rw [if_pos broadcast, List.pairwise_append]
      refine ⟨tracks.apart, List.pairwise_singleton _ _, ?_⟩
      intro stamp member now same
      rw [List.mem_singleton.mp same]
      exact far broadcast stamp member
    · rw [if_neg broadcast, List.append_nil]
      exact tracks.apart

theorem passUnicast (tracks : Tracks call.now socket passed) (nonzero : call.now ≠ 0)
    (opened : ¬ socket.fd < 0) (narrow : call.dst.isBroadcast = false)
    (room : (recent second call.now (stampsTo call.dst.address passed)).length < unicastMaxPerSec) :
    Tracks call.now { socket with
      unicastHistory := Function.update socket.unicastHistory call.dst.address
        (recent second call.now (stampsTo call.dst.address passed) ++ [call.now]) }
      (passed ++ [call]) := by
  have mine : ∀ addr, call.isTo addr = true ↔ call.dst.address = addr := by
    intro addr
    rw [SendCall.isTo, narrow, Bool.not_false, Bool.true_and, beq_iff_eq]
  refine tracks.pass nonzero opened ?_ ?_ ?_ ?_
  · intro addr
    rw [stampsTo_concat]
    change Pruned _ _ _ (Function.update socket.unicastHistory _ _ addr)
    by_cases same : call.dst.address = addr
    · rw [if_pos ((mine addr).mpr same), same, Function.update_self]
      exact ((tracks.history addr).recent (tracks.stampsTo_ordered addr)).push call.now
    · rw [if_neg (fun own => same ((mine addr).mp own)), List.append_nil,
        Function.update_of_ne (Ne.symm same)]
      exact tracks.history addr
  · intro addr own
    rw [← (mine addr).mp own]
    exact room
  · rw [broadcastStamps_concat, if_neg (by simp [SendCall.isBroadcast, narrow]), List.append_nil]
    exact tracks.lastBroadcast
  · intro wide
    rw [SendCall.isBroadcast, narrow] at wide
    cases wide

theorem passBroadcast (tracks : Tracks call.now socket passed) (nonzero : call.now ≠ 0)
    (opened : ¬ socket.fd < 0) (wide : call.dst.isBroadcast = true)
    (far : ∀ stamp ∈ broadcastStamps passed, broadcastPeriod ≤ call.now - stamp) :
    Tracks call.now { socket with lastBroadcastAt := call.now } (passed ++ [call]) := by
  have others : ∀ addr, call.isTo addr = false := by
    intro addr
    simp [SendCall.isTo, wide]
  refine tracks.pass nonzero opened ?_ ?_ ?_ fun _ => far
  · intro addr
    rw [stampsTo_concat, if_neg (by simp [others addr]), List.append_nil]
    exact tracks.history addr
  · intro addr own
    rw [others] at own
    cases own
  · have own : call.isBroadcast = true := wide
    rw [broadcastStamps_concat, if_pos own, List.getLastD_concat]

theorem refuseUnicast (tracks : Tracks clock socket passed) (addr : String) :
    Tracks clock { socket with
      unicastHistory := Function.update socket.unicastHistory addr
        (recent second clock (stampsTo addr passed)) } passed := by
  refine tracks.refuse rfl ?_ rfl
  intro other
  change Pruned _ _ _ (Function.update socket.unicastHistory _ _ other)
  by_cases same : other = addr
  · rw [same, Function.update_self]
    exact (tracks.history addr).recent (tracks.stampsTo_ordered addr)
  · rw [Function.update_of_ne same]
    exact tracks.history other

theorem hand (tracks : Tracks call.now socket passed) (nonzero : call.now ≠ 0) :
    Tracks call.now (hand platform inetPton (socket, passed) call).1
      (hand platform inetPton (socket, passed) call).2 := by
  by_cases closed : socket.fd < 0
  · rw [hand_closed closed]
    exact tracks
  · rw [hand_open closed, checkRate]
    cases kind : call.dst.isBroadcast with
    | true =>
        rw [if_pos rfl]
        have judged := tracks.broadcast
        rw [checkBroadcastRate] at judged ⊢
        split
        · exact tracks
        · next far =>
            rw [if_neg far] at judged
            refine tracks.passBroadcast nonzero closed kind ?_
            intro stamp member
            by_contra near
            exact Bool.noConfusion (judged.mpr ⟨stamp, member, by omega⟩)
    | false =>
        rw [if_neg Bool.false_ne_true, tracks.unicast]
        split
        · exact tracks.refuseUnicast _
        · next room => exact tracks.passUnicast nonzero closed kind (Nat.lt_of_not_le room)

end Tracks

/-- The clock that each call reads is not before that of the calls before it, and is not zero. -/
structure Clocked (calls : List (SendCall β)) : Prop where
  ordered : calls.Pairwise fun first later => first.now ≤ later.now
  nonzero : ∀ call ∈ calls, call.now ≠ 0

theorem Clocked.front {front back : List (SendCall β)} (clocked : Clocked (front ++ back)) :
    Clocked front where
  ordered := (List.pairwise_append.mp clocked.ordered).1
  nonzero := fun call member => clocked.nonzero call (List.mem_append_left _ member)

theorem Clocked.before {front back : List (SendCall β)} {call : SendCall β}
    (clocked : Clocked (front ++ call :: back)) : ∀ other ∈ front, other.now ≤ call.now :=
  fun other member =>
    (List.pairwise_append.mp clocked.ordered).2.2 other member call (List.mem_cons_self ..)

theorem Clocked.bound {calls : List (SendCall β)} (clocked : Clocked calls) :
    ∃ clock, ∀ call ∈ calls, call.now ≤ clock := by
  rcases List.eq_nil_or_concat calls with rfl | ⟨front, last, rfl⟩
  · exact ⟨0, fun call member => by cases member⟩
  · refine ⟨last.now, ?_⟩
    intro call member
    rw [List.concat_eq_append] at member clocked
    rcases List.mem_append.mp member with earlier | same
    · exact clocked.before call earlier
    · exact Int.le_of_eq (congrArg SendCall.now (List.mem_singleton.mp same))

theorem traffic_tracks {calls : List (SendCall β)} (clocked : Clocked calls) {clock : Int}
    (bound : ∀ call ∈ calls, call.now ≤ clock) (fd : Int) (psk : List β) :
    Tracks clock (traffic platform inetPton { fd := fd, psk := psk } calls).1
      (traffic platform inetPton { fd := fd, psk := psk } calls).2 := by
  induction calls using List.reverseRecOn generalizing clock with
  | nil => exact Tracks.initial clock
  | append_singleton calls call ih =>
      have last : call ∈ calls ++ [call] := List.mem_append_right _ (List.mem_singleton_self _)
      have earlier := ih clocked.front clocked.before
      have nonzero := clocked.nonzero call last
      rw [traffic_concat]
      exact Tracks.later (earlier.hand nonzero) (bound call last)

theorem Tracks.limited_iff {call : SendCall β} {passed : List (SendCall β)}
    (tracks : Tracks call.now socket passed) (narrow : call.dst.isBroadcast = false) :
    (socket.sendCall platform inetPton call).result = .error .netRateLimited ↔
      (recent second call.now (stampsTo call.dst.address passed)).length = unicastMaxPerSec := by
  have past : ∀ stamp ∈ stampsTo call.dst.address passed, stamp ≤ call.now := by
    intro stamp member
    obtain ⟨other, inside, rfl⟩ := List.mem_map.mp member
    exact (tracks.bounded other (List.mem_filter.mp inside).1).1
  have most := recent_length_le (tracks.spaced call.dst.address) past
  rw [send_limited_iff, checkRate, narrow, if_neg Bool.false_ne_true, tracks.unicast]
  by_cases closed : socket.fd < 0
  · refine iff_of_false (by omega) ?_
    rw [tracks.closed closed]
    exact Nat.zero_ne_add_one 4
  · by_cases full : (recent second call.now (stampsTo call.dst.address passed)).length ≥
        unicastMaxPerSec
    · rw [if_pos full]
      exact iff_of_true ⟨by omega, rfl⟩ (Nat.le_antisymm most full)
    · rw [if_neg full]
      exact iff_of_false (fun both => Bool.noConfusion both.2) (by omega)

theorem Tracks.limited_broadcast_iff {call : SendCall β} {passed : List (SendCall β)}
    (tracks : Tracks call.now socket passed) (wide : call.dst.isBroadcast = true) :
    (socket.sendCall platform inetPton call).result = .error .netRateLimited ↔
      ∃ stamp ∈ broadcastStamps passed, call.now - stamp < broadcastPeriod := by
  rw [send_limited_iff, checkRate, wide, if_pos rfl, tracks.broadcast]
  by_cases closed : socket.fd < 0
  · refine iff_of_false (by omega) ?_
    rw [tracks.closed closed]
    rintro ⟨stamp, member, -⟩
    cases member
  · exact and_iff_right (by omega)

structure SameLane (addr : String) (socket other : UdpSocket β) : Prop where
  fd : other.fd = socket.fd
  history : other.unicastHistory addr = socket.unicastHistory addr

theorem checkRate_lane (addr : String) {call : SendCall β} (foreign : call.isTo addr = false) :
    SameLane addr socket (socket.checkRate call.dst call.now).2 := by
  refine ⟨(checkRate_kept socket call.dst call.now).2, ?_⟩
  rw [checkRate]
  cases kind : call.dst.isBroadcast with
  | true =>
      rw [if_pos rfl, checkBroadcastRate]
      split <;> rfl
  | false =>
      have apart : addr ≠ call.dst.address := by
        rintro rfl
        rw [SendCall.isTo, kind, beq_self_eq_true] at foreign
        cases foreign
      rw [if_neg Bool.false_ne_true, checkUnicastRate]
      split
      · exact Function.update_of_ne apart ..
      · exact Function.update_of_ne apart ..

theorem SameLane.checkRate {addr : String} {other : UdpSocket β} (same : SameLane addr socket other)
    {call : SendCall β} (own : call.isTo addr = true) :
    (other.checkRate call.dst call.now).1 = (socket.checkRate call.dst call.now).1 ∧
      SameLane addr (socket.checkRate call.dst call.now).2 (other.checkRate call.dst call.now).2 := by
  obtain ⟨fd, history⟩ := same
  rw [SendCall.isTo, Bool.and_eq_true, Bool.not_eq_true', beq_iff_eq] at own
  obtain ⟨kind, rfl⟩ := own
  simp only [UdpSocket.checkRate, kind, Bool.false_eq_true, if_false, checkUnicastRate, history]
  split
  · exact ⟨rfl, fd, by simp only [Function.update_self]⟩
  · exact ⟨rfl, fd, by simp only [Function.update_self]⟩

theorem hand_foreign {addr : String} {passed : List (SendCall β)} {call : SendCall β}
    (foreign : call.isTo addr = false) :
    SameLane addr socket (hand platform inetPton (socket, passed) call).1 ∧
      (hand platform inetPton (socket, passed) call).2.filter (SendCall.isTo addr) =
        passed.filter (SendCall.isTo addr) := by
  by_cases closed : socket.fd < 0
  · rw [hand_closed closed]
    exact ⟨⟨rfl, rfl⟩, rfl⟩
  · rw [hand_open closed]
    refine ⟨checkRate_lane addr foreign, ?_⟩
    cases (socket.checkRate call.dst call.now).1 with
    | true =>
        rw [if_pos rfl, List.filter_append, List.filter_cons_of_neg (by simp [foreign]),
          List.filter_nil, List.append_nil]
    | false => rw [if_neg Bool.false_ne_true]

theorem hand_own {addr : String} {other : UdpSocket β} (same : SameLane addr socket other)
    {passed : List (SendCall β)} {call : SendCall β} (own : call.isTo addr = true) :
    SameLane addr (hand platform inetPton (socket, passed) call).1
        (hand platform inetPton (other, passed.filter (SendCall.isTo addr)) call).1 ∧
      (hand platform inetPton (other, passed.filter (SendCall.isTo addr)) call).2 =
        (hand platform inetPton (socket, passed) call).2.filter (SendCall.isTo addr) := by
  by_cases closed : socket.fd < 0
  · rw [hand_closed closed, hand_closed (same.fd ▸ closed)]
    exact ⟨same, rfl⟩
  · have ⟨verdict, lane⟩ := same.checkRate own
    rw [hand_open closed, hand_open (same.fd ▸ closed), verdict]
    refine ⟨lane, ?_⟩
    cases (socket.checkRate call.dst call.now).1 with
    | true =>
        rw [if_pos rfl, if_pos rfl, List.filter_append, List.filter_cons_of_pos own, List.filter_nil]
    | false => rw [if_neg Bool.false_ne_true, if_neg Bool.false_ne_true]

theorem traffic_separate (addr : String) (socket : UdpSocket β) (calls : List (SendCall β)) :
    SameLane addr (socket.traffic platform inetPton calls).1
        (socket.traffic platform inetPton (calls.filter (SendCall.isTo addr))).1 ∧
      (socket.traffic platform inetPton (calls.filter (SendCall.isTo addr))).2 =
        (socket.traffic platform inetPton calls).2.filter (SendCall.isTo addr) := by
  induction calls using List.reverseRecOn with
  | nil => exact ⟨⟨rfl, rfl⟩, rfl⟩
  | append_singleton calls call ih =>
      obtain ⟨same, passed⟩ := ih
      rw [List.filter_append, traffic_concat]
      generalize socket.traffic platform inetPton calls = state at same passed ⊢
      obtain ⟨before, through⟩ := state
      cases own : call.isTo addr with
      | true =>
          rw [List.filter_cons_of_pos own, List.filter_nil, traffic_concat]
          generalize socket.traffic platform inetPton (calls.filter (SendCall.isTo addr)) =
            lane at same passed ⊢
          obtain ⟨other, _⟩ := lane
          cases passed
          exact hand_own same own
      | false =>
          have ⟨kept, left⟩ := @hand_foreign β platform inetPton before addr through call own
          rw [List.filter_cons_of_neg (by simp [own]), List.filter_nil, List.append_nil, left]
          exact ⟨⟨same.fd.trans kept.fd.symm, same.history.trans kept.history.symm⟩, passed⟩

variable (platform) (inetPton)

structure RateLimited (socket : UdpSocket β) (calls : List (SendCall β)) : Prop where
  windows : ∀ addr start, ((stampsTo addr (socket.traffic platform inetPton calls).2).filter
    fun stamp => start ≤ stamp ∧ stamp ≤ start + second).length ≤ unicastMaxPerSec
  unicast : ∀ earlier call later, calls = earlier ++ call :: later → call.dst.isBroadcast = false →
    (((socket.traffic platform inetPton earlier).1.sendCall platform inetPton call).result =
        .error .netRateLimited ↔
      (recent second call.now
        (stampsTo call.dst.address (socket.traffic platform inetPton earlier).2)).length = 5)
  separate : ∀ addr, (socket.traffic platform inetPton (calls.filter (SendCall.isTo addr))).2 =
    (socket.traffic platform inetPton calls).2.filter (SendCall.isTo addr)
  apart : (broadcastStamps (socket.traffic platform inetPton calls).2).Pairwise
    fun first later => broadcastPeriod ≤ later - first
  broadcast : ∀ earlier call later, calls = earlier ++ call :: later → call.dst.isBroadcast = true →
    (((socket.traffic platform inetPton earlier).1.sendCall platform inetPton call).result =
        .error .netRateLimited ↔
      ∃ stamp ∈ broadcastStamps (socket.traffic platform inetPton earlier).2,
        call.now - stamp < broadcastPeriod)

end UdpSocket

/-- The limits hold of every history of sends, whatever their addresses. -/
theorem udp_rate_limited {β : Type} (platform : Platform β)
    (inetPton : String → Option (Block UInt8 4)) (fd : Int) (psk : List β) {calls : List (SendCall β)}
    (clocked : UdpSocket.Clocked calls) :
    UdpSocket.RateLimited platform inetPton { fd := fd, psk := psk } calls := by
  have before : ∀ earlier call later, calls = earlier ++ call :: later →
      UdpSocket.Tracks call.now
        (UdpSocket.traffic platform inetPton { fd := fd, psk := psk } earlier).1
        (UdpSocket.traffic platform inetPton { fd := fd, psk := psk } earlier).2 := by
    rintro earlier call later rfl
    exact UdpSocket.traffic_tracks clocked.front clocked.before fd psk
  obtain ⟨clock, bound⟩ := clocked.bound
  have whole : UdpSocket.Tracks clock
      (UdpSocket.traffic platform inetPton { fd := fd, psk := psk } calls).1
      (UdpSocket.traffic platform inetPton { fd := fd, psk := psk } calls).2 :=
    UdpSocket.traffic_tracks clocked bound fd psk
  refine ⟨?_, ?_, ?_, whole.apart, ?_⟩
  · intro addr start
    exact window_le (whole.spaced addr) start
  · intro earlier call later split narrow
    exact (before earlier call later split).limited_iff narrow
  · intro addr
    exact (UdpSocket.traffic_separate addr _ calls).2
  · intro earlier call later split wide
    exact (before earlier call later split).limited_broadcast_iff wide

theorem udp_rate_limited_burst :
    let dst : Endpoint := { address := "127.0.0.1", port := 19999 }
    let wide : Endpoint := { address := "127.255.255.255", port := 19998, isBroadcast := true }
    let calls : List (SendCall UInt8) := [⟨[1], dst, 1, .sent 1⟩, ⟨[1], dst, 2, .sent 1⟩,
      ⟨[1], wide, 3, .sent 1⟩, ⟨[1], dst, 3, .sent 1⟩, ⟨[1], dst, 4, .sent 1⟩,
      ⟨[1], dst, 5, .sent 1⟩, ⟨[1], dst, 6, .sent 1⟩, ⟨[1], wide, 7, .sent 1⟩]
    UdpSocket.RateLimited samplePlatform (fun _ => some (Block.fill 4 127)) { fd := 3 } calls := by
  intro dst wide calls
  have clocked : UdpSocket.Clocked calls := ⟨by decide, by decide⟩
  exact udp_rate_limited samplePlatform _ 3 [] clocked

end Udaf
