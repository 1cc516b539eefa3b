import Udaf.AbilityA.Background
import Udaf.AbilityA.RateLimit
import Udaf.AbilityA.Scanner

/-!
`Scanner` and `Advertiser` started and stopped by one caller, any number of times. Between the
calls the loop of the background thread turns. `stop` closes the socket that only `create`
opens.
-/

namespace Udaf

open ByteString Runs

inductive Bind where
  | bound
  | inUse
  | failed
  deriving DecidableEq

structure SocketCalls where
  socket : Int
  bind : Bind := .bound
  getsockname : Bool := true
  nonblocking : Bool := true

namespace UdpSocket

variable {β : Type}

def create (calls : SocketCalls) : Except ErrorCode (UdpSocket β) :=
  if calls.socket < 0 then .error .netSendFailed
  else
    match calls.bind with
    | .inUse => .error .resourceBusy
    | .failed => .error .netSendFailed
    | .bound =>
        if calls.getsockname = false then .error .netSendFailed
        else if calls.nonblocking = false then .error .netSendFailed
        else .ok { fd := calls.socket }

def close (socket : UdpSocket β) : UdpSocket β :=
  if 0 ≤ socket.fd then { socket with fd := -1 } else socket

theorem create_open {calls : SocketCalls} {socket : UdpSocket β}
    (created : create calls = .ok socket) : 0 ≤ socket.fd := by
  rw [create] at created
  by_cases invalid : calls.socket < 0
  · rw [if_pos invalid] at created
    cases created
  · rw [if_neg invalid] at created
    cases bound : calls.bind with
    | inUse =>
        rw [bound] at created
        cases created
    | failed =>
        rw [bound] at created
        cases created
    | bound =>
        simp only [bound] at created
        split_ifs at created
        cases created
        exact Int.not_lt.mp invalid

theorem close_closed (socket : UdpSocket β) : socket.close.fd < 0 := by
  rw [close]
  by_cases isOpen : 0 ≤ socket.fd
  · rw [if_pos isOpen]
    exact Int.negSucc_lt_zero 0
  · rw [if_neg isOpen]
    exact Int.not_le.mp isOpen

theorem opened_error {platform : Platform β} {socket : UdpSocket β} {buf : List β} {code : ErrorCode}
    (failed : socket.opened platform buf = .error code) :
    code = .invalidArg ∨ code = .cryptoHmacMismatch := by
  unfold opened pskAeadDecrypt at failed
  by_cases long : socket.psk.length = 32 ∧ 12 < buf.length
  · rw [dif_pos long] at failed
    by_cases short : socket.psk.length ≠ 32 ∨ (buf.drop 12).length < 16
    · rw [dif_pos short] at failed
      cases failed
      exact .inl rfl
    · rw [dif_neg short] at failed
      simp only at failed
      split at failed
      · cases failed
        exact .inr rfl
      · cases failed
  · rw [dif_neg long] at failed
    cases failed

theorem recv_served {platform : Platform β} {socket : UdpSocket β} (isOpen : 0 ≤ socket.fd)
    (timeoutMs : Int) (selected : Select) (received : RecvFrom β) :
    socket.recv platform timeoutMs selected received ≠ .error .netSocketClosed := by
  intro closed
  unfold recv at closed
  rw [if_neg (Int.not_lt.mpr isOpen)] at closed
  by_cases timedOut : 0 ≤ timeoutMs ∧ selected = .timedOut
  · rw [if_pos timedOut] at closed
    cases closed
  · rw [if_neg timedOut] at closed
    by_cases failed : 0 ≤ timeoutMs ∧ selected = .failed
    · rw [if_pos failed] at closed
      cases closed
    · rw [if_neg failed] at closed
      cases received with
      | received buf fits => rcases opened_error closed with same | same <;> cases same
      | again => cases closed
      | failed => cases closed

theorem sendCall_served {platform : Platform β} {inetPton : String → Option (Block UInt8 4)}
    {socket : UdpSocket β} (isOpen : 0 ≤ socket.fd) (call : SendCall β) :
    (socket.sendCall platform inetPton call).result ≠ .error .netSocketClosed := by
  intro closed
  cases checked : (socket.checkRate call.dst call.now).1 with
  | true =>
      rcases (send_passed (Int.not_lt.mpr isOpen) checked).1 _ closed with same | same | same | same <;>
        cases same
  | false =>
      rw [(send_refused (Int.not_lt.mpr isOpen) checked).1] at closed
      cases closed

theorem sendCall_fd {platform : Platform β} {inetPton : String → Option (Block UInt8 4)}
    (socket : UdpSocket β) (call : SendCall β) :
    (socket.sendCall platform inetPton call).after.fd = socket.fd := by
  rw [send_after]
  split
  · rfl
  · exact (checkRate_kept socket call.dst call.now).2

end UdpSocket

namespace Scanner

variable {κ : Type} {platform : Platform UInt8}

theorem authenticate_sock (scanner : Scanner κ) (frame : Bytes) :
    (authenticate platform scanner frame).2.sock = scanner.sock ∧
      (authenticate platform scanner frame).1 ≠ .error .netSocketClosed := by
  unfold authenticate
  cases hmacSha256Verify platform (discoveryKey scanner.psk)
      (frameNonce frame ++ framePayload frame) (frameMac frame) with
  | error code => exact ⟨rfl, fun same => by cases same⟩
  | ok verified =>
      simp only
      split
      · exact ⟨rfl, fun same => by cases same⟩
      · exact ⟨rfl, fun same => by cases same⟩

theorem checkHeader_error {frame : Bytes} {code : ErrorCode}
    (refused : checkHeader frame = .error code) :
    code = .serializeDecodeFailed ∨ code = .serializeVersionMismatch := by
  unfold checkHeader at refused
  split_ifs at refused
  · cases refused
    exact .inl rfl
  · cases refused
    exact .inr rfl
  · cases refused
    exact .inr rfl

theorem handleFrame_sock (scanner : Scanner κ) (frame : Bytes) (now : Int) :
    (scanner.handleFrame platform frame now).2.sock = scanner.sock ∧
      (scanner.handleFrame platform frame now).1 ≠ .error .netSocketClosed := by
  unfold handleFrame
  cases header : checkHeader frame with
  | error code =>
      refine ⟨rfl, ?_⟩
      intro same
      cases same
      rcases checkHeader_error header with same | same <;> cases same
  | ok headed =>
      simp only
      split
      · exact ⟨rfl, fun same => by cases same⟩
      · exact authenticate_sock _ frame

theorem pollOnce_sock (scanner : Scanner κ) (selected : Select) (received : RecvFrom UInt8) (now : Int) :
    (scanner.pollOnce platform selected received now).2.sock = scanner.sock := by
  unfold pollOnce
  cases opened : scanner.sock with
  | none => exact opened
  | some sock =>
      simp only
      cases sock.recv platform 100 selected received with
      | error code => exact opened
      | ok frame => exact (scanner.handleFrame_sock frame now).1.trans opened

theorem pollOnce_served {scanner : Scanner κ} {sock : UdpSocket UInt8} (held : scanner.sock = some sock)
    (isOpen : 0 ≤ sock.fd) (selected : Select) (received : RecvFrom UInt8) (now : Int) :
    (scanner.pollOnce platform selected received now).1 ≠ .error .netSocketClosed := by
  unfold pollOnce
  rw [held]
  have served := @UdpSocket.recv_served _ platform sock isOpen 100 selected received
  simp only
  cases answered : sock.recv platform 100 selected received with
  | error code =>
      rw [answered] at served
      exact fun same => served (congrArg Except.error (Except.error.inj same))
  | ok frame => exact (scanner.handleFrame_sock frame now).2

end Scanner

namespace Advertiser

variable {platform : Platform UInt8} {inetPton : String → Option (Block UInt8 4)}

theorem hmacSha256_error {key message : Bytes} {code : ErrorCode}
    (failed : hmacSha256 platform key message = .error code) :
    code = .invalidArg ∨ code = .internal := by
  unfold hmacSha256 at failed
  split at failed
  · cases failed
    exact .inl rfl
  · split at failed
    · cases failed
      exact .inr rfl
    · cases failed

theorem broadcastOnce_fd (advertiser : Advertiser) (draw : Option (Block UInt8 8)) (now : Int)
    (accepted : SendTo) :
    (advertiser.broadcastOnce platform inetPton draw now accepted).after.sock.map UdpSocket.fd =
      advertiser.sock.map UdpSocket.fd := by
  unfold broadcastOnce
  cases held : advertiser.sock with
  | none => exact congrArg (Option.map UdpSocket.fd) held
  | some sock =>
      have kept : advertiser.sock.map UdpSocket.fd = some sock.fd := by rw [held]; rfl
      simp only
      cases draw with
      | none => exact kept
      | some nonce =>
          simp only
          cases hmacSha256 platform (discoveryKey advertiser.psk)
              (nonce.bytes ++ serializePayload advertiser.payload) with
          | error code => exact kept
          | ok mac =>
              simp only
              split
              · exact kept
              · exact congrArg some (sock.sendCall_fd ⟨_, _, now, accepted⟩)

theorem broadcastOnce_served {advertiser : Advertiser} {sock : UdpSocket UInt8}
    (held : advertiser.sock = some sock) (isOpen : 0 ≤ sock.fd) (draw : Option (Block UInt8 8))
    (now : Int) (accepted : SendTo) :
    (advertiser.broadcastOnce platform inetPton draw now accepted).result ≠
      .error .netSocketClosed := by
  unfold broadcastOnce
  rw [held]
  simp only
  cases draw with
  | none => exact fun same => by cases same
  | some nonce =>
      simp only
      cases digest : hmacSha256 platform (discoveryKey advertiser.psk)
          (nonce.bytes ++ serializePayload advertiser.payload) with
      | error code =>
          intro same
          cases same
          rcases hmacSha256_error digest with same | same <;> cases same
      | ok mac =>
          simp only
          split
          · exact fun same => by cases same
          · exact UdpSocket.sendCall_served isOpen ⟨_, _, now, accepted⟩

end Advertiser

/-- What the two classes have in common: a socket that `stop` closes, a loop that keeps it, and
operations that fail without one. -/
structure Restartable (δ : Type) where
  sock : δ → Option (UdpSocket UInt8)
  close : δ → δ
  Turn : δ → δ → Prop
  Refuses : δ → Prop
  sock_close : ∀ device, sock (close device) = (sock device).map UdpSocket.close
  turn_fd : ∀ {device next}, Turn device next →
    (sock next).map UdpSocket.fd = (sock device).map UdpSocket.fd
  serves : ∀ {device socket}, sock device = some socket → 0 ≤ socket.fd → ¬ Refuses device

def Scanner.restartable (κ : Type) : Restartable (Scanner κ) where
  sock scanner := scanner.sock
  close scanner := { scanner with sock := scanner.sock.map UdpSocket.close }
  Turn scanner next := ∃ platform selected received now,
    next = (scanner.pollOnce platform selected received now).2
  Refuses scanner := ∃ platform selected received now,
    (scanner.pollOnce platform selected received now).1 = .error .netSocketClosed
  sock_close _ := rfl
  turn_fd := by
    rintro scanner _ ⟨platform, selected, received, now, rfl⟩
    rw [scanner.pollOnce_sock]
  serves := by
    rintro scanner sock held isOpen ⟨platform, selected, received, now, closed⟩
    exact scanner.pollOnce_served held isOpen selected received now closed

def Advertiser.restartable : Restartable Advertiser where
  sock advertiser := advertiser.sock
  close advertiser := { advertiser with sock := advertiser.sock.map UdpSocket.close }
  Turn advertiser next := ∃ platform inetPton draw now accepted,
    next = (advertiser.broadcastOnce platform inetPton draw now accepted).after
  Refuses advertiser := ∃ platform inetPton draw now accepted,
    (advertiser.broadcastOnce platform inetPton draw now accepted).result = .error .netSocketClosed
  sock_close _ := rfl
  turn_fd := by
    rintro advertiser _ ⟨platform, inetPton, draw, now, accepted, rfl⟩
    exact advertiser.broadcastOnce_fd draw now accepted
  serves := by
    rintro advertiser sock held isOpen ⟨platform, inetPton, draw, now, accepted, closed⟩
    exact advertiser.broadcastOnce_served held isOpen draw now accepted closed

namespace Restartable

variable {δ : Type}

structure Component (δ : Type) where
  state : Background.State := .kStopped
  device : δ

/-- `start` returns when the new thread has set the state. -/
def Component.start (component : Component δ) : Except ErrorCode Unit × Component δ :=
  if component.state = .kStopped then (.ok (), { component with state := .kRunning })
  else (.error .resourceBusy, component)

def Component.stop (kind : Restartable δ) (component : Component δ) : Component δ :=
  if component.state = .kStopped then component
  else { state := .kStopped, device := kind.close component.device }

inductive Event where
  | started (result : Except ErrorCode Unit)
  | stopped
  | turned

inductive Step (kind : Restartable δ) : Component δ → Event → Component δ → Prop where
  | start {component after : Component δ} {result : Except ErrorCode Unit}
      (starts : component.start = (result, after)) : Step kind component (.started result) after
  | stop {component : Component δ} : Step kind component .stopped (component.stop kind)
  | turn {component : Component δ} {next : δ} (turns : kind.Turn component.device next) :
      Step kind component .turned { component with device := next }

inductive Call where
  | start
  | stop
  deriving DecidableEq

def Event.call : Event → Option Call
  | .started _ => some .start
  | .stopped => some .stop
  | .turned => none

def calls (events : List Event) : List Call := events.filterMap Event.call

def LastStarted (events : List Event) : Prop :=
  ∃ front later, events = front ++ .started (.ok ()) :: later ∧ ∀ event ∈ later, event = .turned

def IsOpen (kind : Restartable δ) (device : δ) : Prop :=
  ∃ socket, kind.sock device = some socket ∧ 0 ≤ socket.fd

/-- In every state of the run in which the last start has succeeded, the socket is open and no
operation says that it is closed. -/
def StaysUsable (kind : Restartable δ) (component : Component δ) (events : List Event)
    (final : Component δ) : Prop :=
  ∀ front back middle, events = front ++ back → Run (Step kind) component front middle →
    Run (Step kind) middle back final → LastStarted front →
      kind.IsOpen middle.device ∧ ¬ kind.Refuses middle.device

theorem calls_concat (events : List Event) (event : Event) :
    calls (events ++ [event]) = calls events ++ event.call.toList := by
  rw [calls, List.filterMap_append]
  cases event <;> rfl

def restarting : List Call := [.start, .stop, .start]

theorem begin_concat (past : List Call) (call : Call) : [Call.start].Sublist (past ++ [call]) ↔
    [Call.start].Sublist past ∨ .start = call ∧ ([] : List Call).Sublist past :=
  @sublist_concat Call [] past .start call

theorem cycle_concat (past : List Call) (call : Call) :
    [Call.start, .stop].Sublist (past ++ [call]) ↔
      [Call.start, .stop].Sublist past ∨ .stop = call ∧ [Call.start].Sublist past :=
  @sublist_concat Call [Call.start] past .stop call

theorem restarting_concat (past : List Call) (call : Call) : restarting.Sublist (past ++ [call]) ↔
    restarting.Sublist past ∨ .start = call ∧ [Call.start, .stop].Sublist past :=
  @sublist_concat Call [Call.start, .stop] past .start call

structure Tracks (kind : Restartable δ) (past : List Call) (component : Component δ) : Prop where
  begun : component.state ≠ .kStopped → [Call.start].Sublist past
  idle : component.state = .kStopped → [Call.start].Sublist past → [Call.start, .stop].Sublist past
  again : component.state ≠ .kStopped → [Call.start, .stop].Sublist past → restarting.Sublist past
  socket : ∃ socket, kind.sock component.device = some socket ∧
    (0 ≤ socket.fd ↔ ¬ [Call.start, .stop].Sublist past)

variable {kind : Restartable δ}

theorem Tracks.start {past : List Call} {component after : Component δ}
    (tracks : Tracks kind past component) (active : after.state ≠ .kStopped)
    (kept : after.device = component.device) : Tracks kind (past ++ [.start]) after := by
  have unstopped : [Call.start, .stop].Sublist (past ++ [.start]) ↔ [Call.start, .stop].Sublist past := by
    rw [cycle_concat]
    exact or_iff_left fun same => Call.noConfusion same.1
  refine ⟨fun _ => List.sublist_append_right _ _, fun stopped => absurd stopped active, ?_, ?_⟩
  · intro _ cycle
    exact (unstopped.mp cycle).append (List.Sublist.refl [Call.start])
  · rw [kept, unstopped]
    exact tracks.socket

theorem Tracks.stop {past : List Call} {component : Component δ}
    (tracks : Tracks kind past component) :
    Tracks kind (past ++ [.stop]) (component.stop kind) := by
  have begins : [Call.start].Sublist (past ++ [.stop]) ↔ [Call.start].Sublist past := by
    rw [begin_concat]
    exact or_iff_left fun same => Call.noConfusion same.1
  have cycles : [Call.start, .stop].Sublist (past ++ [.stop]) ↔
      [Call.start, .stop].Sublist past ∨ [Call.start].Sublist past := by
    rw [cycle_concat]
    exact or_congr_right (and_iff_right rfl)
  have idle : (component.stop kind).state = .kStopped := by
    rw [Component.stop]
    split
    · assumption
    · rfl
  refine ⟨fun active => absurd idle active, ?_, fun active => absurd idle active, ?_⟩
  · intro _ begun
    exact cycles.mpr (.inr (begins.mp begun))
  · obtain ⟨socket, held, opened⟩ := tracks.socket
    rw [Component.stop, cycles]
    by_cases stopped : component.state = .kStopped
    · rw [if_pos stopped]
      refine ⟨socket, held, opened.trans (not_congr ?_)⟩
      exact ⟨.inl, fun either => either.elim id (tracks.idle stopped)⟩
    · rw [if_neg stopped]
      refine ⟨socket.close, by rw [kind.sock_close, held]; rfl, ?_⟩
      have closed := socket.close_closed
      exact iff_of_false (by omega) (not_not.mpr (.inr (tracks.begun stopped)))

theorem step_tracks {past : List Event} {component next : Component δ} {event : Event}
    (step : Step kind component event next) (tracks : Tracks kind (calls past) component) :
    Tracks kind (calls (past ++ [event])) next := by
  rw [calls_concat]
  cases step with
  | start starts =>
      rw [Component.start] at starts
      by_cases stopped : component.state = .kStopped
      · rw [if_pos stopped] at starts
        cases starts
        exact tracks.start Background.State.noConfusion rfl
      · rw [if_neg stopped] at starts
        cases starts
        exact tracks.start stopped rfl
  | stop => exact tracks.stop
  | turn turns =>
      rw [Event.call, Option.toList_none, List.append_nil]
      refine ⟨tracks.begun, tracks.idle, tracks.again, ?_⟩
      obtain ⟨socket, held, opened⟩ := tracks.socket
      have fd := kind.turn_fd turns
      rw [held] at fd
      obtain ⟨next, holds, same⟩ := Option.map_eq_some_iff.mp fd
      exact ⟨next, holds, by rw [same, opened]⟩

theorem run_tracks {device : δ} (opened : kind.IsOpen device) {events : List Event}
    {final : Component δ} (run : Run (Step kind) { device := device } events final) :
    Tracks kind (calls events) final := by
  obtain ⟨socket, held, isOpen⟩ := opened
  refine @Run.history _ _ _ (fun past component => Tracks kind (calls past) component) step_tracks []
    _ _ _ run ⟨fun active => absurd rfl active, fun _ begun => ?_, fun active => absurd rfl active,
      socket, held, iff_of_true isOpen ?_⟩
  · cases begun
  · intro cycle
    cases cycle

theorem run_restarts {device : δ} (opened : kind.IsOpen device) {events : List Event}
    {final : Component δ} (run : Run (Step kind) { device := device } events final)
    (restarts : restarting.Sublist (calls events)) :
    ∃ front back, events = front ++ .started (.ok ()) :: back ∧
      [Call.start, .stop].Sublist (calls front) := by
  induction events using List.reverseRecOn generalizing final with
  | nil => cases restarts
  | append_singleton events event ih =>
      obtain ⟨middle, first, last⟩ := run.split
      have tracks := run_tracks opened first
      have earlier (before : restarting.Sublist (calls events)) :
          ∃ front back, events ++ [event] = front ++ .started (.ok ()) :: back ∧
            [Call.start, .stop].Sublist (calls front) := by
        obtain ⟨front, back, rfl, cycle⟩ := ih first before
        exact ⟨front, back ++ [event], by simp, cycle⟩
      rw [calls_concat] at restarts
      cases last with
      | cons step _ =>
          cases step with
          | start starts =>
              rcases (restarting_concat _ _).mp restarts with before | ⟨_, cycle⟩
              · exact earlier before
              · by_cases stopped : middle.state = .kStopped
                · rw [Component.start, if_pos stopped] at starts
                  cases starts
                  exact ⟨events, [], rfl, cycle⟩
                · exact earlier (tracks.again stopped cycle)
          | stop =>
              rcases (restarting_concat _ _).mp restarts with before | ⟨same, _⟩
              · exact earlier before
              · cases same
          | turn turns =>
              rw [Event.call, Option.toList_none, List.append_nil] at restarts
              exact earlier restarts

theorem staysUsable_iff {device : δ} (opened : kind.IsOpen device) {events : List Event}
    {final : Component δ} (run : Run (Step kind) { device := device } events final) :
    StaysUsable kind { device := device } events final ↔ ¬ restarting.Sublist (calls events) := by
  constructor
  · intro usable restarts
    obtain ⟨front, back, rfl, cycle⟩ := run_restarts opened run restarts
    rw [List.append_cons] at run
    obtain ⟨middle, first, last⟩ := run.split
    obtain ⟨⟨socket, held, isOpen⟩, _⟩ :=
      usable _ back middle (List.append_cons ..) first last ⟨front, [], rfl, by simp⟩
    obtain ⟨other, holds, told⟩ := (run_tracks opened first).socket
    rw [held] at holds
    cases holds
    rw [calls_concat] at told
    exact told.mp isOpen (cycle.trans (List.sublist_append_left _ _))
  · intro once front back middle shape first last started
    obtain ⟨socket, held, told⟩ := (run_tracks opened first).socket
    have isOpen : 0 ≤ socket.fd := by
      refine told.mpr fun cycle => once ?_
      obtain ⟨before, later, rfl, turns⟩ := started
      have quiet : calls later = [] := List.filterMap_eq_nil_iff.mpr fun event member => by
        rw [turns event member]
        rfl
      have split : calls (before ++ .started (.ok ()) :: later) = calls before ++ [.start] := by
        rw [List.append_cons, calls, List.filterMap_append, ← calls, ← calls, quiet, List.append_nil,
          calls_concat]
        rfl
      rw [split] at cycle
      rw [shape, calls, List.filterMap_append, ← calls, split]
      refine List.Sublist.trans ?_ (List.sublist_append_left _ _)
      refine (restarting_concat _ _).mpr (.inr ⟨rfl, ?_⟩)
      exact ((cycle_concat _ _).mp cycle).resolve_right fun same => Call.noConfusion same.1
    exact ⟨⟨socket, held, isOpen⟩, kind.serves held isOpen⟩

def opening (answers : UInt16 → SocketCalls) (port : UInt16) : Option (UdpSocket UInt8) :=
  (UdpSocket.create (answers port)).toOption

theorem opening_open {answers : UInt16 → SocketCalls} {port : UInt16} {socket : UdpSocket UInt8}
    (opened : opening answers port = some socket) : 0 ≤ socket.fd := by
  unfold opening at opened
  cases created : (UdpSocket.create (answers port) : Except ErrorCode (UdpSocket UInt8)) with
  | error code =>
      rw [created] at opened
      cases opened
  | ok socket =>
      rw [created] at opened
      cases opened
      exact UdpSocket.create_open created

theorem scanner_open {κ : Type} {answers : UInt16 → SocketCalls}
    {registry : Option (ServiceRegistry κ)} {cfg : ScannerConfig} {psk : Bytes} {scanner : Scanner κ}
    (created : Scanner.create (opening answers) registry cfg psk = some scanner) :
    (Scanner.restartable κ).IsOpen scanner := by
  unfold Scanner.create at created
  cases opened : opening answers cfg.bindPort with
  | none =>
      rw [opened] at created
      cases created
  | some socket =>
      rw [opened] at created
      cases created
      exact ⟨socket, rfl, opening_open opened⟩

theorem advertiser_open {answers : UInt16 → SocketCalls} {payload : AdvertisementPayload}
    {cfg : AdvertiserConfig} {psk : Bytes} {advertiser : Advertiser}
    (created : Advertiser.create (opening answers) payload cfg psk = some advertiser) :
    Advertiser.restartable.IsOpen advertiser := by
  unfold Advertiser.create at created
  cases opened : opening answers cfg.bindPort with
  | none =>
      rw [opened] at created
      cases created
  | some socket =>
      rw [opened] at created
      cases created
      exact ⟨socket, rfl, opening_open opened⟩

/-- Both components can be used after each successful start, exactly up to the first start behind a stop. -/
theorem discovery_restarts_iff {κ : Type} {answers : UInt16 → SocketCalls} {psk : Bytes} :
    (∀ {registry : Option (ServiceRegistry κ)} {cfg : ScannerConfig} {scanner : Scanner κ}
        {events : List Event} {final : Component (Scanner κ)},
      Scanner.create (opening answers) registry cfg psk = some scanner →
        Run (Step (Scanner.restartable κ)) { device := scanner } events final →
          (StaysUsable (Scanner.restartable κ) { device := scanner } events final ↔
            ¬ [Call.start, .stop, .start].Sublist (calls events))) ∧
      ∀ {payload : AdvertisementPayload} {cfg : AdvertiserConfig} {advertiser : Advertiser}
          {events : List Event} {final : Component Advertiser},
        Advertiser.create (opening answers) payload cfg psk = some advertiser →
          Run (Step Advertiser.restartable) { device := advertiser } events final →
            (StaysUsable Advertiser.restartable { device := advertiser } events final ↔
              ¬ [Call.start, .stop, .start].Sublist (calls events)) :=
  ⟨fun created run => staysUsable_iff (scanner_open created) run,
    fun created run => staysUsable_iff (advertiser_open created) run⟩

def cycle : List Event := [.started (.ok ()), .stopped, .started (.ok ())]

theorem cycle_run {δ : Type} (kind : Restartable δ) (device : δ) : ∃ final,
    Run (Step kind) { device := device } cycle final :=
  ⟨_, .cons (.start rfl) (.cons .stop (.cons (.start rfl) .nil))⟩

theorem restarted_closed :
    ¬ ∀ (answers : UInt16 → SocketCalls) (scanner : Scanner Nat) (events : List Event)
      (final : Component (Scanner Nat)),
      Scanner.create (opening answers) none {} [] = some scanner →
        Run (Step (Scanner.restartable Nat)) { device := scanner } events final →
          StaysUsable (Scanner.restartable Nat) { device := scanner } events final := by
  intro claimed
  obtain ⟨final, run⟩ := cycle_run (Scanner.restartable Nat) { sock := some { fd := 3 } }
  have usable := claimed (fun _ => { socket := 3 }) _ cycle final rfl run
  exact (staysUsable_iff ⟨_, rfl, by decide⟩ run).mp usable (List.Sublist.refl _)

def once : List Event := [.started (.ok ()), .started (.error .resourceBusy), .stopped]

theorem once_run {δ : Type} (kind : Restartable δ) (device : δ) : ∃ final,
    Run (Step kind) { device := device } once final :=
  ⟨_, .cons (.start rfl) (.cons (.start rfl) (.cons .stop .nil))⟩

theorem discovery_restarts_iff_once :
    (∃ scanner final, StaysUsable (Scanner.restartable Nat) { device := scanner } once final) ∧
      ∃ advertiser final,
        StaysUsable Advertiser.restartable { device := advertiser } once final := by
  constructor
  · have created : Scanner.create (opening fun _ => { socket := 3 })
        (none : Option (ServiceRegistry Nat)) {} [] = some { sock := some { fd := 3 } } := rfl
    obtain ⟨final, run⟩ := once_run (Scanner.restartable Nat) { sock := some { fd := 3 } }
    exact ⟨_, final, (discovery_restarts_iff.1 created run).mpr (by decide)⟩
  · have created : Advertiser.create (opening fun _ => { socket := 3 }) { nodeId := ascii "a" } {} [] =
        some { payload := { nodeId := ascii "a" }, cfg := {}, sock := some { fd := 3 } } := rfl
    obtain ⟨final, run⟩ := once_run Advertiser.restartable
      { payload := { nodeId := ascii "a" }, cfg := {}, sock := some { fd := 3 } }
    exact ⟨_, final, ((@discovery_restarts_iff Nat _ _).2 created run).mpr (by decide)⟩

end Restartable

end Udaf
