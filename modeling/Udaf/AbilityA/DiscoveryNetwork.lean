import Udaf.AbilityA.ReplayWindow
import Mathlib.Logic.Function.Basic

/-!
Any number of advertisers and scanners with one PSK. The network loses, delays, repeats
and makes up frames as it likes, but it has no authentication code for a message that
none of the advertisers has computed one for. Each scanner reads a clock of its own.
-/

namespace Udaf

open ByteString Runs

namespace DiscoveryNetwork

structure Network (ι σ κ : Type) where
  advertisers : ι → Advertiser
  scanners : σ → Scanner κ
  clocks : σ → Int
  aired : List Bytes := []

inductive Event (ι σ : Type) where
  | broadcast (advertiser : ι) (frame : Bytes)
  | heard (scanner : σ) (frame : Bytes) (now : Int) (answer : Except ErrorCode Bool)
  | unregistered (scanner : σ) (nodeId : Bytes)

def coded (frame : Bytes) : Bytes := frameNonce frame ++ framePayload frame

/-- The registry of a scanner is its owner's to change, too. -/
def withdraw {κ : Type} (scanner : Scanner κ) (nodeId : Bytes) : Scanner κ :=
  { scanner with registry := scanner.registry.map fun registry => (registry.unregisterNode nodeId).2 }

variable {ι σ κ : Type}

inductive Step [DecidableEq ι] [DecidableEq σ] (platform : Platform UInt8) (inetPton : String → Option (Block UInt8 4)) :
    Network ι σ κ → Event ι σ → Network ι σ κ → Prop where
  | broadcast {network : Network ι σ κ} (advertiser : ι) (nonce : Block UInt8 8) (now : Int)
      (accepted : SendTo) {outcome : BroadcastOutcome} {frame : Bytes}
      (performed : (network.advertisers advertiser).broadcastOnce platform inetPton (some nonce) now
        accepted = outcome) (built : outcome.frame = some frame) :
      Step platform inetPton network (.broadcast advertiser frame)
        { network with
          advertisers := Function.update network.advertisers advertiser outcome.after
          aired := frame :: network.aired }
  | heard {network : Network ι σ κ} (scanner : σ) (frame : Bytes) (now : Int)
      (later : network.clocks scanner ≤ now)
      (unforged : Authentic platform (network.scanners scanner).psk frame →
        ∃ sent ∈ network.aired, coded sent = coded frame)
      {answer : Except ErrorCode Bool} {after : Scanner κ}
      (handled : (network.scanners scanner).handleFrame platform frame now = (answer, after)) :
      Step platform inetPton network (.heard scanner frame now answer)
        { network with
          scanners := Function.update network.scanners scanner after
          clocks := Function.update network.clocks scanner now }
  | unregistered {network : Network ι σ κ} (scanner : σ) (nodeId : Bytes) :
      Step platform inetPton network (.unregistered scanner nodeId)
        { network with
          scanners := Function.update network.scanners scanner
            (withdraw (network.scanners scanner) nodeId) }

structure Opened (psk : Bytes) (network : Network ι σ κ) : Prop where
  advertisers : ∀ advertiser, ∃ openSocket payload cfg, payload.Fits ∧
    Advertiser.create openSocket payload cfg psk = some (network.advertisers advertiser)
  scanners : ∀ scanner, ∃ openSocket registry cfg, registry.nodes = ∅ ∧
    Scanner.create openSocket (some registry) cfg psk = some (network.scanners scanner)
  quiet : network.aired = []

variable [DecidableEq σ]

def Event.sets (scanner : σ) (nodeId : Bytes) : Event ι σ → Option (Option RegistryEntry)
  | .heard heardBy frame _ (.ok true) =>
      let payload := parsePayload (framePayload frame)
      if heardBy = scanner ∧ payload.nodeId = nodeId then some (some (advertisedEntry payload)) else none
  | .unregistered owner removed => if owner = scanner ∧ removed = nodeId then some none else none
  | _ => none

def Event.callOf (scanner : σ) : Event ι σ → Option (Bytes × Int)
  | .heard heardBy frame now _ => if heardBy = scanner then some (frame, now) else none
  | _ => none

def callsOf (scanner : σ) (events : List (Event ι σ)) : List (Bytes × Int) :=
  events.filterMap (Event.callOf scanner)

section Scanners

variable {platform : Platform UInt8} {scanner : Scanner κ} {frame : Bytes} {now : Int}

def bare (scanner : Scanner κ) : Scanner κ := { scanner with registry := none }

theorem authenticate_bare :
    (bare scanner).authenticate platform frame =
      ((scanner.authenticate platform frame).1, bare (scanner.authenticate platform frame).2) := by
  unfold Scanner.authenticate bare
  cases hmacSha256Verify platform (discoveryKey scanner.psk) (frameNonce frame ++ framePayload frame)
    (frameMac frame) with
  | error code => rfl
  | ok passed =>
      simp only
      split <;> rfl

theorem handleFrame_bare :
    (bare scanner).handleFrame platform frame now =
      ((scanner.handleFrame platform frame now).1, bare (scanner.handleFrame platform frame now).2) := by
  cases header : checkHeader frame with
  | error code => rw [Scanner.handleFrame_headless header, Scanner.handleFrame_headless header]
  | ok passed =>
      cases found : (scanner.recent now).lookup (Hex.hexOf (frameNonce frame)) with
      | none =>
          rw [@Scanner.handleFrame_new κ platform (bare scanner) frame now header found,
            Scanner.handleFrame_new header found]
          exact @authenticate_bare κ platform (scanner.noted frame now) frame
      | some stamp =>
          have seen : ((scanner.recent now).lookup (Hex.hexOf (frameNonce frame))).isSome := by
            rw [found]
            rfl
          rw [@Scanner.handleFrame_seen κ platform (bare scanner) frame now header seen,
            Scanner.handleFrame_seen header seen]
          rfl

theorem handleFrame_registry :
    ((scanner.handleFrame platform frame now).1 = .ok true ∧
      (parsePayload (framePayload frame)).nodeId ≠ [] ∧
      (scanner.handleFrame platform frame now).2.registry = (scanner.registered frame).registry) ∨
    ((scanner.handleFrame platform frame now).1 ≠ .ok true ∧
      (scanner.handleFrame platform frame now).2.registry = scanner.registry) := by
  unfold Scanner.handleFrame
  cases checkHeader frame with
  | error code => exact .inr ⟨(by intro same; cases same), rfl⟩
  | ok passed =>
      simp only
      split
      · exact .inr ⟨(by intro same; cases same), rfl⟩
      · unfold Scanner.authenticate
        split
        · exact .inr ⟨(by intro same; cases same), rfl⟩
        · simp only
          split
          · exact .inr ⟨(by intro same; cases same), rfl⟩
          · rename_i named
            exact .inl ⟨rfl, by simpa using named, rfl⟩

def shown (scanner : Scanner κ) (nodeId : Bytes) : Option RegistryEntry :=
  scanner.registry.bind fun registry => registry.nodes.lookup nodeId

theorem shown_registered {registry : ServiceRegistry κ} (registers : scanner.registry = some registry)
    (named : (parsePayload (framePayload frame)).nodeId ≠ []) (nodeId : Bytes) :
    shown (scanner.registered frame) nodeId =
      if (parsePayload (framePayload frame)).nodeId = nodeId then
        some (advertisedEntry (parsePayload (framePayload frame)))
      else shown scanner nodeId := by
  have inserted := @registerNode_named κ registry (advertisedEntry (parsePayload (framePayload frame)))
    named
  simp only [shown, Scanner.registered, registers, Option.map_some, Option.bind_some, inserted,
    Table.lookup_set]
  exact if_congr eq_comm rfl rfl

theorem shown_withdraw (removed nodeId : Bytes) :
    shown (withdraw scanner removed) nodeId = if removed = nodeId then none else shown scanner nodeId := by
  unfold shown withdraw
  cases scanner.registry with
  | none => simp
  | some registry =>
      simp only [Option.map_some, Option.bind_some]
      rw [ServiceRegistry.unregisterNode]
      cases found : registry.nodes.lookup removed with
      | none =>
          by_cases same : removed = nodeId
          · rw [if_pos same, ← same, found]
          · rw [if_neg same]
      | some entry =>
          simp only [Table.lookup_remove]
          exact if_congr eq_comm rfl rfl

end Scanners

section Advertisers

variable {platform : Platform UInt8} {inetPton : String → Option (Block UInt8 4)}
  {advertiser : Advertiser} {nonce : Block UInt8 8} {now : Int} {accepted : SendTo}

theorem broadcastOnce_kept (draw : Option (Block UInt8 8)) :
    (advertiser.broadcastOnce platform inetPton draw now accepted).after.payload = advertiser.payload ∧
      (advertiser.broadcastOnce platform inetPton draw now accepted).after.psk = advertiser.psk := by
  unfold Advertiser.broadcastOnce
  split
  · exact ⟨rfl, rfl⟩
  · split
    · exact ⟨rfl, rfl⟩
    · simp only
      split
      · exact ⟨rfl, rfl⟩
      · split <;> exact ⟨rfl, rfl⟩

theorem broadcastOnce_built (digests : platform.Digests) {frame : Bytes}
    (built : (advertiser.broadcastOnce platform inetPton (some nonce) now accepted).frame = some frame) :
    Scanner.Headed frame ∧ framePayload frame = serializePayload advertiser.payload ∧
      Authentic platform advertiser.psk frame := by
  cases opened : advertiser.sock with
  | none =>
      rw [Advertiser.broadcastOnce, opened] at built
      cases built
  | some sock =>
      obtain ⟨made, same, headed, -, carried, authentic⟩ :=
        @broadcastOnce_frame platform digests inetPton advertiser sock opened nonce now accepted
      rw [built] at same
      cases same
      exact ⟨headed, carried, authentic⟩

end Advertisers

theorem accepted_authentic {platform : Platform UInt8} (digests : platform.Digests)
    {scanner : Scanner κ} {frame : Bytes} {now : Int}
    (accepted : (scanner.handleFrame platform frame now).1 = .ok true) :
    Scanner.Headed frame ∧ Authentic platform scanner.psk frame := by
  cases header : checkHeader frame with
  | error code =>
      rw [Scanner.handleFrame_headless header] at accepted
      cases accepted
  | ok passed =>
      refine ⟨header, ?_⟩
      by_contra forged
      cases found : (scanner.recent now).lookup (Hex.hexOf (frameNonce frame)) with
      | none =>
          rw [Scanner.handleFrame_new header found,
            Scanner.authenticate_eq digests _ (checkHeader_ok header)] at accepted
          rw [if_neg (show ¬ Authentic platform (scanner.noted frame now).psk frame from forged)]
            at accepted
          cases accepted
      | some stamp =>
          rw [Scanner.handleFrame_seen header (by rw [found]; rfl)] at accepted
          cases accepted

section Runs

variable {platform : Platform UInt8} {inetPton : String → Option (Block UInt8 4)} {psk : Bytes}
  {start network next final : Network ι σ κ} {past events : List (Event ι σ)} {event : Event ι σ}

theorem callsOf_concat (scanner : σ) (past : List (Event ι σ)) (event : Event ι σ) :
    callsOf scanner (past ++ [event]) = callsOf scanner past ++ (event.callOf scanner).toList := by
  rw [callsOf, List.filterMap_append, callsOf]
  cases found : event.callOf scanner with
  | none => simp [found]
  | some call => simp [found]

structure Carries (platform : Platform UInt8) (psk frame : Bytes) (payload : AdvertisementPayload) :
    Prop where
  headed : Scanner.Headed frame
  payload : framePayload frame = serializePayload payload
  authentic : Authentic platform (keptPsk psk) frame

structure Sent (platform : Platform UInt8) (psk : Bytes) (start : Network ι σ κ)
    (past : List (Event ι σ)) (network : Network ι σ κ) : Prop where
  kept : ∀ advertiser,
    (network.advertisers advertiser).payload = (start.advertisers advertiser).payload ∧
      (network.advertisers advertiser).psk = keptPsk psk
  aired : ∀ sent ∈ network.aired, ∃ advertiser, .broadcast advertiser sent ∈ past
  carries : ∀ advertiser sent, .broadcast advertiser sent ∈ past →
    Carries platform psk sent (start.advertisers advertiser).payload

structure Heard (platform : Platform UInt8) (psk : Bytes) (start : Network ι σ κ)
    (past : List (Event ι σ)) (network : Network ι σ κ) : Prop where
  same : ∀ scanner, bare (network.scanners scanner) =
    (bare (start.scanners scanner)).listen platform (callsOf scanner past)
  clocked : ∀ scanner, Scanner.Clocked (callsOf scanner past)
  reached : ∀ scanner, ∀ call ∈ callsOf scanner past, call.2 ≤ network.clocks scanner

structure Listed (past : List (Event ι σ)) (network : Network ι σ κ) : Prop where
  registers : ∀ scanner, ∃ registry, (network.scanners scanner).registry = some registry
  shown : ∀ scanner nodeId, shown (network.scanners scanner) nodeId =
    latest (Event.sets scanner nodeId) past

theorem callsOf_heard (scanner : σ) (frame : Bytes) (now : Int) (answer : Except ErrorCode Bool)
    (later : List (Event ι σ)) :
    callsOf scanner (.heard scanner frame now answer :: later) = (frame, now) :: callsOf scanner later :=
  List.filterMap_cons_some (if_pos rfl)

theorem sets_entry {scanner : σ} {nodeId : Bytes} {entry : RegistryEntry}
    (sets : event.sets scanner nodeId = some (some entry)) :
    ∃ frame now, event = .heard scanner frame now (.ok true) ∧
      (parsePayload (framePayload frame)).nodeId = nodeId ∧
      entry = advertisedEntry (parsePayload (framePayload frame)) := by
  unfold Event.sets at sets
  split at sets
  · simp only at sets
    split at sets
    · rename_i here
      cases sets
      obtain ⟨rfl, named⟩ := here
      exact ⟨_, _, rfl, named, rfl⟩
    · cases sets
  · split at sets <;> cases sets
  · cases sets

theorem Heard.quiet (traced : Heard platform psk start past network)
    (silent : ∀ scanner, event.callOf scanner = none)
    (scanners : ∀ scanner, bare (next.scanners scanner) = bare (network.scanners scanner))
    (clocks : next.clocks = network.clocks) : Heard platform psk start (past ++ [event]) next := by
  have calls (scanner : σ) : callsOf scanner (past ++ [event]) = callsOf scanner past := by
    rw [callsOf_concat, silent, Option.toList_none, List.append_nil]
  constructor
  · intro scanner
    rw [calls, scanners]
    exact traced.same scanner
  · intro scanner
    rw [calls]
    exact traced.clocked scanner
  · intro scanner
    rw [calls, clocks]
    exact traced.reached scanner

theorem Listed.replace (traced : Listed past network) {scanner : σ} {after : Scanner κ}
    (scanners : next.scanners = Function.update network.scanners scanner after)
    (registers : ∃ registry, after.registry = some registry)
    (here : ∀ nodeId, DiscoveryNetwork.shown after nodeId =
      (event.sets scanner nodeId).getD (DiscoveryNetwork.shown (network.scanners scanner) nodeId))
    (elsewhere : ∀ other nodeId, other ≠ scanner → event.sets other nodeId = none) :
    Listed (past ++ [event]) next := by
  constructor
  · intro other
    rw [scanners]
    by_cases same : other = scanner
    · rw [same, Function.update_self]
      exact registers
    · rw [Function.update_of_ne same]
      exact traced.registers other
  · intro other nodeId
    rw [latest_concat, scanners]
    by_cases same : other = scanner
    · rw [same, Function.update_self, here, traced.shown]
    · rw [Function.update_of_ne same, elsewhere other nodeId same]
      exact traced.shown other nodeId

theorem opened_heard : Heard platform psk start [] start where
  same _ := rfl
  clocked _ := List.Pairwise.nil
  reached := by
    intro scanner call member
    cases member

theorem opened_listed (opened : Opened psk start) : Listed [] start := by
  constructor
  · intro scanner
    obtain ⟨openSocket, registry, cfg, -, created⟩ := opened.scanners scanner
    exact ⟨registry, (created_scanner created).1⟩
  · intro scanner nodeId
    obtain ⟨openSocket, registry, cfg, empty, created⟩ := opened.scanners scanner
    rw [shown, (created_scanner created).1, Option.bind_some, empty]
    rfl

omit [DecidableEq σ] in
theorem opened_sent (opened : Opened psk start) : Sent platform psk start [] start where
  kept := by
    intro advertiser
    obtain ⟨openSocket, payload, cfg, -, created⟩ := opened.advertisers advertiser
    exact ⟨rfl, (created_advertiser created).2.1⟩
  aired := by
    intro sent member
    rw [opened.quiet] at member
    cases member
  carries := by
    intro advertiser sent member
    cases member

omit [DecidableEq σ] in
theorem Sent.quiet (traced : Sent platform psk start past network)
    (silent : ∀ advertiser sent, event ≠ .broadcast advertiser sent)
    (advertisers : next.advertisers = network.advertisers) (aired : next.aired = network.aired) :
    Sent platform psk start (past ++ [event]) next where
  kept := by
    rw [advertisers]
    exact traced.kept
  aired := by
    intro sent member
    rw [aired] at member
    obtain ⟨advertiser, before⟩ := traced.aired sent member
    exact ⟨advertiser, List.mem_append_left _ before⟩
  carries := by
    intro advertiser sent member
    rcases List.mem_append.mp member with old | new
    · exact traced.carries advertiser sent old
    · exact absurd (List.mem_singleton.mp new).symm (silent advertiser sent)

variable [DecidableEq ι]

theorem step_sent (digests : platform.Digests) (step : Step platform inetPton network event next)
    (traced : Sent platform psk start past network) :
    Sent platform psk start (past ++ [event]) next := by
  cases step with
  | broadcast advertiser nonce now accepted performed built =>
      cases performed
      constructor
      · intro other
        by_cases same : other = advertiser
        · subst same
          obtain ⟨payload, key⟩ := @broadcastOnce_kept platform inetPton
            (network.advertisers other) now accepted (some nonce)
          simp only [Function.update_self]
          exact ⟨payload.trans (traced.kept other).1, key.trans (traced.kept other).2⟩
        · simp only [Function.update_of_ne same]
          exact traced.kept other
      · intro sent member
        rcases List.mem_cons.mp member with rfl | old
        · exact ⟨advertiser, by simp⟩
        · obtain ⟨earlier, before⟩ := traced.aired sent old
          exact ⟨earlier, List.mem_append_left _ before⟩
      · intro other sent member
        rcases List.mem_append.mp member with old | new
        · exact traced.carries other sent old
        · cases List.mem_singleton.mp new
          obtain ⟨headed, payload, authentic⟩ := broadcastOnce_built digests built
          rw [(traced.kept advertiser).1] at payload
          rw [(traced.kept advertiser).2] at authentic
          exact ⟨headed, payload, authentic⟩
  | heard => exact traced.quiet (fun _ _ same => by cases same) rfl rfl
  | unregistered => exact traced.quiet (fun _ _ same => by cases same) rfl rfl

theorem step_heard (step : Step platform inetPton network event next)
    (traced : Heard platform psk start past network) :
    Heard platform psk start (past ++ [event]) next := by
  cases step with
  | broadcast => exact traced.quiet (fun _ => rfl) (fun _ => rfl) rfl
  | unregistered scanner nodeId =>
      refine traced.quiet (fun _ => rfl) ?_ rfl
      intro other
      by_cases here : other = scanner
      · subst here
        simp only [Function.update_self]
        rfl
      · simp only [Function.update_of_ne here]
  | @heard scanner frame now later _ answer after handled =>
      obtain ⟨same, clocked, reached⟩ := traced
      have calls (other : σ) := callsOf_concat other past (.heard scanner frame now answer)
      simp only [Event.callOf] at calls
      constructor
      · intro other
        rw [calls]
        by_cases here : other = scanner
        · subst here
          have turned := @handleFrame_bare κ platform (network.scanners other) frame now
          rw [handled, same other] at turned
          rw [if_pos rfl, Option.toList_some, Scanner.listen_concat, Scanner.hear, turned]
          simp only [Function.update_self]
        · rw [if_neg (Ne.symm here), Option.toList_none, List.append_nil]
          simp only [Function.update_of_ne here]
          exact same other
      · intro other
        rw [calls]
        by_cases here : other = scanner
        · subst here
          rw [if_pos rfl, Option.toList_some]
          refine List.pairwise_append.mpr ⟨clocked other, List.pairwise_singleton _ _, ?_⟩
          intro call member new same
          rw [List.mem_singleton.mp same]
          exact Int.le_trans (reached other call member) later
        · rw [if_neg (Ne.symm here), Option.toList_none, List.append_nil]
          exact clocked other
      · intro other call member
        rw [calls] at member
        by_cases here : other = scanner
        · subst here
          rw [if_pos rfl, Option.toList_some] at member
          simp only [Function.update_self]
          rcases List.mem_append.mp member with old | new
          · exact Int.le_trans (reached other call old) later
          · rw [List.mem_singleton.mp new]
        · rw [if_neg (Ne.symm here), Option.toList_none, List.append_nil] at member
          simp only [Function.update_of_ne here]
          exact reached other call member

theorem step_listed (step : Step platform inetPton network event next)
    (traced : Listed past network) : Listed (past ++ [event]) next := by
  cases step with
  | broadcast advertiser nonce now accepted performed built =>
      refine ⟨traced.registers, ?_⟩
      intro scanner nodeId
      rw [latest_concat]
      exact traced.shown scanner nodeId
  | unregistered scanner removed =>
      obtain ⟨registry, kept⟩ := traced.registers scanner
      refine traced.replace rfl ⟨(registry.unregisterNode removed).2, ?_⟩ ?_ ?_
      · rw [withdraw, kept]
        rfl
      · intro nodeId
        rw [shown_withdraw, Event.sets]
        by_cases same : removed = nodeId
        · rw [if_pos same, if_pos ⟨rfl, same⟩]
          rfl
        · rw [if_neg same, if_neg (fun both => same both.2)]
          rfl
      · intro other nodeId apart
        exact if_neg (fun both => apart both.1.symm)
  | @heard scanner frame now later _ answer after handled =>
      have outcome := @handleFrame_registry κ platform (network.scanners scanner) frame now
      rw [handled] at outcome
      obtain ⟨registry, kept⟩ := traced.registers scanner
      rcases outcome with ⟨accepted, named, registered⟩ | ⟨refused, unchanged⟩
      · cases accepted
        have entered : after.registry = some
            (registry.registerNode (advertisedEntry (parsePayload (framePayload frame)))).2 := by
          rw [registered, Scanner.registered, kept]
          rfl
        refine traced.replace rfl ⟨_, entered⟩ ?_ ?_
        · intro nodeId
          rw [show shown after nodeId = shown ((network.scanners scanner).registered frame) nodeId from
            congrArg (Option.bind · _) registered, shown_registered kept named]
          simp only [Event.sets, true_and]
          split <;> rfl
        · intro other nodeId apart
          exact if_neg (fun both => apart both.1.symm)
      · have silent (other : σ) (nodeId : Bytes) :
            (Event.heard scanner frame now answer : Event ι σ).sets other nodeId = none := by
          unfold Event.sets
          split
          · rename_i same
            cases same
            exact absurd rfl refused
          · rename_i same
            cases same
          · rfl
        refine traced.replace rfl ⟨registry, unchanged.trans kept⟩ ?_ fun other nodeId _ => silent other nodeId
        intro nodeId
        rw [silent, shown, unchanged]
        rfl

theorem run_traced (digests : platform.Digests) (opened : Opened psk start)
    (run : Run (Step platform inetPton) start events final) :
    Sent platform psk start events final ∧ Heard platform psk start events final ∧
      Listed events final := by
  have sent := run.history (step_sent digests) (opened_sent opened)
  have heard := run.history (fun step traced => step_heard step traced)
    (opened_heard : Heard platform psk start [] start)
  have listed := run.history step_listed (opened_listed opened)
  exact ⟨sent, heard, listed⟩

/-- What the scanners of a network make of the frames they hear. -/
structure Agreed (start : Network ι σ κ) (events : List (Event ι σ)) (final : Network ι σ κ) :
    Prop where
  /-- A frame is accepted only if an advertiser has sent it before. -/
  origin : ∀ past scanner frame now later, events = past ++ .heard scanner frame now (.ok true) :: later →
    ∃ advertiser, .broadcast advertiser frame ∈ past ∧
      parsePayload (framePayload frame) = (start.advertisers advertiser).payload
  /-- A nonce is accepted once in a window. -/
  once : ∀ past scanner first firstAt middle second secondAt later,
    events = past ++ .heard scanner first firstAt (.ok true) ::
      (middle ++ .heard scanner second secondAt (.ok true) :: later) →
    (start.scanners scanner).cfg.Fits → frameNonce first = frameNonce second →
    (start.scanners scanner).cfg.replayWindow.toInt * UdpSocket.second < secondAt - firstAt
  /-- What an advertiser has sent is accepted if its nonce is new in the window. -/
  delivered : ∀ past scanner frame now answer later,
    events = past ++ .heard scanner frame now answer :: later →
    (∃ advertiser, .broadcast advertiser frame ∈ past ∧
      (start.advertisers advertiser).payload.nodeId ≠ []) → (start.scanners scanner).cfg.Fits →
    (∀ earlier earlierAt result, .heard scanner earlier earlierAt result ∈ past →
      Scanner.Headed earlier → frameNonce earlier = frameNonce frame →
      (start.scanners scanner).cfg.replayWindow.toInt * UdpSocket.second < now - earlierAt) →
    answer = .ok true
  /-- The registry shows, for each node, what was accepted last and not withdrawn since. -/
  listed : ∀ scanner nodeId, shown (final.scanners scanner) nodeId =
    latest (Event.sets scanner nodeId) events
  /-- Nothing else is in it than what its node advertised. -/
  genuine : ∀ scanner nodeId entry, shown (final.scanners scanner) nodeId = some entry →
    ∃ advertiser sent, .broadcast advertiser sent ∈ events ∧
      (start.advertisers advertiser).payload.nodeId = nodeId ∧
      entry = advertisedEntry (start.advertisers advertiser).payload

theorem run_answer {scanner : σ} {frame : Bytes} {now : Int} {answer : Except ErrorCode Bool}
    {later : List (Event ι σ)}
    (run : Run (Step platform inetPton) start (past ++ .heard scanner frame now answer :: later) final) :
    ((bare (start.scanners scanner)).listen platform (callsOf scanner past)).answer platform
      (frame, now) = answer := by
  obtain ⟨network, next, before, step⟩ := run.before
  have heard := before.history (fun step traced => step_heard step traced)
    (opened_heard : Heard platform [] start [] start)
  rw [List.nil_append] at heard
  cases step with
  | heard _ _ _ _ _ handled =>
      have turned := @handleFrame_bare κ platform (network.scanners scanner) frame now
      rw [heard.same scanner, handled] at turned
      rw [Scanner.answer, turned]

structure Created (psk : Bytes) (start : Network ι σ κ) : Prop where
  fits : ∀ advertiser, (start.advertisers advertiser).payload.Fits
  key : ∀ scanner, (start.scanners scanner).psk = keptPsk psk
  empty : ∀ scanner, (start.scanners scanner).seenNonces = ∅

omit [DecidableEq σ] [DecidableEq ι] in
theorem Opened.created (opened : Opened psk start) : Created psk start where
  fits := by
    intro advertiser
    obtain ⟨openSocket, payload, cfg, fits, created⟩ := opened.advertisers advertiser
    rw [(created_advertiser created).1]
    exact fits
  key := by
    intro scanner
    obtain ⟨openSocket, registry, cfg, -, created⟩ := opened.scanners scanner
    exact (created_scanner created).2
  empty := by
    intro scanner
    obtain ⟨openSocket, registry, cfg, -, created⟩ := opened.scanners scanner
    unfold Scanner.create at created
    split at created
    · cases created
    · rw [← Option.some.inj created]

theorem Carries.parsed {frame : Bytes} {payload : AdvertisementPayload}
    (carried : framePayload frame = serializePayload payload) (fits : payload.Fits) :
    parsePayload (framePayload frame) = payload := by
  rw [carried]
  exact parsePayload_serializePayload fits

theorem frameNonce_length {frame : Bytes} (headed : Scanner.Headed frame) :
    (frameNonce frame).length = 8 := by
  have long := checkHeader_ok headed
  rw [discoveryHeaderSize] at long
  rw [frameNonce, List.length_take, List.length_drop]
  omega

theorem same_frame {frame sent : Bytes} (headedSent : Scanner.Headed sent)
    (headed : Scanner.Headed frame) (authentic : Authentic platform (keptPsk psk) frame)
    (authenticSent : Authentic platform (keptPsk psk) sent) (same : coded sent = coded frame) :
    sent = frame := by
  obtain ⟨nonces, payloads⟩ := List.append_inj same
    ((frameNonce_length headedSent).trans (frameNonce_length headed).symm)
  have codes : frameMac sent = frameMac frame := by
    have computed := authentic.2
    rw [← nonces, ← payloads, authenticSent.2] at computed
    exact Option.some.inj computed
  rw [checkHeader_frame headedSent, checkHeader_frame headed, nonces, codes, payloads]

theorem run_origin (digests : platform.Digests) (opened : Opened psk start) {scanner : σ}
    {frame : Bytes} {now : Int} {later : List (Event ι σ)}
    (run : Run (Step platform inetPton) start
      (past ++ .heard scanner frame now (.ok true) :: later) final) :
    ∃ advertiser, .broadcast advertiser frame ∈ past ∧
      parsePayload (framePayload frame) = (start.advertisers advertiser).payload := by
  obtain ⟨network, next, before, step⟩ := run.before
  obtain ⟨sent, heard, -⟩ := run_traced digests opened before
  have key : (network.scanners scanner).psk = keptPsk psk := by
    have same := congrArg Scanner.psk (heard.same scanner)
    rw [(@Scanner.listen_kept κ platform _ _).2] at same
    exact same.trans (opened.created.key scanner)
  cases step with
  | heard _ _ _ _ unforged handled =>
      obtain ⟨headed, authentic⟩ := @accepted_authentic κ platform digests (network.scanners scanner)
        frame now (by rw [handled])
      obtain ⟨aired, member, same⟩ := unforged authentic
      obtain ⟨advertiser, broadcast⟩ := sent.aired aired member
      have carried := sent.carries advertiser aired broadcast
      obtain rfl := same_frame carried.headed headed (key ▸ authentic) carried.authentic same
      exact ⟨advertiser, broadcast, Carries.parsed carried.payload (opened.created.fits advertiser)⟩

theorem run_once {scanner : σ} {first second : Bytes} {firstAt secondAt : Int}
    {middle later : List (Event ι σ)}
    (run : Run (Step platform inetPton) start (past ++ .heard scanner first firstAt (.ok true) ::
      (middle ++ .heard scanner second secondAt (.ok true) :: later)) final)
    (same : frameNonce first = frameNonce second) :
    (start.scanners scanner).window < secondAt - firstAt := by
  have accepted := run_answer run
  have joined : past ++ Event.heard scanner first firstAt (.ok true) ::
        (middle ++ .heard scanner second secondAt (.ok true) :: later) =
      (past ++ .heard scanner first firstAt (.ok true) :: middle) ++
        .heard scanner second secondAt (.ok true) :: later := by simp
  have again := run_answer (joined ▸ run)
  have heard := run.history (fun step traced => step_heard step traced)
    (opened_heard : Heard platform [] start [] start)
  have clocked := heard.clocked scanner
  have front : callsOf scanner (past ++ Event.heard scanner first firstAt (.ok true) :: middle) =
      callsOf scanner past ++ (first, firstAt) :: callsOf scanner middle := by
    rw [callsOf, List.filterMap_append]
    exact congrArg _ (callsOf_heard ..)
  have whole : callsOf scanner (past ++ Event.heard scanner first firstAt (.ok true) ::
        (middle ++ .heard scanner second secondAt (.ok true) :: later)) =
      (callsOf scanner past ++ (first, firstAt) :: (callsOf scanner middle ++ [(second, secondAt)])) ++
        callsOf scanner later := by
    rw [joined, callsOf, List.filterMap_append, ← callsOf, front, ← callsOf, callsOf_heard]
    simp
  rw [List.nil_append, whole] at clocked
  rw [front] at again
  exact @Scanner.accepted_apart κ platform (bare (start.scanners scanner)) _ _ _ _
    (List.pairwise_append.mp clocked).1 accepted again same

theorem run_delivered (digests : platform.Digests) (opened : Opened psk start) {scanner : σ}
    {frame : Bytes} {now : Int} {answer : Except ErrorCode Bool} {later : List (Event ι σ)}
    (run : Run (Step platform inetPton) start (past ++ .heard scanner frame now answer :: later) final)
    {advertiser : ι} (broadcast : .broadcast advertiser frame ∈ past)
    (named : (start.advertisers advertiser).payload.nodeId ≠ [])
    (unseen : ∀ earlier earlierAt result, .heard scanner earlier earlierAt result ∈ past →
      Scanner.Headed earlier → frameNonce earlier = frameNonce frame →
      (start.scanners scanner).window < now - earlierAt) : answer = .ok true := by
  have created := opened.created
  obtain ⟨network, next, before, -⟩ := run.before
  obtain ⟨headed, payload, authentic⟩ :=
    (run_traced digests opened before).1.carries advertiser frame broadcast
  rw [← run_answer run]
  refine @Scanner.new_nonce_accepted κ platform digests (bare (start.scanners scanner))
    (created.empty scanner) _ _ _ headed ?_ ?_ ?_
  · rw [bare, created.key]
    exact authentic
  · rw [Carries.parsed payload (created.fits advertiser)]
    exact named
  · intro earlier member header nonce
    obtain ⟨event, inside, call⟩ := List.mem_filterMap.mp member
    unfold Event.callOf at call
    split at call
    · split at call
      · rename_i here
        cases call
        cases here
        exact unseen _ _ _ inside header nonce
      · cases call
    · cases call

/-- Any number of advertisers and scanners, with an attacker who may put anything on the air. -/
theorem network_agreed (digests : platform.Digests) (opened : Opened psk start)
    (run : Run (Step platform inetPton) start events final) : Agreed start events final := by
  have listed := (run_traced digests opened run).2.2
  constructor
  · rintro past scanner frame now later rfl
    exact run_origin digests opened run
  · rintro past scanner first firstAt middle second secondAt later rfl fits same
    rw [← Scanner.window_fits fits]
    exact run_once run same
  · rintro past scanner frame now answer later rfl ⟨advertiser, broadcast, named⟩ fits unseen
    rw [← Scanner.window_fits fits] at unseen
    exact run_delivered digests opened run broadcast named unseen
  · exact listed.shown
  · intro scanner nodeId entry found
    rw [listed.shown] at found
    obtain ⟨past, event, later, rfl, sets, -⟩ := latest_eq_some.mp found
    obtain ⟨frame, now, rfl, named, rfl⟩ := sets_entry sets
    obtain ⟨advertiser, broadcast, payload⟩ := run_origin digests opened run
    rw [payload] at named ⊢
    exact ⟨advertiser, frame, List.mem_append_left _ broadcast, named, rfl⟩

end Runs

def sampleNetwork : Network Unit Unit Nat where
  advertisers _ :=
    { payload := samplePayload, cfg := {}, psk := List.replicate 32 0, sock := some sampleSocket }
  scanners _ := { registry := some {}, psk := List.replicate 32 0, sock := some sampleSocket }
  clocks _ := 0

theorem sampleNetwork_opened : Opened (List.replicate 32 0) sampleNetwork where
  advertisers _ := ⟨fun _ => some sampleSocket, samplePayload, {},
    ⟨by decide, by decide, by decide, by decide, by decide⟩, rfl⟩
  scanners _ := ⟨fun _ => some sampleSocket, {}, {}, rfl, rfl⟩
  quiet := rfl

def sampleEvents : List (Event Unit Unit) :=
  [.broadcast () (sampleFrame sampleCode), .heard () (sampleFrame sampleCode) 7 (.ok true),
    .heard () (sampleFrame sampleCode) 8 (.ok false)]

theorem sampleEvents_run :
    ∃ final, Run (Step discoveryPlatform sampleInetPton) sampleNetwork sampleEvents final := by
  have built : ((sampleNetwork.advertisers ()).broadcastOnce discoveryPlatform sampleInetPton
      (some (sampleCount 1 8)) 1 (.sent 80)).frame = some (sampleFrame sampleCode) := by decide +kernel
  have authentic : Authentic discoveryPlatform (List.replicate 32 0) (sampleFrame sampleCode) := by
    decide +kernel
  have named : (parsePayload (framePayload (sampleFrame sampleCode))).nodeId ≠ [] := by decide +kernel
  have accepts := @Scanner.handleFrame_accepts Nat discoveryPlatform (sampleNetwork.scanners ())
    (sampleFrame sampleCode) 7 discoveryPlatform_digests rfl rfl authentic named
  exact ⟨_, .cons (.broadcast () (sampleCount 1 8) 1 (.sent 80) rfl built)
    (.cons (.heard () _ 7 (by decide) (fun _ => ⟨_, List.mem_cons_self, rfl⟩) accepts)
      (.cons (.heard () _ 8 (by decide) (fun _ => ⟨_, List.mem_cons_self, rfl⟩)
        (Scanner.handleFrame_seen rfl rfl)) .nil))⟩

theorem network_agreed_sample :
    ∃ final, Agreed sampleNetwork sampleEvents final ∧
      shown (final.scanners ()) (ascii "n1") = some (advertisedEntry samplePayload) := by
  obtain ⟨final, run⟩ := sampleEvents_run
  have agreed := network_agreed discoveryPlatform_digests sampleNetwork_opened run
  refine ⟨final, agreed, ?_⟩
  rw [agreed.listed]
  decide +kernel

end DiscoveryNetwork

end Udaf
