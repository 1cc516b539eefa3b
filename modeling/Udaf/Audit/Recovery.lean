import Udaf.Audit.Integrity
import Udaf.Lib.FrameLog

/-!
An audit file cut at any byte behind its first line. The constructor reads what
is left up to the cut, a torn line included, and `append` writes at the end of
the file, so a record behind a torn line shares it.
-/

namespace Udaf

open ByteString Decimal Hex FrameLog HashChain OutStream Runs Text

inductive AuditStop where
  | torn
  | garbled
  deriving DecidableEq, Repr

def decodeEvent (bytes : Bytes) : Except AuditStop (AuditEvent × Nat) :=
  match takeField newline bytes with
  | none => .error .torn
  | some (line, _) =>
      match parseEventLine line with
      | none => .error .garbled
      | some (event, jsonTail) => .ok ({ event with paramsJson := jsonTail }, line.length + 1)

theorem decodeEvent_bound {bytes : Bytes} {event : AuditEvent} {size : Nat}
    (found : decodeEvent bytes = .ok (event, size)) : 0 < size ∧ size ≤ bytes.length := by
  rw [decodeEvent] at found
  split at found
  · cases found
  · rename_i line rest split
    obtain ⟨-, rfl⟩ := takeField_some split
    split at found
    · cases found
    · cases found
      simp only [List.length_append, List.length_cons]
      omega

theorem decodeEvent_line {event : AuditEvent} (rest : Bytes) (legible : event.Legible) :
    decodeEvent (event.line ++ [newline] ++ rest) =
      .ok (event, (event.line ++ [newline]).length) := by
  have cut := takeField_here legible.line_newline rest
  rw [List.append_assoc, List.singleton_append]
  simp only [decodeEvent, cut, legible.parse_line, List.length_append, List.length_singleton]
  rfl

theorem torn_plain {event : AuditEvent} (legible : event.Legible) {count : Nat}
    (short : count < (event.line ++ [newline]).length) :
    (event.line ++ [newline]).take count = event.line.take count ∧
      newline ∉ event.line.take count := by
  simp only [List.length_append, List.length_singleton] at short
  constructor
  · rw [List.take_append_of_le_length (by omega)]
  · intro member
    exact legible.line_newline (List.mem_of_mem_take member)

def eventCodec : Codec AuditEvent AuditStop where
  decode := decodeEvent
  encode event := event.line ++ [newline]
  Valid := AuditEvent.Legible
  torn := .torn
  decode_bound := decodeEvent_bound
  decode_encode := decodeEvent_line
  decode_torn legible short := by
    obtain ⟨same, clean⟩ := torn_plain legible short
    rw [same, decodeEvent, takeField_none clean]

theorem encodeAll_events (events : List AuditEvent) :
    encodeAll eventCodec events = unlines (events.map AuditEvent.line) := by
  simp [encodeAll, unlines, List.flatMap_map, eventCodec]

def genesisLength (head : Bytes) : Nat := (genesisTag ++ head ++ [newline]).length

theorem take_auditText {head : Bytes} {cut : Nat} (behind : genesisLength head ≤ cut)
    (events : List AuditEvent) :
    (auditText head events).take cut =
      auditText head [] ++ (encodeAll eventCodec events).take (cut - genesisLength head) := by
  have split : auditText head events = auditText head [] ++ encodeAll eventCodec events := by
    rw [encodeAll_events]
    exact auditText_append head [] events
  have first : (auditText head []).length = genesisLength head := by
    simp [auditText, genesisLength]
  rw [split, List.take_append, List.take_of_length_le (by omega), first]

def OnOwnLine (file : Option Bytes) (event : AuditEvent) : Prop :=
  ∃ content, file = some content ∧
    ∃ line ∈ lines content, parseEventLine line = some (event.bare, event.paramsJson)

def AuditOp.AppendsClean : AuditOp → Prop
  | .append request _ => request.Clean
  | .reopen _ => False

/-- A logger constructed on `content` loses none of the events in `whole` and none that it
appends, and a logger constructed afterwards goes on behind the last of them. -/
structure RecoversAppends (sha512 : Bytes → Bytes) (content : Bytes) (whole : List AuditEvent) :
    Prop where
  kept : ∀ genesis calls site,
    Run (AuditStep sha512) (AuditSite.opened sha512 (some content) genesis) calls site →
      (∀ call ∈ calls, call.op.AppendsClean) → ∀ event ∈ whole, OnOwnLine site.file event
  added : ∀ genesis front middle request attempt reply next back site,
    Run (AuditStep sha512) (AuditSite.opened sha512 (some content) genesis) front middle →
      AuditStep sha512 middle ⟨.append request attempt, reply⟩ next →
        Run (AuditStep sha512) next back site → (∀ call ∈ front, call.op.AppendsClean) →
          request.Clean → (∀ call ∈ back, call.op.AppendsClean) →
            OnOwnLine site.file (middle.logger.eventFor sha512 request)
  continued : ∀ genesis front middle request attempt sequence next,
    Run (AuditStep sha512) (AuditSite.opened sha512 (some content) genesis) front middle →
      AuditStep sha512 middle ⟨.append request attempt, .appended (.ok sequence)⟩ next →
        (∀ call ∈ front, call.op.AppendsClean) → request.Clean →
          ∀ later, (AuditSite.opened sha512 next.file later).logger.sequence = sequence

variable {sha512 : Bytes → Bytes} {head : Bytes}

theorem appendsClean_clean {calls : List AuditCall} (appends : ∀ call ∈ calls, call.op.AppendsClean) :
    ∀ call ∈ calls, call.op.Clean := by
  rintro ⟨op, reply⟩ member
  cases op with
  | append request attempt => exact appends _ member
  | reopen genesis => trivial

theorem chainSite_ownLine (plain : Plain head) {requests : List AuditRequest}
    (clean : ∀ request ∈ requests, request.Clean) {event : AuditEvent}
    (member : event ∈ chainEvents sha512 { prevHash := head } requests) :
    OnOwnLine (chainSite sha512 head requests).file event := by
  have legible := @chainEvents_legible sha512 { prevHash := head } requests plain clean
  have content := lines_auditText plain legible []
  rw [List.append_nil, lines_nil, List.append_nil] at content
  refine ⟨_, rfl, event.line, ?_, (legible event member).parse_line⟩
  rw [content]
  exact List.mem_cons_of_mem _ (List.mem_map_of_mem member)

theorem appends_chain (plain : Plain head) {requests : List AuditRequest}
    (clean : ∀ request ∈ requests, request.Clean) {calls : List AuditCall} {site : AuditSite}
    (run : Run (AuditStep sha512) (chainSite sha512 head requests) calls site)
    (appends : ∀ call ∈ calls, call.op.AppendsClean) :
    site = chainSite sha512 head (requests ++ requestsOf calls) ∧
      ∀ request ∈ requests ++ requestsOf calls, request.Clean := by
  have allowed := appendsClean_clean appends
  refine ⟨run_chain plain run (reopensClean_of_clean clean allowed), ?_⟩
  intro request member
  rcases List.mem_append.mp member with early | late
  · exact clean request early
  · exact clean_requests allowed request late

theorem appended_chain (plain : Plain head) {requests : List AuditRequest}
    (clean : ∀ request ∈ requests, request.Clean) {genesis : Genesis} {front : List AuditCall}
    {middle next : AuditSite} {request : AuditRequest} {attempt : Attempt} {reply : AuditReply}
    (before : Run (AuditStep sha512)
      (AuditSite.opened sha512 (chainSite sha512 head requests).file genesis) front middle)
    (step : AuditStep sha512 middle ⟨.append request attempt, reply⟩ next)
    (cleanFront : ∀ call ∈ front, call.op.AppendsClean) (cleanRequest : request.Clean) :
    middle = chainSite sha512 head (requests ++ requestsOf front) ∧
      reply = .appended (.ok (UInt64.ofNat ((requests ++ requestsOf front).length + 1))) ∧
      next = chainSite sha512 head (requests ++ requestsOf front ++ [request]) ∧
      ∀ other ∈ requests ++ requestsOf front ++ [request], other.Clean := by
  rw [construct_chain plain clean genesis] at before
  obtain ⟨reached, cleanReached⟩ := appends_chain plain clean before cleanFront
  obtain ⟨effect, succeeds⟩ := step
  rw [reached, append_site succeeds] at effect
  obtain ⟨replied, there⟩ := Prod.mk.inj effect
  refine ⟨reached, replied.symm, there.symm, ?_⟩
  intro other member
  rcases List.mem_append.mp member with early | last
  · exact cleanReached other early
  · rw [List.mem_singleton.mp last]
    exact cleanRequest

theorem chain_recovers (plain : Plain head) {requests : List AuditRequest}
    (clean : ∀ request ∈ requests, request.Clean) :
    RecoversAppends sha512 (auditText head (chainEvents sha512 { prevHash := head } requests))
      (chainEvents sha512 { prevHash := head } requests) where
  kept genesis calls site run appends event member := by
    have opened := @construct_chain sha512 head plain requests clean genesis
    rw [chainSite] at opened
    rw [opened] at run
    obtain ⟨final, allClean⟩ := appends_chain plain clean run appends
    rw [final]
    apply chainSite_ownLine plain allClean
    rw [chainEvents_append]
    exact List.mem_append_left _ member
  added genesis front middle request attempt reply next back site before step after cleanFront
      cleanRequest cleanBack := by
    obtain ⟨reached, -, there, cleanNext⟩ :=
      appended_chain plain clean before step cleanFront cleanRequest
    rw [there] at after
    obtain ⟨final, allClean⟩ := appends_chain plain cleanNext after cleanBack
    rw [final, reached]
    apply chainSite_ownLine plain allClean
    rw [chainEvents_append, chainEvents_concat]
    exact List.mem_append_left _ (List.mem_append_right _ (List.mem_singleton_self _))
  continued genesis front middle request attempt sequence next before step cleanFront cleanRequest
      later := by
    obtain ⟨-, replied, there, cleanNext⟩ :=
      appended_chain plain clean before step cleanFront cleanRequest
    cases replied
    rw [there, construct_chain plain cleanNext, AuditLogger.sequence, chainSite, loggerAfter_seq,
      List.length_append, List.length_singleton]
    simp

theorem chainEvents_sequence {requests : List AuditRequest} {index : Nat} {event : AuditEvent}
    (found : (chainEvents sha512 { prevHash := head } requests)[index]? = some event) :
    event.sequence = UInt64.ofNat (index + 1) := by
  have numbered := @chainEvents_numbered sha512 { prevHash := head } 0 rfl requests
  have here := congrArg (fun pairs => pairs[index]?) numbered
  simp only [List.getElem?_map, found, List.getElem?_zipIdx, Option.map_some] at here
  cases there : requests[index]? with
  | none => simp [there] at here
  | some request =>
      simp only [there, Option.map_some, Option.some.injEq, Prod.mk.injEq] at here
      rw [here.1]
      congr 1
      omega

theorem replayLines_plain {content : List Bytes} {logger : AuditLogger}
    (plain : Plain logger.prevHash) : Plain (replayLines sha512 content logger).prevHash := by
  induction content generalizing logger with
  | nil => exact plain
  | cons line content ih =>
      rw [replayLines]
      split
      · exact ih plain
      · split
        · exact plain
        · split
          · exact ih (sha512Hex_plain _)
          · exact plain

theorem replayLines_last (line : Bytes) (logger : AuditLogger) :
    replayLines sha512 [line] logger = logger ∨
      ∃ event jsonTail, parseEventLine line = some (event, jsonTail) ∧
        (replayLines sha512 [line] logger).seq = event.sequence := by
  rw [replayLines]
  split
  · exact .inl rfl
  · split
    · exact .inl rfl
    · rename_i event jsonTail parsed
      split
      · exact .inr ⟨event, jsonTail, parsed, rfl⟩
      · exact .inl rfl

theorem parse_torn {event parsed : AuditEvent} (legible : event.Legible) {count : Nat}
    {jsonTail : Bytes} (found : parseEventLine (event.line.take count) = some (parsed, jsonTail)) :
    parsed.sequence = event.sequence := by
  obtain ⟨sequence, action, timestampNs, cut, read, -⟩ := parseEventLine_some found
  obtain ⟨number, name, time, whole, stored, -⟩ := parseEventLine_some legible.parse_line
  have longer := cutFields_more cut (event.line.drop count)
  rw [List.take_append_drop, whole] at longer
  simp only [Option.some.injEq, Prod.mk.injEq, List.cons.injEq] at longer
  rw [← longer.1.1, stored] at read
  exact (Option.some.inj read).symm

theorem genesis_unread (plain : Plain head) : parseEventLine (genesisTag ++ head) = none := by
  apply parseEventLine_short
  rw [List.count_append, List.count_eq_zero_of_not_mem plain.1]
  decide

theorem glued_other {event appended : AuditEvent} (fresh : appended.Legible) {count : Nat}
    (positive : 0 < count) (numbered : 0 < event.sequence.toNat) :
    parseEventLine (event.line.take count ++ appended.line) ≠
      some (appended.bare, appended.paramsJson) := by
  intro parsed
  obtain ⟨sequence, action, timestampNs, cut, read, -⟩ := parseEventLine_some parsed
  have own : cutFields bar 7 appended.line = some (appended.fields, appended.paramsJson) :=
    cutFields_join (fun field member => (fresh.fields_plain field member).1) _
  by_cases separated : bar ∈ event.line.take count
  · have longer := cutFields_prefixed own separated cut
    exact absurd longer (Nat.lt_irrefl _)
  · have digits : event.line.take count = (decimal event.sequence.toNat).take count := by
      have shape : event.line = decimal event.sequence.toNat ++ bar ::
          joinFields bar event.fields.tail event.paramsJson := rfl
      rw [shape] at separated ⊢
      rw [List.take_append] at separated ⊢
      cases past : count - (decimal event.sequence.toNat).length with
      | zero => rw [List.take_zero, List.append_nil]
      | succ more => simp [past] at separated
    have glued := cutFields_behind own separated
    rw [cut] at glued
    simp only [Option.some.injEq, Prod.mk.injEq, List.cons.injEq] at glued
    rw [glued.1.1, digits] at read
    exact absurd (stoull_prefixed numbered positive read) (Nat.lt_irrefl _)

def blankRequest : AuditRequest where
  action := .nodeHeartbeat
  actor := []
  target := []
  paramsJson := []
  now := 0

theorem part_chain {requests : List AuditRequest} {part : List AuditEvent}
    (starts : part <+: chainEvents sha512 { prevHash := head } requests) :
    ∃ kept, kept <+: requests ∧ part = chainEvents sha512 { prevHash := head } kept := by
  refine ⟨requests.take part.length, List.take_prefix _ _, ?_⟩
  rw [← chainEvents_take]
  exact List.prefix_iff_eq_take.mp starts

theorem torn_opened (plain : Plain head) {kept : List AuditRequest}
    (clean : ∀ request ∈ kept, request.Clean) {event : AuditEvent} (legible : event.Legible)
    (numbered : event.sequence = UInt64.ofNat (kept.length + 1)) {torn : Bytes}
    (nonempty : torn ≠ []) (oneLine : newline ∉ torn) (front : torn <+: event.line)
    (genesis : Genesis) :
    ∃ logger, AuditSite.opened sha512
        (some (auditText head (chainEvents sha512 { prevHash := head } kept) ++ torn)) genesis =
          ⟨logger, some (auditText head (chainEvents sha512 { prevHash := head } kept) ++ torn)⟩ ∧
      Plain logger.prevHash ∧
      (logger.seq = UInt64.ofNat kept.length ∨ logger.seq = UInt64.ofNat (kept.length + 1)) := by
  have content := lines_auditText plain
    (@chainEvents_legible sha512 { prevHash := head } kept plain clean) torn
  have replay := @replayLines_chain sha512 { prevHash := head } kept plain clean [torn]
  have seq := @loggerAfter_seq sha512 { prevHash := head } kept
  refine ⟨replayLines sha512 [torn] (loggerAfter sha512 { prevHash := head } kept), ?_, ?_, ?_⟩
  · simp only [AuditSite.opened, AuditLogger.construct, Option.getD_some, content,
      List.cons_append, genesis_line, if_true, lines_tail oneLine nonempty, replay]
  · exact replayLines_plain (loggerAfter_plain plain kept)
  · rcases replayLines_last torn (loggerAfter sha512 { prevHash := head } kept) with
      same | ⟨parsed, jsonTail, found, number⟩
    · left
      rw [same, seq]
      exact UInt64.zero_add _
    · right
      obtain ⟨rest, shape⟩ := front
      have taken : event.line.take torn.length = torn := by rw [← shape, List.take_left]
      rw [← taken] at found
      rw [number, parse_torn legible found, numbered]

theorem ofNat_succ_toNat {number : Nat} (bound : number < 2 ^ 63) :
    (UInt64.ofNat (number + 1)).toNat = number + 1 := by
  rw [UInt64.toNat_ofNat', Nat.mod_eq_of_lt (by omega)]

theorem next_number_new {count index : Nat} {seq : UInt64} (bound : count + 1 < 2 ^ 63)
    (below : index < count)
    (last : seq = UInt64.ofNat count ∨ seq = UInt64.ofNat (count + 1)) :
    UInt64.ofNat (index + 1) ≠ seq + 1 := by
  have next : ∃ later, count ≤ later ∧ later ≤ count + 1 ∧
      seq + 1 = UInt64.ofNat (later + 1) := by
    rcases last with whole | torn
    · exact ⟨count, by omega, by omega, by rw [whole, ofNat_next]⟩
    · exact ⟨count + 1, by omega, by omega, by rw [torn, ofNat_next]⟩
  obtain ⟨later, low, high, follows⟩ := next
  intro same
  rw [follows] at same
  have numbers := congrArg UInt64.toNat same
  rw [ofNat_succ_toNat (by omega), UInt64.toNat_ofNat', Nat.mod_eq_of_lt (by omega)] at numbers
  omega

theorem glued_loses (plain : Plain head) {kept : List AuditRequest}
    (clean : ∀ request ∈ kept, request.Clean) (bound : kept.length + 1 < 2 ^ 63)
    {event : AuditEvent} (legible : event.Legible)
    (numbered : event.sequence = UInt64.ofNat (kept.length + 1)) {count : Nat}
    (positive : 0 < count) :
    ¬ RecoversAppends sha512
      (auditText head (chainEvents sha512 { prevHash := head } kept) ++ event.line.take count)
      (chainEvents sha512 { prevHash := head } kept) := by
  intro recovers
  have whole := @chainEvents_legible sha512 { prevHash := head } kept plain clean
  have oneLine : newline ∉ event.line.take count :=
    fun member => legible.line_newline (List.mem_of_mem_take member)
  have nonempty : event.line.take count ≠ [] := by
    rw [ne_eq, List.take_eq_nil_iff, not_or]
    exact ⟨Nat.ne_of_gt positive, event.line_ne_nil⟩
  obtain ⟨logger, opened, hash, seq⟩ := @torn_opened sha512 head plain kept clean event legible
    numbered _ nonempty oneLine (List.take_prefix _ _) ⟨[], 0, {}⟩
  have quiet : Attempt.Succeeds {} := by decide
  have step := @exec_append sha512 {} quiet logger
    (auditText head (chainEvents sha512 { prevHash := head } kept) ++ event.line.take count)
    blankRequest
  have fresh := @eventFor_legible sha512 logger blankRequest hash (by decide)
  have own := recovers.added ⟨[], 0, {}⟩ [] _ blankRequest {} _ _ [] _ .nil
    ⟨by rw [opened]; exact step, quiet⟩ .nil (by simp) (by decide) (by simp)
  rw [opened] at own
  obtain ⟨content, file, line, member, parsed⟩ := own
  rw [← Option.some.inj file, List.append_assoc, lines_auditText plain whole,
    ← List.append_assoc, lines_single] at member
  · simp only [List.cons_append, List.mem_cons, List.mem_append, List.not_mem_nil, or_false] at member
    rcases member with rfl | early | rfl
    · rw [genesis_unread plain] at parsed
      cases parsed
    · obtain ⟨other, inside, rfl⟩ := List.mem_map.mp early
      obtain ⟨index, found⟩ := List.mem_iff_getElem?.mp inside
      have place := @chainEvents_sequence sha512 head kept index other found
      have below := (List.getElem?_eq_some_iff.mp found).1
      rw [chainEvents_length] at below
      rw [(whole other inside).parse_line, Option.some.injEq, Prod.mk.injEq] at parsed
      have same : other.sequence = logger.seq + 1 := congrArg AuditEvent.sequence parsed.1
      exact next_number_new bound below seq (place.symm.trans same)
    · have large : 0 < event.sequence.toNat := by
        rw [numbered, ofNat_succ_toNat (by omega)]
        omega
      exact glued_other fresh positive large parsed
  · intro newlines
    rcases List.mem_append.mp newlines with early | late
    · exact oneLine early
    · exact fresh.line_newline late

def writtenEvents (sha512 : Bytes → Bytes) (genesis : Genesis) (calls : List AuditCall) :
    List AuditEvent :=
  chainEvents sha512 { prevHash := genesis.hash sha512 } (requestsOf calls)

/-- A cut file takes new records without loss exactly when the cut is at the end of a line. -/
theorem audit_crash_recovers_iff {genesis : Genesis} (succeeds : genesis.attempt.Succeeds)
    {calls : List AuditCall} {site : AuditSite}
    (run : Run (AuditStep sha512) (AuditSite.opened sha512 none genesis) calls site)
    (clean : ∀ call ∈ calls, call.op.Clean) {content : Bytes} (file : site.file = some content)
    (offsets : content.length < 2 ^ 63) {cut : Nat}
    (behind : genesisLength (genesis.hash sha512) ≤ cut) :
    RecoversAppends sha512 (content.take cut)
        (wholeBefore eventCodec (cut - genesisLength (genesis.hash sha512))
          (writtenEvents sha512 genesis calls)) ↔
      OnBoundary eventCodec (cut - genesisLength (genesis.hash sha512))
        (writtenEvents sha512 genesis calls) := by
  have plain : Plain (genesis.hash sha512) := sha512Hex_plain _
  have cleanRequests := clean_requests clean
  rw [fresh_site succeeds] at run
  have final := run_chain plain run (reopensClean_of_clean (by simp) clean)
  rw [List.nil_append] at final
  rw [final, chainSite, Option.some.injEq] at file
  have bound : (requestsOf calls).length < 2 ^ 63 := by
    apply @chainSite_length sha512 (genesis.hash sha512)
    rw [chainSite, file]
    simpa using offsets
  rw [writtenEvents, ← file, take_auditText behind]
  obtain ⟨kept, starts, whole⟩ := part_chain
    (wholeBefore_starts eventCodec (cut - genesisLength (genesis.hash sha512))
      (chainEvents sha512 { prevHash := genesis.hash sha512 } (requestsOf calls)))
  have cleanKept : ∀ request ∈ kept, request.Clean :=
    fun request member => cleanRequests request (starts.subset member)
  have text : auditText (genesis.hash sha512) [] ++ encodeAll eventCodec
      (chainEvents sha512 { prevHash := genesis.hash sha512 } kept) =
        auditText (genesis.hash sha512)
          (chainEvents sha512 { prevHash := genesis.hash sha512 } kept) := by
    rw [encodeAll_events, ← auditText_append, List.nil_append]
  constructor
  · intro recovers
    rcases take_encodeAll eventCodec (cut - genesisLength (genesis.hash sha512))
        (chainEvents sha512 { prevHash := genesis.hash sha512 } (requestsOf calls)) with
      clean | ⟨event, next, count, positive, short, split⟩
    · exact clean
    · have legible := chainEvents_legible plain cleanRequests event (next.subset (by simp))
      obtain ⟨line, -⟩ := torn_plain legible short
      have room := next.length_le
      rw [whole] at next recovers split room
      have numbered : event.sequence = UInt64.ofNat (kept.length + 1) := by
        obtain ⟨rest, same⟩ := next
        apply @chainEvents_sequence sha512 (genesis.hash sha512) (requestsOf calls)
        rw [← same, List.append_assoc, List.getElem?_append_right (by simp)]
        simp
      simp only [List.length_append, List.length_singleton, chainEvents_length] at room
      rw [split, ← List.append_assoc, text] at recovers
      rw [show eventCodec.encode event = event.line ++ [newline] from rfl, line] at recovers
      exact absurd recovers
        (glued_loses plain cleanKept (by omega) legible numbered positive)
  · intro boundary
    rw [boundary, whole, text]
    exact chain_recovers plain cleanKept

theorem audit_crash_recovers_first : RecoversAppends sampleSha512 (sampleText.take 435)
    (wholeBefore eventCodec (435 - genesisLength (sampleGenesis.hash sampleSha512))
      (writtenEvents sampleSha512 sampleGenesis sampleRun.1)) := by
  refine (audit_crash_recovers_iff (by decide) sampleRun_run (by decide +kernel) sampleRun_file
    (by decide +kernel) (by decide +kernel)).mpr ?_
  rw [OnBoundary]
  decide +kernel

def sampleTorn : AuditSite :=
  AuditSite.opened sampleSha512 (some (sampleText.take 730)) sampleGenesis

def sampleGlued : AuditReply × AuditSite := sampleTorn.exec sampleSha512 (.append bobRequest {})

/-- The cut takes the last newline away, and the next record shares the line before it. -/
theorem audit_crash_glues : ¬ RecoversAppends sampleSha512 (sampleText.take 730)
    (wholeBefore eventCodec (730 - genesisLength (sampleGenesis.hash sampleSha512))
      (writtenEvents sampleSha512 sampleGenesis sampleRun.1)) := by
  intro recovers
  have lost : ∀ line ∈ lines (sampleGlued.2.file.getD []), parseEventLine line ≠
      some ((sampleTorn.logger.eventFor sampleSha512 bobRequest).bare, bobRequest.paramsJson) := by
    decide +kernel
  have step : AuditStep sampleSha512 sampleTorn ⟨.append bobRequest {}, sampleGlued.1⟩
      sampleGlued.2 := ⟨rfl, by decide⟩
  obtain ⟨content, file, line, member, parsed⟩ := recovers.added sampleGenesis [] sampleTorn
    bobRequest {} _ _ [] _ .nil step .nil (by simp) (by decide) (by simp)
  rw [file] at lost
  exact lost line member parsed

end Udaf
