import Udaf.Audit.Line
import Udaf.Lib.HashChain

/-!
The log as an abstract chain: a list of requests on top of a first head. It
fixes the events, the text of the file and the logger that goes with it, and
the two loops over a file are computed on that text.
-/

namespace Udaf

open ByteString Decimal Hex HashChain OutStream Text

structure AuditRequest where
  action : ActionType
  actor : Bytes
  target : Bytes
  paramsJson : Bytes
  now : Int64
  deriving DecidableEq, Repr

def AuditRequest.Clean (request : AuditRequest) : Prop :=
  Plain request.actor ∧ Plain request.target ∧ newline ∉ request.paramsJson

instance (request : AuditRequest) : Decidable request.Clean :=
  inferInstanceAs (Decidable (_ ∧ _))

def AuditEvent.request (event : AuditEvent) : AuditRequest where
  action := event.action
  actor := event.actor
  target := event.target
  paramsJson := event.paramsJson
  now := event.timestampNs

def auditText (head : Bytes) (events : List AuditEvent) : Bytes :=
  unlines ((genesisTag ++ head) :: events.map AuditEvent.line)

section Digest

variable (sha512 : Bytes → Bytes)

def AuditLogger.eventFor (logger : AuditLogger) (request : AuditRequest) : AuditEvent :=
  logger.nextEvent sha512 request.action request.actor request.target request.paramsJson request.now

def AuditLogger.advanced (logger : AuditLogger) (request : AuditRequest) : AuditLogger where
  seq := (logger.eventFor sha512 request).sequence
  prevHash := nextHash sha512 logger.prevHash (logger.eventFor sha512 request)

def chainEvents : AuditLogger → List AuditRequest → List AuditEvent
  | _, [] => []
  | logger, request :: requests =>
      logger.eventFor sha512 request :: chainEvents (logger.advanced sha512 request) requests

def loggerAfter (logger : AuditLogger) (requests : List AuditRequest) : AuditLogger :=
  requests.foldl (AuditLogger.advanced sha512) logger

end Digest

variable {sha512 : Bytes → Bytes}

theorem chainEvents_append (logger : AuditLogger) (front back : List AuditRequest) :
    chainEvents sha512 logger (front ++ back) =
      chainEvents sha512 logger front ++ chainEvents sha512 (loggerAfter sha512 logger front) back := by
  induction front generalizing logger with
  | nil => rfl
  | cons request front ih => rw [List.cons_append, chainEvents, chainEvents, ih]; rfl

theorem loggerAfter_append (logger : AuditLogger) (front back : List AuditRequest) :
    loggerAfter sha512 logger (front ++ back) =
      loggerAfter sha512 (loggerAfter sha512 logger front) back := by
  simp [loggerAfter]

@[simp] theorem chainEvents_length (logger : AuditLogger) (requests : List AuditRequest) :
    (chainEvents sha512 logger requests).length = requests.length := by
  induction requests generalizing logger with
  | nil => rfl
  | cons request requests ih => simp [chainEvents, ih]

theorem chainEvents_concat (logger : AuditLogger) (requests : List AuditRequest)
    (request : AuditRequest) :
    chainEvents sha512 logger (requests ++ [request]) =
      chainEvents sha512 logger requests ++
        [(loggerAfter sha512 logger requests).eventFor sha512 request] := by
  rw [chainEvents_append]
  rfl

theorem chainEvents_take (logger : AuditLogger) (requests : List AuditRequest) (count : Nat) :
    (chainEvents sha512 logger requests).take count =
      chainEvents sha512 logger (requests.take count) := by
  induction requests generalizing logger count with
  | nil => simp [chainEvents]
  | cons request requests ih =>
      cases count with
      | zero => rfl
      | succ count => rw [chainEvents, List.take_succ_cons, List.take_succ_cons, chainEvents, ih]

theorem linked_chainEvents (logger : AuditLogger) (requests : List AuditRequest) :
    Linked (nextHash sha512) AuditEvent.prevHash logger.prevHash
      (chainEvents sha512 logger requests) := by
  induction requests generalizing logger with
  | nil => trivial
  | cons request requests ih => exact ⟨rfl, ih (logger.advanced sha512 request)⟩

theorem ofNat_next (number : Nat) : UInt64.ofNat number + 1 = UInt64.ofNat (number + 1) := by
  rw [UInt64.ofNat_add]
  rfl

theorem chainEvents_numbered {logger : AuditLogger} {start : Nat}
    (seq : logger.seq = UInt64.ofNat start) (requests : List AuditRequest) :
    (chainEvents sha512 logger requests).map (fun event => (event.sequence, event.request)) =
      (requests.zipIdx (start + 1)).map fun (request, number) => (UInt64.ofNat number, request) := by
  have next : logger.seq + 1 = UInt64.ofNat (start + 1) := by rw [seq, ofNat_next]
  induction requests generalizing logger start with
  | nil => rfl
  | cons request requests ih =>
      have after : (logger.advanced sha512 request).seq + 1 = UInt64.ofNat (start + 1 + 1) := by
        rw [← ofNat_next, ← next]
        rfl
      have first : ((logger.eventFor sha512 request).sequence,
          (logger.eventFor sha512 request).request) = (UInt64.ofNat (start + 1), request) := by
        rw [← next]
        rfl
      rw [chainEvents, List.map_cons, List.zipIdx_cons, List.map_cons, ih next after, first]

theorem loggerAfter_seq (logger : AuditLogger) (requests : List AuditRequest) :
    (loggerAfter sha512 logger requests).seq = logger.seq + UInt64.ofNat requests.length := by
  induction requests generalizing logger with
  | nil => simp [loggerAfter]
  | cons request requests ih =>
      have rest := ih (logger.advanced sha512 request)
      rw [loggerAfter, List.foldl_cons, ← loggerAfter, rest, List.length_cons,
        UInt64.ofNat_add, UInt64.add_comm (UInt64.ofNat requests.length), ← UInt64.add_assoc]
      rfl

theorem sha512Hex_plain (data : Bytes) : Plain (sha512Hex sha512 data) := hexOf_plain _

theorem advanced_plain (logger : AuditLogger) (request : AuditRequest) :
    Plain (logger.advanced sha512 request).prevHash := sha512Hex_plain _

theorem loggerAfter_plain {logger : AuditLogger} (plain : Plain logger.prevHash)
    (requests : List AuditRequest) : Plain (loggerAfter sha512 logger requests).prevHash := by
  induction requests generalizing logger with
  | nil => exact plain
  | cons request requests ih => exact ih (advanced_plain logger request)

theorem eventFor_legible {logger : AuditLogger} {request : AuditRequest}
    (head : Plain logger.prevHash) (clean : request.Clean) :
    (logger.eventFor sha512 request).Legible where
  actor := clean.1
  target := clean.2.1
  prevHash := head
  paramsHash := sha512Hex_plain _
  paramsJson := clean.2.2

theorem chainEvents_legible {logger : AuditLogger} {requests : List AuditRequest}
    (head : Plain logger.prevHash) (clean : ∀ request ∈ requests, request.Clean) :
    ∀ event ∈ chainEvents sha512 logger requests, event.Legible := by
  induction requests generalizing logger with
  | nil => simp [chainEvents]
  | cons request requests ih =>
      intro event member
      rcases List.mem_cons.mp member with rfl | later
      · exact eventFor_legible head (clean request (by simp))
      · exact ih (advanced_plain logger request)
          (fun other inside => clean other (by simp [inside])) event later

theorem auditText_append (head : Bytes) (front back : List AuditEvent) :
    auditText head (front ++ back) = auditText head front ++ unlines (back.map AuditEvent.line) := by
  simp [auditText]

theorem lines_auditText {head : Bytes} {events : List AuditEvent} (plain : Plain head)
    (legible : ∀ event ∈ events, event.Legible) (rest : Bytes) :
    lines (auditText head events ++ rest) =
      (genesisTag ++ head) :: events.map AuditEvent.line ++ lines rest := by
  apply lines_unlines
  intro line member
  rcases List.mem_cons.mp member with rfl | later
  · rw [List.mem_append, not_or]
    exact ⟨by decide, plain.2⟩
  · obtain ⟨event, inside, rfl⟩ := List.mem_map.mp later
    exact (legible event inside).line_newline

theorem genesis_line (head : Bytes) :
    (genesisTag ++ head).take 8 = genesisTag ∧ (genesisTag ++ head).drop 8 = head :=
  ⟨List.take_left' rfl, List.drop_left' rfl⟩

theorem replayLines_line {event : AuditEvent} (legible : event.Legible) {logger : AuditLogger}
    (continues : event.prevHash = logger.prevHash) (rest : List Bytes) :
    replayLines sha512 (event.line :: rest) logger =
      replayLines sha512 rest {
        seq := event.sequence
        prevHash := nextHash sha512 logger.prevHash event } := by
  have content : event.line.isEmpty = false := by simpa using event.line_ne_nil
  simp only [replayLines, content, legible.parse_line, Bool.false_eq_true, if_false]
  exact if_pos continues

theorem verifyLines_line {event : AuditEvent} (legible : event.Legible)
    (hash : event.paramsHash = computeParamsHash sha512 event.paramsJson) (rest : List Bytes) :
    verifyLines sha512 (event.line :: rest) event.prevHash =
      verifyLines sha512 rest (nextHash sha512 event.prevHash event) := by
  have content : event.line.isEmpty = false := by simpa using event.line_ne_nil
  simp only [verifyLines, content, legible.parse_line, Bool.false_eq_true, if_false]
  rw [if_neg (by simp [AuditEvent.bare]), if_neg (by simp [AuditEvent.bare, hash])]
  rfl

theorem replayLines_chain {logger : AuditLogger} {requests : List AuditRequest}
    (head : Plain logger.prevHash) (clean : ∀ request ∈ requests, request.Clean)
    (rest : List Bytes) :
    replayLines sha512 ((chainEvents sha512 logger requests).map AuditEvent.line ++ rest) logger =
      replayLines sha512 rest (loggerAfter sha512 logger requests) := by
  induction requests generalizing logger with
  | nil => rfl
  | cons request requests ih =>
      have first := @eventFor_legible sha512 logger request head (clean request (by simp))
      rw [chainEvents, List.map_cons, List.cons_append, replayLines_line first rfl]
      exact ih (advanced_plain logger request) fun other inside => clean other (by simp [inside])

theorem verifyLines_chain {logger : AuditLogger} {requests : List AuditRequest}
    (head : Plain logger.prevHash) (clean : ∀ request ∈ requests, request.Clean)
    (rest : List Bytes) :
    verifyLines sha512 ((chainEvents sha512 logger requests).map AuditEvent.line ++ rest)
        logger.prevHash =
      verifyLines sha512 rest (loggerAfter sha512 logger requests).prevHash := by
  induction requests generalizing logger with
  | nil => rfl
  | cons request requests ih =>
      have first := @eventFor_legible sha512 logger request head (clean request (by simp))
      have step := @verifyLines_line sha512 _ first rfl
        ((chainEvents sha512 (logger.advanced sha512 request) requests).map AuditEvent.line ++ rest)
      rw [chainEvents, List.map_cons, List.cons_append]
      exact step.trans
        (ih (advanced_plain logger request) fun other inside => clean other (by simp [inside]))

/-- What a verified list of lines holds: records that parse, are linked from the head on, and
carry the hash of their json tail. -/
structure Verifies (sha512 : Bytes → Bytes) (content : List Bytes) (head : Bytes)
    (records : List (AuditEvent × Bytes)) : Prop where
  parsed : (content.filter fun line => !line.isEmpty).map parseEventLine = records.map some
  linked : Linked (nextHash sha512) AuditEvent.prevHash head (records.map Prod.fst)
  hashes : ∀ record ∈ records, computeParamsHash sha512 record.2 = record.1.paramsHash

theorem verifyLines_cons {line : Bytes} (content : line.isEmpty = false) (rest : List Bytes)
    (head : Bytes) :
    verifyLines sha512 (line :: rest) head = true ↔
      ∃ event jsonTail, parseEventLine line = some (event, jsonTail) ∧ event.prevHash = head ∧
        computeParamsHash sha512 jsonTail = event.paramsHash ∧
        verifyLines sha512 rest (nextHash sha512 head event) = true := by
  simp only [verifyLines, content, Bool.false_eq_true, if_false]
  cases parses : parseEventLine line with
  | none => simp
  | some record =>
      obtain ⟨event, jsonTail⟩ := record
      by_cases continues : event.prevHash = head
      · by_cases hash : computeParamsHash sha512 jsonTail = event.paramsHash
        · simp [continues, hash]
        · simp [continues, hash]
      · simp [continues]

theorem verifyLines_iff (content : List Bytes) (head : Bytes) :
    verifyLines sha512 content head = true ↔ ∃ records, Verifies sha512 content head records := by
  induction content generalizing head with
  | nil =>
      simp only [verifyLines, true_iff]
      exact ⟨[], rfl, trivial, by simp⟩
  | cons line content ih =>
      cases empty : line.isEmpty with
      | true =>
          rw [verifyLines, if_pos empty, ih]
          apply exists_congr
          intro records
          constructor
          · rintro ⟨parsed, linked, hashes⟩
            exact ⟨by simpa [empty] using parsed, linked, hashes⟩
          · rintro ⟨parsed, linked, hashes⟩
            exact ⟨by simpa [empty] using parsed, linked, hashes⟩
      | false =>
          have kept : (line :: content).filter (fun line => !line.isEmpty) =
              line :: content.filter fun line => !line.isEmpty := by simp [empty]
          rw [verifyLines_cons empty]
          constructor
          · rintro ⟨event, jsonTail, parses, continues, hash, verified⟩
            obtain ⟨records, parsed, linked, hashes⟩ := (ih _).mp verified
            refine ⟨(event, jsonTail) :: records, ?_, ⟨continues, linked⟩, ?_⟩
            · rw [kept, List.map_cons, parses, parsed, List.map_cons]
            · intro record member
              rcases List.mem_cons.mp member with rfl | later
              · exact hash
              · exact hashes record later
          · rintro ⟨records, parsed, linked, hashes⟩
            rw [kept, List.map_cons] at parsed
            cases records with
            | nil => cases parsed
            | cons record records =>
                rw [List.map_cons, List.cons.injEq] at parsed
                refine ⟨record.1, record.2, parsed.1, linked.1, hashes record (by simp), ?_⟩
                exact (ih _).mpr ⟨records, parsed.2, linked.2, fun other inside =>
                  hashes other (by simp [inside])⟩

end Udaf
