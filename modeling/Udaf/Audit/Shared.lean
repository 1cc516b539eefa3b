import Udaf.Audit.Tamper
import Udaf.Lib.ChainWriters

/-!
Any number of loggers on one file, as clients of one host have it that keep the same
`audit_path`. A logger reads the file when it is constructed and never again, so it appends
at the head that it saw then or left itself.
-/

namespace Udaf

open ByteString ChainWriters HashChain Hex OutStream Runs Text

variable {ι : Type}

structure SharedLog (ι : Type) where
  loggers : ι → Option AuditLogger
  file : Option Bytes

namespace SharedLog

def unopened : SharedLog ι := ⟨fun _ => none, none⟩

/-- Constructions and appends, one after the other, with every write of the file successful. -/
inductive Step [DecidableEq ι] (sha512 : Bytes → Bytes) :
    SharedLog ι → ι × AuditOp → SharedLog ι → Prop where
  | construct {log : SharedLog ι} {genesis : Genesis} {site : AuditSite} (who : ι)
      (succeeds : genesis.attempt.Succeeds)
      (reached : AuditSite.opened sha512 log.file genesis = site) :
      Step sha512 log (who, .reopen genesis)
        ⟨Function.update log.loggers who (some site.logger), site.file⟩
  | append {log : SharedLog ι} {logger : AuditLogger} {request : AuditRequest} {attempt : Attempt}
      {reply : AuditReply} {site : AuditSite} (who : ι) (holds : log.loggers who = some logger)
      (clean : request.Clean) (succeeds : attempt.Succeeds)
      (reached : AuditSite.exec sha512 ⟨logger, log.file⟩ (.append request attempt) = (reply, site)) :
      Step sha512 log (who, .append request attempt)
        ⟨Function.update log.loggers who (some site.logger), site.file⟩

def move : ι × AuditOp → Move ι
  | (who, .append _ _) => .write who
  | (who, .reopen _) => .look who

def appended (events : List (ι × AuditOp)) : List AuditRequest :=
  events.filterMap fun event =>
    match event.2 with
    | .append request _ => some request
    | .reopen _ => none

end SharedLog

section Views

variable (sha512 : Bytes → Bytes)

def AuditLogger.extended (logger : AuditLogger) (event : AuditEvent) : AuditLogger where
  seq := event.sequence
  prevHash := nextHash sha512 logger.prevHash event

def AuditLogger.Writes (logger : AuditLogger) (event : AuditEvent) : Prop :=
  ∃ request : AuditRequest, request.Clean ∧ event = logger.eventFor sha512 request

def AuditLogger.Precedes (logger : AuditLogger) (event : AuditEvent) : Prop :=
  event.prevHash = logger.prevHash

end Views

variable {sha512 : Bytes → Bytes}

theorem extended_prevHash (logger : AuditLogger) (events : List AuditEvent) :
    (headOf (AuditLogger.extended sha512) logger events).prevHash =
      headOf (nextHash sha512) logger.prevHash events := by
  induction events generalizing logger with
  | nil => rfl
  | cons event events ih => exact ih (logger.extended sha512 event)

theorem precedes_linked (logger : AuditLogger) (events : List AuditEvent) :
    Chain (AuditLogger.extended sha512) AuditLogger.Precedes logger events ↔
      Linked (nextHash sha512) AuditEvent.prevHash logger.prevHash events := by
  induction events generalizing logger with
  | nil => exact Iff.rfl
  | cons event events ih => exact and_congr_right fun _ => ih (logger.extended sha512 event)

theorem writes_precedes (logger : AuditLogger) (event : AuditEvent)
    (writes : logger.Writes sha512 event) : logger.Precedes event := by
  obtain ⟨request, -, rfl⟩ := writes
  rfl

theorem writes_chainEvents {logger : AuditLogger} {events : List AuditEvent}
    (chain : Chain (AuditLogger.extended sha512) (AuditLogger.Writes sha512) logger events) :
    events = chainEvents sha512 logger (events.map AuditEvent.request) := by
  induction events generalizing logger with
  | nil => rfl
  | cons event events ih =>
      obtain ⟨⟨request, -, rfl⟩, rest⟩ := chain
      rw [List.map_cons, chainEvents]
      exact congrArg _ (ih rest)

theorem replay_extended {logger : AuditLogger} {events : List AuditEvent}
    (legible : ∀ event ∈ events, event.Legible)
    (chain : Chain (AuditLogger.extended sha512) AuditLogger.Precedes logger events) :
    replayLines sha512 (events.map AuditEvent.line) logger =
      headOf (AuditLogger.extended sha512) logger events := by
  induction events generalizing logger with
  | nil => rfl
  | cons event events ih =>
      rw [List.map_cons, replayLines_line (legible event (by simp)) chain.1]
      exact ih (fun other inside => legible other (by simp [inside])) chain.2

theorem replay_plain {logger : AuditLogger} (plain : Plain logger.prevHash) (content : List Bytes) :
    Plain (replayLines sha512 content logger).prevHash := by
  induction content generalizing logger with
  | nil => exact plain
  | cons line content ih =>
      rw [replayLines]
      split
      · exact ih plain
      · split
        · exact plain
        · split
          · exact ih (sha512Hex_plain _)
          · exact plain

theorem verify_linked {head : Bytes} {events : List AuditEvent} (plain : Plain head)
    (legible : ∀ event ∈ events, event.Legible)
    (hashes : ∀ event ∈ events, event.paramsHash = computeParamsHash sha512 event.paramsJson) :
    AuditLogger.verifyChain sha512 (some (auditText head events)) = .ok true ↔
      Linked (nextHash sha512) AuditEvent.prevHash head events := by
  have content := lines_auditText plain legible []
  rw [List.append_nil, lines_nil, List.append_nil] at content
  have verified : ∀ start : Bytes, verifyLines sha512 (events.map AuditEvent.line) start = true ↔
      Linked (nextHash sha512) AuditEvent.prevHash start events := by
    clear content plain
    induction events with
    | nil => intro start; simp [verifyLines, Linked]
    | cons event events ih =>
        intro start
        have full : event.line.isEmpty = false := by simpa using event.line_ne_nil
        have reads := (legible event (by simp)).parse_line
        have hash := hashes event (by simp)
        rw [List.map_cons, verifyLines_cons full, Linked,
          ← ih (fun other inside => legible other (by simp [inside]))
            (fun other inside => hashes other (by simp [inside]))]
        constructor
        · rintro ⟨read, jsonTail, parses, follows, -, rest⟩
          rw [reads] at parses
          cases parses
          exact ⟨follows, rest⟩
        · rintro ⟨follows, rest⟩
          exact ⟨event.bare, event.paramsJson, reads, follows, hash.symm, rest⟩
  simp only [AuditLogger.verifyChain, content, genesis_line, ne_eq, not_true_eq_false, if_false,
    Except.ok.injEq]
  exact verified head

theorem opened_records {head : Bytes} {events : List AuditEvent} (plain : Plain head)
    (legible : ∀ event ∈ events, event.Legible) (genesis : Genesis) :
    AuditSite.opened sha512 (some (auditText head events)) genesis =
      ⟨replayLines sha512 (events.map AuditEvent.line) { prevHash := head },
        some (auditText head events)⟩ := by
  have content := lines_auditText plain legible []
  rw [List.append_nil, lines_nil, List.append_nil] at content
  simp only [AuditSite.opened, AuditLogger.construct, Option.getD_some, content, genesis_line, if_true]

theorem bar_seed (genesis : Genesis) : bar ∉ genesis.seed := by
  simp only [Genesis.seed, List.mem_append, not_or]
  exact ⟨⟨⟨by decide, (hexOf_plain _).1⟩, by decide⟩, (decimalInt_plain _).1⟩

theorem views_apart (injective : Function.Injective sha512) (genesis : Genesis)
    {front back : List AuditEvent} {event : AuditEvent} (more : back ≠ [])
    (chain : Chain (AuditLogger.extended sha512) (AuditLogger.Writes sha512)
      { prevHash := genesis.hash sha512 } (front ++ back))
    (written : (headOf (AuditLogger.extended sha512) { prevHash := genesis.hash sha512 } front).Writes
      sha512 event) :
    ¬ (headOf (AuditLogger.extended sha512) { prevHash := genesis.hash sha512 }
      (front ++ back)).Precedes event := by
  intro follows
  have fit : ∀ record ∈ front ++ back, bar ∉ record.paramsHash := by
    rw [writes_chainEvents chain]
    intro record member
    rw [chainEvents_hashes record member]
    exact (sha512Hex_plain _).1
  have same : headOf (nextHash sha512) (genesis.hash sha512) front =
      headOf (nextHash sha512) (genesis.hash sha512) (front ++ back) := by
    have stands := (writes_precedes _ _ written).symm.trans follows
    rwa [extended_prevHash, extended_prevHash] at stands
  refine @headOf_apart _ _ _ (nextHash sha512)
    (fun record => (record.paramsHash, record.sequence, record.action)) (bar ∉ ·)
    (fun record => bar ∉ record.paramsHash) ?_ ?_ _ ?_ ?_ _ _ more fit same
  · intro head record _
    exact (sha512Hex_plain _).1
  · intro head other record second headBar otherBar recordBar secondBar
    exact nextHash_binds injective head other record second headBar otherBar recordBar secondBar
  · exact (sha512Hex_plain _).1
  · intro head record root
    have seed := injective (hexOf_injective root)
    refine bar_seed genesis ?_
    rw [← seed]
    simp [linkInput]

namespace SharedLog

structure Shows (sha512 : Bytes → Bytes) (head : Bytes) (log : SharedLog ι)
    (records : List AuditEvent) : Prop where
  begins : Plain head
  file : log.file = some (auditText head records)
  legible : ∀ event ∈ records, event.Legible
  hashes : ∀ event ∈ records, event.paramsHash = computeParamsHash sha512 event.paramsJson
  plain : ∀ who logger, log.loggers who = some logger → Plain logger.prevHash

variable [DecidableEq ι]

theorem plain_update {loggers : ι → Option AuditLogger}
    (plain : ∀ who logger, loggers who = some logger → Plain logger.prevHash) {who : ι}
    {logger : AuditLogger} (fresh : Plain logger.prevHash) :
    ∀ other seen, Function.update loggers who (some logger) other = some seen → Plain seen.prevHash := by
  intro other seen holds
  by_cases same : other = who
  · subst same
    rw [Function.update_self, Option.some.injEq] at holds
    rw [← holds]
    exact fresh
  · rw [Function.update_of_ne same] at holds
    exact plain other seen holds

theorem Shows.step {head : Bytes} {log next : SharedLog ι} {records : List AuditEvent}
    {event : ι × AuditOp} (shown : Shows sha512 head log records) (step : Step sha512 log event next) :
    ∃ after, ChainWriters.Step (AuditLogger.extended sha512) (AuditLogger.Writes sha512)
        AuditLogger.Precedes { prevHash := head } ⟨records, log.loggers⟩ (move event)
        ⟨after, next.loggers⟩ ∧
      Shows sha512 head next after ∧
      after.map AuditEvent.request = records.map AuditEvent.request ++ appended [event] := by
  cases step with
  | construct who succeeds reached =>
      rename_i genesis site
      rw [shown.file, opened_records shown.begins shown.legible] at reached
      subst reached
      refine ⟨records, .look fun chain => ?_, ⟨shown.begins, rfl, shown.legible, shown.hashes, ?_⟩, ?_⟩
      · exact replay_extended shown.legible chain
      · exact plain_update shown.plain (replay_plain shown.begins _)
      · simp [appended]
  | append who holds clean succeeds reached =>
      rename_i logger request attempt reply site
      rw [shown.file, exec_append succeeds] at reached
      cases reached
      have plain := shown.plain who logger holds
      have legible := @eventFor_legible sha512 logger request plain clean
      refine ⟨records ++ [logger.eventFor sha512 request], ?_, ⟨shown.begins, ?_, ?_, ?_, ?_⟩, ?_⟩
      · exact .write holds ⟨request, clean, rfl⟩
      · simp [auditText_append]
      · intro event member
        rcases List.mem_append.mp member with before | last
        · exact shown.legible event before
        · rw [List.mem_singleton.mp last]
          exact legible
      · intro event member
        rcases List.mem_append.mp member with before | last
        · exact shown.hashes event before
        · rw [List.mem_singleton.mp last]
          rfl
      · exact plain_update shown.plain (advanced_plain logger request)
      · simp only [List.map_append, appended]
        rfl

theorem first_step {event : ι × AuditOp} {next : SharedLog ι}
    (step : Step sha512 unopened event next) : ∃ genesis : Genesis,
    ChainWriters.Step (AuditLogger.extended sha512) (AuditLogger.Writes sha512)
        AuditLogger.Precedes { prevHash := genesis.hash sha512 } Desk.empty (move event)
        ⟨[], next.loggers⟩ ∧
      Shows sha512 (genesis.hash sha512) next [] ∧ appended [event] = [] := by
  cases step with
  | construct who succeeds reached =>
      rename_i genesis site
      have fresh := @fresh_site sha512 genesis succeeds
      rw [unopened, fresh] at reached
      subst reached
      refine ⟨genesis, .look fun _ => rfl, ⟨sha512Hex_plain _, rfl, by simp, by simp, ?_⟩, rfl⟩
      refine plain_update ?_ (sha512Hex_plain _)
      intro other seen holds
      cases holds
  | append who holds clean succeeds reached => cases holds

theorem run_shows {events : List (ι × AuditOp)} {log : SharedLog ι}
    (run : Run (Step sha512) unopened events log) (opened : events ≠ []) :
    ∃ (genesis : Genesis) (records : List AuditEvent),
      Run (ChainWriters.Step (AuditLogger.extended sha512) (AuditLogger.Writes sha512)
          AuditLogger.Precedes { prevHash := genesis.hash sha512 }) Desk.empty (events.map move)
        ⟨records, log.loggers⟩ ∧
      Shows sha512 (genesis.hash sha512) log records ∧
      records.map AuditEvent.request = appended events := by
  have all := @Run.history _ _ (Step sha512) (fun past log => past = [] ∧ log = unopened ∨
      ∃ (genesis : Genesis) (records : List AuditEvent),
        Run (ChainWriters.Step (AuditLogger.extended sha512) (AuditLogger.Writes sha512)
            AuditLogger.Precedes { prevHash := genesis.hash sha512 }) Desk.empty (past.map move)
          ⟨records, log.loggers⟩ ∧
        Shows sha512 (genesis.hash sha512) log records ∧
        records.map AuditEvent.request = appended past) (by
      rintro past log event next step (⟨rfl, rfl⟩ | ⟨genesis, records, before, shown, requests⟩)
      · obtain ⟨genesis, first, shown, none⟩ := first_step step
        exact Or.inr ⟨genesis, [], .cons first .nil, shown, none.symm⟩
      · obtain ⟨after, further, shows, more⟩ := shown.step step
        refine Or.inr ⟨genesis, after, ?_, shows, ?_⟩
        · rw [List.map_append]
          exact before.append (.cons further .nil)
        · rw [more, requests, appended, appended, appended, List.filterMap_append]) [] _ _ _ run
      (Or.inl ⟨rfl, rfl⟩)
  rcases all with ⟨none, -⟩ | shows
  · exact absurd none opened
  · exact shows

/-- The file verifies exactly if each append is made by a logger that has been constructed or has
appended since the last append of any other; it then is what one logger would have written. -/
theorem shared_log_intact (injective : Function.Injective sha512) {events : List (ι × AuditOp)}
    {log : SharedLog ι} (run : Run (Step sha512) unopened events log) (opened : events ≠ []) :
    (AuditLogger.verifyChain sha512 log.file = .ok true ↔ InTurn (events.map move)) ∧
      (InTurn (events.map move) → ∃ genesis : Genesis,
        log.file = (chainSite sha512 (genesis.hash sha512) (appended events)).file) := by
  obtain ⟨genesis, records, writers, shown, requests⟩ := run_shows run opened
  have kept := run_kept writes_precedes
    (fun front back event more chain written => views_apart injective genesis more chain written) writers
  constructor
  · rw [shown.file, verify_linked shown.begins shown.legible shown.hashes]
    have linked := @precedes_linked sha512 { prevHash := genesis.hash sha512 } records
    rw [← linked]
    exact ⟨kept.turns, fun turns => (kept.chain turns).mono writes_precedes⟩
  · intro turns
    refine ⟨genesis, ?_⟩
    have written := writes_chainEvents (kept.chain turns)
    rw [requests] at written
    rw [shown.file, chainSite]
    exact congrArg (fun events => some (auditText _ events)) written

theorem shared_log_intact_sample : ∃ log : SharedLog Bool,
    Run (Step sampleSha512) unopened
      [(true, .reopen sampleGenesis), (true, .append aliceRequest {}),
        (false, .reopen sampleGenesis), (false, .append bobRequest {})] log ∧
      AuditLogger.verifyChain sampleSha512 log.file = .ok true := by
  have turns : InTurn (((([] ++ [.look true]) ++ [.write true]) ++ [.look false]) ++ [.write false]) := by
    simp only [inTurn_write, inTurn_look, current_look, current_write]
    exact ⟨⟨inTurn_nil, Or.inl trivial⟩, Or.inl trivial⟩
  have run := Run.cons (@Step.construct Bool _ sampleSha512 unopened sampleGenesis _ true (by decide) rfl)
    (.cons (@Step.append Bool _ sampleSha512 _ _ aliceRequest {} _ _ true rfl (by decide) (by decide) rfl)
      (.cons (@Step.construct Bool _ sampleSha512 _ sampleGenesis _ false (by decide) rfl)
        (.cons (@Step.append Bool _ sampleSha512 _ _ bobRequest {} _ _ false rfl (by decide) (by decide) rfl)
          .nil)))
  exact ⟨_, run, (shared_log_intact sampleSha512_injective run (by simp)).1.mpr turns⟩

end SharedLog

end Udaf
