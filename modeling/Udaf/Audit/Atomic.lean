import Udaf.Audit.Integrity

/-!
One append against a file system that may fail to open the file, to take an
insertion, or to store what is buffered. The stream is looked at before its
buffer is flushed, and the rollback restores the sequence only.
-/

namespace Udaf

open ByteString HashChain OutStream Runs Text

def AuditRequest.append (request : AuditRequest) (sha512 : Bytes → Bytes) (logger : AuditLogger)
    (content : Bytes) (attempt : Attempt) : AuditReply × AuditSite :=
  AuditSite.exec sha512 ⟨logger, some content⟩ (.append request attempt)

/-- The file verifies, ends with a whole line, and the logger has the head it leads to. -/
structure AuditLogger.Continues (sha512 : Bytes → Bytes) (logger : AuditLogger) (content : Bytes) :
    Prop where
  closed : content.getLast? = some newline
  hash : Plain logger.prevHash
  chained : ∃ head rest records, lines content = (genesisTag ++ head) :: rest ∧
    Verifies sha512 rest head records ∧
      logger.prevHash = headOf (nextHash sha512) head (records.map Prod.fst)

/-- An append that opens no file or writes all of its record. -/
structure HonestStep (sha512 : Bytes → Bytes) (site : AuditSite) (call : AuditCall)
    (next : AuditSite) : Prop where
  effect : site.exec sha512 call.op = (call.reply, next)
  honest : ∃ request attempt, call.op = .append request attempt ∧
    attempt.AllOrNothing (site.logger.eventFor sha512 request).pieces

structure AppendAtomic (sha512 : Bytes → Bytes) (logger : AuditLogger) (content : Bytes)
    (request : AuditRequest) (attempt : Attempt) : Prop where
  complete : ∀ sequence next,
    request.append sha512 logger content attempt = (.appended (.ok sequence), next) →
      next.file = some (content ++ ((logger.eventFor sha512 request).line ++ [newline]))
  restored : ∀ code next,
    request.append sha512 logger content attempt = (.appended (.error code), next) →
      next.logger.sequence = logger.sequence ∧ next.logger.prevHash = logger.prevHash
  retried : ∀ code next,
    request.append sha512 logger content attempt = (.appended (.error code), next) →
      next.file = some content → logger.Continues sha512 content →
        ∀ calls site, Run (HonestStep sha512) next calls site → (∀ call ∈ calls, call.op.Clean) →
          AuditLogger.verifyChain sha512 site.file = .ok true

variable {sha512 : Bytes → Bytes} {logger : AuditLogger} {content : Bytes}

theorem AuditLogger.Continues.verifies (continues : logger.Continues sha512 content) :
    AuditLogger.verifyChain sha512 (some content) = .ok true := by
  obtain ⟨head, rest, records, shape, verifies, -⟩ := continues.chained
  have verified := (verifyLines_iff rest head).mpr ⟨records, verifies⟩
  simp only [AuditLogger.verifyChain, shape, genesis_line, verified]
  rfl

theorem AuditLogger.Continues.push (continues : logger.Continues sha512 content)
    {request : AuditRequest} (clean : request.Clean) :
    (logger.advanced sha512 request).Continues sha512
      (content ++ ((logger.eventFor sha512 request).line ++ [newline])) := by
  have legible := @eventFor_legible sha512 logger request continues.hash clean
  obtain ⟨head, rest, records, shape, verifies, stored⟩ := continues.chained
  refine ⟨by rw [← List.append_assoc]; exact List.getLast?_concat, advanced_plain logger request, head,
    rest ++ [(logger.eventFor sha512 request).line],
    records ++ [((logger.eventFor sha512 request).bare, request.paramsJson)], ?_, ⟨?_, ?_, ?_⟩, ?_⟩
  · rw [lines_closed continues.closed, shape, lines_single legible.line_newline]
    rfl
  · have kept : [(logger.eventFor sha512 request).line].filter (fun line => !line.isEmpty) =
        [(logger.eventFor sha512 request).line] := by simp [AuditEvent.line_ne_nil]
    rw [List.filter_append, kept, List.map_append, verifies.parsed, List.map_singleton,
      legible.parse_line, List.map_append]
    rfl
  · rw [List.map_append, List.map_singleton, linked_concat]
    exact ⟨verifies.linked, stored⟩
  · intro record member
    rcases List.mem_append.mp member with early | last
    · exact verifies.hashes record early
    · rw [List.mem_singleton.mp last]
      rfl
  · rw [List.map_append, List.map_singleton, headOf_concat, ← stored]
    rfl

theorem append_cases (sha512 : Bytes → Bytes) (logger : AuditLogger) (content : Bytes)
    (request : AuditRequest) (attempt : Attempt) :
    (attempt.opens = false ∧
        request.append sha512 logger content attempt =
          (.appended (.error .internal), ⟨logger, some content⟩)) ∨
      (attempt.opens = true ∧
        Inserts (logger.eventFor sha512 request).pieces attempt.insertions ∧
        request.append sha512 logger content attempt =
          (.appended (.ok (logger.eventFor sha512 request).sequence),
            ⟨logger.advanced sha512 request,
              some (print content (logger.eventFor sha512 request).pieces attempt).2⟩)) ∨
      (attempt.opens = true ∧
        ¬ Inserts (logger.eventFor sha512 request).pieces attempt.insertions ∧
        request.append sha512 logger content attempt =
          (.appended (.error .internal),
            ⟨⟨logger.seq, (logger.advanced sha512 request).prevHash⟩,
              some (print content (logger.eventFor sha512 request).pieces attempt).2⟩)) := by
  cases opens : attempt.opens with
  | false =>
      refine .inl ⟨rfl, ?_⟩
      simp [AuditRequest.append, AuditSite.exec, AuditLogger.append, opens]
  | true =>
      have state := print_good content (logger.eventFor sha512 request).pieces attempt
      by_cases inserts : Inserts (logger.eventFor sha512 request).pieces attempt.insertions
      · refine .inr (.inl ⟨rfl, inserts, ?_⟩)
        have good := state.mpr inserts
        rw [AuditLogger.eventFor] at good
        simp only [AuditRequest.append, AuditSite.exec, AuditLogger.append, opens, if_true,
          Option.getD_some, good]
        rfl
      · refine .inr (.inr ⟨rfl, inserts, ?_⟩)
        have bad : (print content (logger.eventFor sha512 request).pieces attempt).1 = false := by
          rw [← Bool.not_eq_true]
          exact mt state.mp inserts
        have back : logger.seq + 1 - 1 = logger.seq := by grind
        rw [AuditLogger.eventFor] at bad
        simp only [AuditRequest.append, AuditSite.exec, AuditLogger.append, opens, if_true,
          Option.getD_some, bad, Bool.false_eq_true, if_false]
        simp only [AuditLogger.nextEvent, back]
        rfl

theorem honest_continues {site next : AuditSite} {call : AuditCall}
    (step : HonestStep sha512 site call next) (clean : call.op.Clean) {content : Bytes}
    (file : site.file = some content) (continues : site.logger.Continues sha512 content) :
    ∃ longer, next.file = some longer ∧ next.logger.Continues sha512 longer := by
  obtain ⟨logger, _⟩ := site
  obtain ⟨op, reply⟩ := call
  obtain ⟨effect, request, attempt, rfl, honest⟩ := step
  subst file
  rcases append_cases sha512 logger content request attempt with
    ⟨-, outcome⟩ | ⟨opens, inserts, outcome⟩ | ⟨opens, fails, -⟩
  · cases outcome.symm.trans effect
    exact ⟨content, rfl, continues⟩
  · cases outcome.symm.trans effect
    rcases honest with closed | ⟨-, flushes⟩
    · simp [opens] at closed
    · refine ⟨_, rfl, ?_⟩
      rw [(print_whole inserts).mpr flushes, AuditEvent.pieces_flatten]
      exact continues.push clean
  · rcases honest with closed | ⟨inserts, -⟩
    · simp [opens] at closed
    · exact absurd inserts fails

theorem honest_verifies {site final : AuditSite} {calls : List AuditCall}
    (run : Run (HonestStep sha512) site calls final) (clean : ∀ call ∈ calls, call.op.Clean)
    {content : Bytes} (file : site.file = some content)
    (continues : site.logger.Continues sha512 content) :
    AuditLogger.verifyChain sha512 final.file = .ok true := by
  induction run generalizing content with
  | nil =>
      rw [file]
      exact continues.verifies
  | cons step _ ih =>
      obtain ⟨longer, grown, still⟩ := honest_continues step (clean _ (by simp)) file continues
      exact ih (fun call member => clean call (by simp [member])) grown still

theorem AppendAtomic.flushes {request : AuditRequest} {attempt : Attempt}
    (atomic : AppendAtomic sha512 logger content request attempt) (opens : attempt.opens = true)
    (inserts : Inserts (logger.eventFor sha512 request).pieces attempt.insertions) :
    Flushes (logger.eventFor sha512 request).pieces attempt := by
  rcases append_cases sha512 logger content request attempt with
    ⟨closed, -⟩ | ⟨-, -, outcome⟩ | ⟨-, fails, -⟩
  · simp [opens] at closed
  · have whole := atomic.complete _ _ outcome
    rw [← AuditEvent.pieces_flatten, Option.some.injEq] at whole
    exact (print_whole inserts).mp whole
  · exact absurd inserts fails

theorem AppendAtomic.unmoved {request : AuditRequest} {attempt : Attempt}
    (atomic : AppendAtomic sha512 logger content request attempt) (opens : attempt.opens = true)
    (fails : ¬ Inserts (logger.eventFor sha512 request).pieces attempt.insertions) :
    (logger.advanced sha512 request).prevHash = logger.prevHash := by
  rcases append_cases sha512 logger content request attempt with
    ⟨closed, -⟩ | ⟨-, inserts, -⟩ | ⟨-, -, outcome⟩
  · simp [opens] at closed
  · exact absurd inserts fails
  · exact (atomic.restored _ _ outcome).2

/-- An append is atomic exactly when it opens no file, or writes all of its record, or fails to
insert it with the head where it was. -/
theorem append_atomic_iff (sha512 : Bytes → Bytes) (logger : AuditLogger) (content : Bytes)
    (request : AuditRequest) (attempt : Attempt) :
    AppendAtomic sha512 logger content request attempt ↔
      attempt.AllOrNothing (logger.eventFor sha512 request).pieces ∨
        (¬ Inserts (logger.eventFor sha512 request).pieces attempt.insertions ∧
          (logger.advanced sha512 request).prevHash = logger.prevHash) := by
  constructor
  · intro atomic
    cases opens : attempt.opens with
    | false => exact .inl (.inl opens)
    | true =>
        by_cases inserts : Inserts (logger.eventFor sha512 request).pieces attempt.insertions
        · exact .inl (.inr ⟨inserts, atomic.flushes opens inserts⟩)
        · exact .inr ⟨inserts, atomic.unmoved opens inserts⟩
  · intro condition
    rcases append_cases sha512 logger content request attempt with
      ⟨closed, outcome⟩ | ⟨opens, inserts, outcome⟩ | ⟨opens, fails, outcome⟩
    · refine ⟨?_, ?_, ?_⟩
      · intro sequence next other
        cases outcome.symm.trans other
      · intro code next other
        cases outcome.symm.trans other
        exact ⟨rfl, rfl⟩
      · intro code next other _ continues calls site run clean
        cases outcome.symm.trans other
        exact honest_verifies run clean rfl continues
    · refine ⟨?_, ?_, ?_⟩
      · intro sequence next other
        cases outcome.symm.trans other
        rcases condition with (closed | ⟨-, flushes⟩) | ⟨fails, -⟩
        · simp [opens] at closed
        · simp only [(print_whole inserts).mpr flushes, AuditEvent.pieces_flatten]
        · exact absurd inserts fails
      · intro code next other
        cases outcome.symm.trans other
      · intro code next other
        cases outcome.symm.trans other
    · have same : (logger.advanced sha512 request).prevHash = logger.prevHash := by
        rcases condition with (closed | ⟨inserts, -⟩) | ⟨-, same⟩
        · simp [opens] at closed
        · exact absurd inserts fails
        · exact same
      refine ⟨?_, ?_, ?_⟩
      · intro sequence next other
        cases outcome.symm.trans other
      · intro code next other
        cases outcome.symm.trans other
        exact ⟨rfl, same⟩
      · intro code next other left continues calls site run clean
        cases outcome.symm.trans other
        refine honest_verifies run clean left ?_
        rw [same]
        exact continues

def failedInsertion : Attempt := { insertions := [{ good := false }], flushed := some 0 }

def sampleStart : AuditSite := AuditSite.opened sampleSha512 none sampleGenesis

/-- The failed append leaves its head behind, and the retry breaks the chain. -/
theorem append_not_atomic :
    AuditLogger.verifyChain sampleSha512 sampleStart.file = .ok true ∧
    ¬ AppendAtomic sampleSha512 sampleStart.logger (sampleStart.file.getD []) aliceRequest
      failedInsertion ∧
    AuditLogger.verifyChain sampleSha512 (AuditSite.execAll sampleSha512
      [.append aliceRequest failedInsertion, .append aliceRequest {}] sampleStart).2.file =
        .ok false := by
  refine ⟨by decide +kernel, ?_, by decide +kernel⟩
  intro atomic
  have moved : (sampleStart.logger.advanced sampleSha512 aliceRequest).prevHash ≠
      sampleStart.logger.prevHash := by decide +kernel
  apply moved
  apply atomic.unmoved rfl
  intro inserts
  exact absurd (inserts { good := false } (by simp [failedInsertion, AuditEvent.pieces]))
    (by decide)

end Udaf
