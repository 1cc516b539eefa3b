import Udaf.Audit.Atomic

/-!
The text of one record. `append` puts actor, target and json between the separators as
they are, and it is their bytes that decide whether the line reads back.
-/

namespace Udaf

open ByteString HashChain OutStream Runs Text

/-- One line is added to the file, it reads back, and a log that verified still does. -/
structure RecordSurvives (sha512 : Bytes → Bytes) (site : AuditSite) (request : AuditRequest)
    (next : AuditSite) : Prop where
  added : ∃ line, newline ∉ line ∧
    next.file = some (site.file.getD [] ++ (line ++ [newline])) ∧
      parseEventLine line = some ((site.logger.eventFor sha512 request).bare, request.paramsJson)
  verified : ∀ content, site.file = some content → site.logger.Continues sha512 content →
    AuditLogger.verifyChain sha512 next.file = .ok true

variable {sha512 : Bytes → Bytes}

namespace AuditEvent

variable {event : AuditEvent} {line : Bytes}

theorem parsed_barless (parsed : parseEventLine line = some (event.bare, event.paramsJson)) :
    ∀ field ∈ event.fields, bar ∉ field := by
  obtain ⟨sequence, action, timestampNs, cut, -⟩ := parseEventLine_some parsed
  obtain ⟨-, clean, -⟩ := cutFields_some cut
  intro field member
  simp only [fields, List.mem_cons, List.not_mem_nil, or_false] at member
  rcases member with rfl | rfl | rfl | rfl | rfl | rfl | rfl
  · exact (decimal_plain _).1
  · exact (actionName_plain _).1
  · exact clean event.actor (by simp [bare])
  · exact clean event.target (by simp [bare])
  · exact (decimalInt_plain _).1
  · exact clean event.prevHash (by simp [bare])
  · exact clean event.paramsHash (by simp [bare])

theorem parsed_whole (front : line <+: event.line)
    (parsed : parseEventLine line = some (event.bare, event.paramsJson)) : line = event.line := by
  obtain ⟨sequence, action, timestampNs, cut, -⟩ := parseEventLine_some parsed
  obtain ⟨rest, whole⟩ := front
  have longer := cutFields_more cut rest
  have shape := cutFields_join (parsed_barless parsed) event.paramsJson
  rw [whole] at longer
  have tails := congrArg (Option.map Prod.snd) (longer.symm.trans shape)
  simp only [Option.map_some, Option.some.injEq] at tails
  rw [← whole, List.append_right_eq_self.mp tails, List.append_nil]

theorem line_fields (clean : newline ∉ event.line) :
    newline ∉ event.actor ∧ newline ∉ event.target ∧ newline ∉ event.prevHash ∧
      newline ∉ event.paramsHash ∧ newline ∉ event.paramsJson := by
  simp only [line, fields, joinFields, List.foldr_cons, List.foldr_nil, List.mem_append,
    List.mem_cons, not_or] at clean
  tauto

theorem parsed_legible (clean : newline ∉ event.line)
    (parsed : parseEventLine event.line = some (event.bare, event.paramsJson)) : event.Legible := by
  have barless := parsed_barless parsed
  obtain ⟨actor, target, prevHash, paramsHash, paramsJson⟩ := line_fields clean
  exact ⟨⟨barless _ (by simp [fields]), actor⟩, ⟨barless _ (by simp [fields]), target⟩,
    ⟨barless _ (by simp [fields]), prevHash⟩, ⟨barless _ (by simp [fields]), paramsHash⟩, paramsJson⟩

end AuditEvent

theorem line_front {line whole : Bytes} (front : line ++ [newline] <+: whole ++ [newline]) :
    line <+: whole := by
  have shorter := front.length_le
  simp only [List.length_append, List.length_singleton] at shorter
  exact List.prefix_of_prefix_length_le ((List.prefix_append _ _).trans front)
    (List.prefix_append _ _) (by omega)

theorem exec_appended {site next : AuditSite} {request : AuditRequest} {attempt : Attempt}
    {sequence : UInt64}
    (appended : site.exec sha512 (.append request attempt) = (.appended (.ok sequence), next)) :
    Inserts (site.logger.eventFor sha512 request).pieces attempt.insertions ∧
      next = ⟨site.logger.advanced sha512 request, some
        (print (site.file.getD []) (site.logger.eventFor sha512 request).pieces attempt).2⟩ := by
  cases opens : attempt.opens with
  | false =>
      simp only [AuditSite.exec, AuditLogger.append, opens, Bool.false_eq_true, if_false] at appended
      cases appended
  | true =>
      have same : site.exec sha512 (.append request attempt) =
          request.append sha512 site.logger (site.file.getD []) attempt := by
        simp only [AuditRequest.append, AuditSite.exec, AuditLogger.append, opens, if_true,
          Option.getD_some]
      rw [same] at appended
      rcases append_cases sha512 site.logger (site.file.getD []) request attempt with
        ⟨closed, -⟩ | ⟨-, inserts, outcome⟩ | ⟨-, -, outcome⟩
      · simp [opens] at closed
      · cases outcome.symm.trans appended
        exact ⟨inserts, rfl⟩
      · cases outcome.symm.trans appended

/-- A record that was appended reads back exactly when its texts are clean and the stream brought it to
the file. -/
theorem record_survives_iff {site next : AuditSite} {request : AuditRequest} {attempt : Attempt}
    {sequence : UInt64}
    (appended : site.exec sha512 (.append request attempt) = (.appended (.ok sequence), next)) :
    RecordSurvives sha512 site request next ↔
      request.Clean ∧ Plain site.logger.prevHash ∧
        Flushes (site.logger.eventFor sha512 request).pieces attempt := by
  obtain ⟨inserts, rfl⟩ := exec_appended appended
  have whole := @print_whole (site.file.getD []) _ attempt inserts
  rw [AuditEvent.pieces_flatten] at whole
  constructor
  · intro survives
    obtain ⟨line, clean, file, parsed⟩ := survives.added
    have front := @print_front (site.file.getD []) _ attempt inserts
    rw [Option.some.injEq] at file
    rw [AuditEvent.pieces_flatten, file, List.prefix_append_right_inj] at front
    have same := AuditEvent.parsed_whole (line_front front) parsed
    rw [same] at clean parsed file
    have legible := AuditEvent.parsed_legible clean parsed
    exact ⟨⟨legible.actor, legible.target, legible.paramsJson⟩, legible.prevHash, whole.mp file⟩
  · rintro ⟨clean, head, flushes⟩
    have legible := @eventFor_legible sha512 site.logger request head clean
    have file := whole.mpr flushes
    refine ⟨⟨_, legible.line_newline, congrArg some file, legible.parse_line⟩, ?_⟩
    intro content before continues
    rw [file, before]
    exact (continues.push clean).verifies

theorem chainSite_continues {head : Bytes} (plain : Plain head) {requests : List AuditRequest}
    (clean : ∀ request ∈ requests, request.Clean) :
    (chainSite sha512 head requests).logger.Continues sha512
      (auditText head (chainEvents sha512 { prevHash := head } requests)) := by
  induction requests using List.reverseRecOn with
  | nil =>
      have line := @lines_auditText head [] plain (by simp) []
      rw [List.append_nil] at line
      refine ⟨?_, plain, head, [], [], line, ⟨rfl, trivial, by simp⟩, rfl⟩
      rw [chainEvents, auditText, List.map_nil, unlines_cons, unlines_nil]
      exact List.getLast?_concat
  | append_singleton requests request ih =>
      have earlier := ih fun other member => clean other (by simp [member])
      have later := earlier.push (clean request (by simp))
      rw [chainEvents_concat, auditText_append, List.map_singleton, unlines_cons, unlines_nil,
        chainSite, loggerAfter_append]
      exact later

theorem sampleStart_chain : sampleStart = chainSite sampleSha512 (sampleGenesis.hash sampleSha512) [] :=
  fresh_site (by decide)

theorem sampleStart_append (request : AuditRequest) :
    sampleStart.exec sampleSha512 (.append request {}) =
      (.appended (.ok 1), chainSite sampleSha512 (sampleGenesis.hash sampleSha512) [request]) := by
  rw [sampleStart_chain]
  exact append_site (by decide) _ [] request

theorem record_survives_iff_alice :
    RecordSurvives sampleSha512 sampleStart aliceRequest
      (chainSite sampleSha512 (sampleGenesis.hash sampleSha512) [aliceRequest]) := by
  refine (record_survives_iff (sampleStart_append aliceRequest)).mpr ⟨by decide, ?_, by simp [Flushes]⟩
  rw [sampleStart_chain]
  exact sha512Hex_plain _

def barredRequest : AuditRequest := { aliceRequest with target := ascii "node|1" }

/-- A bar in the target moves every field behind it, and the file no longer verifies. -/
theorem barred_record_lost :
    sampleStart.logger.Continues sampleSha512 (sampleStart.file.getD []) ∧
      ∃ next, sampleStart.exec sampleSha512 (.append barredRequest {}) = (.appended (.ok 1), next) ∧
        ¬ RecordSurvives sampleSha512 sampleStart barredRequest next ∧
        AuditLogger.verifyChain sampleSha512 next.file = .ok false := by
  refine ⟨?_, _, sampleStart_append barredRequest, ?_, by decide +kernel⟩
  · rw [sampleStart_chain]
    exact @chainSite_continues sampleSha512 _ (sha512Hex_plain _) [] (by simp)
  · intro survives
    obtain ⟨line, -, -, parsed⟩ := survives.added
    exact absurd (AuditEvent.parsed_barless parsed barredRequest.target
      (by simp [AuditEvent.fields, AuditLogger.eventFor, AuditLogger.nextEvent])) (by decide)

end Udaf
