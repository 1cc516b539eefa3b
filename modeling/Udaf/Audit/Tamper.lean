import Udaf.Audit.Recovery

/-!
What the hash chain commits to. A head stands for the sequence, the action and
the parameters of every record under it, so an edit of one of these shows as
long as the hash stored in some later record is left as it was.
-/

namespace Udaf

open ByteString Decimal Hex FrameLog HashChain OutStream Runs Text

def recordLines (content : Bytes) : List Bytes :=
  (lines content).tail.filter fun line => !line.isEmpty

def committedOf (line : Bytes) : Option (UInt64 × ActionType × Bytes) :=
  (parseEventLine line).map fun record => (record.1.sequence, record.1.action, record.2)

def storedPrev (line : Bytes) : Option Bytes :=
  (parseEventLine line).map fun record => record.1.prevHash

variable {sha512 : Bytes → Bytes}

theorem nextHash_binds (injective : Function.Injective sha512) (head other : Bytes)
    (event second : AuditEvent) (headBar : bar ∉ head) (otherBar : bar ∉ other)
    (eventBar : bar ∉ event.paramsHash) (secondBar : bar ∉ second.paramsHash)
    (same : nextHash sha512 head event = nextHash sha512 other second) :
    head = other ∧ (event.paramsHash, event.sequence, event.action) =
      (second.paramsHash, second.sequence, second.action) := by
  obtain ⟨heads, hashes, sequences, actions⟩ := linkInput_injective headBar otherBar eventBar
    secondBar (injective (hexOf_injective same))
  exact ⟨heads, by rw [hashes, sequences, actions]⟩

theorem chainEvents_hashes {logger : AuditLogger} {requests : List AuditRequest} :
    ∀ event ∈ chainEvents sha512 logger requests,
      event.paramsHash = computeParamsHash sha512 event.paramsJson := by
  induction requests generalizing logger with
  | nil => simp [chainEvents]
  | cons request requests ih =>
      intro event member
      rcases List.mem_cons.mp member with rfl | later
      · rfl
      · exact ih event later

theorem lines_auditText_head {head : Bytes} (plain : Plain head) (events : List AuditEvent) :
    (lines (auditText head events)).head? = some (genesisTag ++ head) := by
  have clean : newline ∉ genesisTag ++ head := by
    rw [List.mem_append, not_or]
    exact ⟨by decide, plain.2⟩
  rw [auditText, unlines_cons, lines_line clean]
  rfl

theorem verified_records {head content : Bytes}
    (first : (lines content).head? = some (genesisTag ++ head))
    (verified : AuditLogger.verifyChain sha512 (some content) = .ok true) :
    ∃ records, Verifies sha512 (lines content).tail head records := by
  cases shape : lines content with
  | nil => simp [shape] at first
  | cons line rest =>
      rw [shape, List.head?_cons, Option.some.injEq] at first
      simp only [AuditLogger.verifyChain, shape, first, genesis_line, ne_eq, not_true_eq_false,
        if_false, Except.ok.injEq] at verified
      exact (verifyLines_iff rest head).mp verified

theorem Verifies.record_of_line {content : List Bytes} {head : Bytes}
    {records : List (AuditEvent × Bytes)} (verifies : Verifies sha512 content head records)
    {index : Nat} {line : Bytes}
    (found : (content.filter fun line => !line.isEmpty)[index]? = some line) :
    ∃ record, records[index]? = some record ∧ parseEventLine line = some record := by
  have here := congrArg (fun parsed => parsed[index]?) verifies.parsed
  simp only [List.getElem?_map, found, Option.map_some] at here
  cases there : records[index]? with
  | none => simp [there] at here
  | some record =>
      rw [there, Option.map_some, Option.some.injEq] at here
      exact ⟨record, rfl, here⟩

theorem stored_binds (injective : Function.Injective sha512) {head : Bytes} (headBar : bar ∉ head)
    {events others : List AuditEvent}
    (linked : Linked (nextHash sha512) AuditEvent.prevHash head events)
    (linkedOthers : Linked (nextHash sha512) AuditEvent.prevHash head others)
    (fit : ∀ event ∈ events, bar ∉ event.paramsHash)
    (fitOthers : ∀ event ∈ others, bar ∉ event.paramsHash)
    {earlier later : Nat} (order : earlier < later) {event other first second : AuditEvent}
    (eventAt : events[later]? = some event) (otherAt : others[later]? = some other)
    (stored : event.prevHash = other.prevHash)
    (firstAt : events[earlier]? = some first) (secondAt : others[earlier]? = some second) :
    (first.paramsHash, first.sequence, first.action) =
      (second.paramsHash, second.sequence, second.action) := by
  have inside := (List.getElem?_eq_some_iff.mp eventAt).1
  have insideOthers := (List.getElem?_eq_some_iff.mp otherAt).1
  have heads : headOf (nextHash sha512) head (events.take later) =
      headOf (nextHash sha512) head (others.take later) := by
    rw [← linked_prev _ _ linked eventAt, ← linked_prev _ _ linkedOthers otherAt, stored]
  have lengths : (events.take later).length = (others.take later).length := by
    rw [List.length_take, List.length_take]
    omega
  obtain ⟨-, keys⟩ := @headOf_binds _ _ _ (nextHash sha512)
    (fun event => (event.paramsHash, event.sequence, event.action)) (fun head => bar ∉ head)
    (fun event => bar ∉ event.paramsHash) (fun _ _ _ => (sha512Hex_plain _).1)
    (nextHash_binds injective) head head headBar headBar _ _
    (fun event member => fit event (List.mem_of_mem_take member))
    (fun event member => fitOthers event (List.mem_of_mem_take member)) lengths heads
  have here := congrArg (fun keys => keys[earlier]?) keys
  simpa [List.getElem?_take, order, firstAt, secondAt] using here

/-- With a later stored hash left as it was, a change of sequence, action or parameters shows. -/
theorem tamper_evident (injective : Function.Injective sha512) {genesis : Genesis}
    (succeeds : genesis.attempt.Succeeds) {calls : List AuditCall} {site : AuditSite}
    (run : Run (AuditStep sha512) (AuditSite.opened sha512 none genesis) calls site)
    (reopens : ReopensClean [] calls) {content : Bytes} (file : site.file = some content)
    {modified : Bytes} (firstLine : (lines modified).head? = (lines content).head?)
    {earlier later : Nat} (order : earlier < later) {first event : AuditEvent}
    (firstAt : (writtenEvents sha512 genesis calls)[earlier]? = some first)
    (eventAt : (writtenEvents sha512 genesis calls)[later]? = some event)
    (kept : (recordLines modified)[later]?.bind storedPrev = some event.prevHash)
    (changed : (recordLines modified)[earlier]?.bind committedOf ≠
      some (first.sequence, first.action, first.paramsJson)) :
    AuditLogger.verifyChain sha512 (some modified) ≠ .ok true := by
  intro verified
  have plain : Plain (genesis.hash sha512) := sha512Hex_plain _
  rw [fresh_site succeeds] at run
  have final := run_chain plain run reopens
  rw [final, chainSite, Option.some.injEq, List.nil_append] at file
  rw [← file, lines_auditText_head plain] at firstLine
  obtain ⟨records, verifies⟩ := verified_records firstLine verified
  obtain ⟨line, lineAt, prev⟩ := Option.bind_eq_some_iff.mp kept
  obtain ⟨record, recordAt, parsed⟩ := verifies.record_of_line lineAt
  rw [storedPrev, parsed, Option.map_some, Option.some.injEq] at prev
  have below : earlier < (recordLines modified).length := by
    have inside := (List.getElem?_eq_some_iff.mp lineAt).1
    omega
  obtain ⟨changedRecord, changedAt, changedParsed⟩ :=
    verifies.record_of_line (List.getElem?_eq_getElem below)
  have fit : ∀ other ∈ records.map Prod.fst, bar ∉ other.paramsHash := by
    intro other member
    obtain ⟨pair, inside, rfl⟩ := List.mem_map.mp member
    rw [← verifies.hashes pair inside]
    exact (sha512Hex_plain _).1
  have fitEvents : ∀ other ∈ writtenEvents sha512 genesis calls, bar ∉ other.paramsHash := by
    intro other member
    rw [chainEvents_hashes other member]
    exact (sha512Hex_plain _).1
  have linked : Linked (nextHash sha512) AuditEvent.prevHash (genesis.hash sha512)
      (writtenEvents sha512 genesis calls) :=
    linked_chainEvents { prevHash := genesis.hash sha512 } (requestsOf calls)
  have keys := stored_binds injective plain.1 verifies.linked linked fit fitEvents
    order (by rw [List.getElem?_map, recordAt]; rfl) eventAt prev
    (by rw [List.getElem?_map, changedAt]; rfl) firstAt
  simp only [Prod.mk.injEq] at keys
  obtain ⟨hashes, sequences, actions⟩ := keys
  have json : changedRecord.2 = first.paramsJson := by
    have hash := verifies.hashes changedRecord (List.mem_of_getElem? changedAt)
    rw [hashes, chainEvents_hashes first (List.mem_of_getElem? firstAt)] at hash
    exact injective (hexOf_injective hash)
  apply changed
  rw [List.getElem?_eq_getElem below, Option.bind_some, committedOf, changedParsed, Option.map_some,
    sequences, actions, json]

/-- Another file with the same first line and as many lines, in which some record that is not the
last says something else. -/
def Tampered (content modified : Bytes) : Prop :=
  (lines modified).head? = (lines content).head? ∧
    (lines modified).length = (lines content).length ∧
    ∃ index, index + 1 < (recordLines content).length ∧
      (recordLines modified)[index]?.bind numberedRecord ≠
        (recordLines content)[index]?.bind numberedRecord

theorem digestBytes_injective {first second : Nat} (bound : first < 256 ^ 64)
    (bounded : second < 256 ^ 64) (same : digestBytes first = digestBytes second) :
    first = second := by
  rw [digestBytes, digestBytes, List.reverse_inj] at same
  rw [← leNat_leBytes 64 first bound, same, leNat_leBytes 64 second bounded]

theorem digestBytes_ne (digest : Nat) (data : Bytes) :
    digestBytes digest ≠ List.replicate 65 0 ++ data := by
  intro same
  have lengths := congrArg List.length same
  simp only [digestBytes, List.length_append, List.length_replicate, List.length_reverse,
    leBytes_length] at lengths
  omega

theorem lookup_mem {data : Bytes} {digest : Nat}
    (found : sampleDigests.lookup data = some digest) : (data, digest) ∈ sampleDigests := by
  obtain ⟨front, back, split, -⟩ := List.lookup_eq_some_iff.mp found
  rw [split]
  simp

theorem sampleSha512_injective : Function.Injective sampleSha512 := by
  have bounds : ∀ pair ∈ sampleDigests, pair.2 < 256 ^ 64 := by decide +kernel
  have distinct : ∀ pair ∈ sampleDigests, ∀ other ∈ sampleDigests,
      pair.2 = other.2 → pair.1 = other.1 := by decide +kernel
  intro first second same
  simp only [sampleSha512] at same
  cases here : sampleDigests.lookup first with
  | none =>
      cases there : sampleDigests.lookup second with
      | none =>
          simp only [here, there] at same
          exact List.append_cancel_left same
      | some digest =>
          simp only [here, there] at same
          exact absurd same.symm (digestBytes_ne digest first)
  | some digest =>
      cases there : sampleDigests.lookup second with
      | none =>
          simp only [here, there] at same
          exact absurd same (digestBytes_ne digest second)
      | some other =>
          simp only [here, there] at same
          have firstIn := lookup_mem here
          have secondIn := lookup_mem there
          exact distinct _ firstIn _ secondIn
            (digestBytes_injective (bounds _ firstIn) (bounds _ secondIn) same)

def sampleEdited (edit : AuditEvent → AuditEvent) : Bytes :=
  auditText (sampleGenesis.hash sampleSha512)
    ((writtenEvents sampleSha512 sampleGenesis sampleRun.1).map fun event =>
      if event.sequence = 1 then edit event else event)

def jsonForged : Bytes :=
  sampleEdited fun event =>
    { event with
      paramsJson := forgedJson
      paramsHash := computeParamsHash sampleSha512 forgedJson }

def actorForged : Bytes := sampleEdited fun event => { event with actor := ascii "mallory" }

def chainForged : Bytes :=
  auditText (sampleGenesis.hash sampleSha512)
    (chainEvents sampleSha512 { prevHash := sampleGenesis.hash sampleSha512 }
      [{ aliceRequest with paramsJson := forgedJson }, bobRequest])

def sampleFirst : AuditEvent :=
  AuditLogger.eventFor sampleSha512 { prevHash := sampleGenesis.hash sampleSha512 } aliceRequest

def sampleSecond : AuditEvent :=
  AuditLogger.eventFor sampleSha512
    (AuditLogger.advanced sampleSha512 { prevHash := sampleGenesis.hash sampleSha512 } aliceRequest)
    bobRequest

theorem tamper_evident_json :
    AuditLogger.verifyChain sampleSha512 (some jsonForged) ≠ .ok true := by
  have firstLine : (lines jsonForged).head? = (lines sampleText).head? := by decide +kernel
  have firstAt : (writtenEvents sampleSha512 sampleGenesis sampleRun.1)[0]? = some sampleFirst := by
    decide +kernel
  have secondAt : (writtenEvents sampleSha512 sampleGenesis sampleRun.1)[1]? = some sampleSecond := by
    decide +kernel
  have kept : (recordLines jsonForged)[1]?.bind storedPrev = some sampleSecond.prevHash := by
    decide +kernel
  have changed : (recordLines jsonForged)[0]?.bind committedOf ≠
      some (sampleFirst.sequence, sampleFirst.action, sampleFirst.paramsJson) := by
    decide +kernel
  have allowed : ∀ call ∈ sampleRun.1, call.op.Clean := by decide +kernel
  have clean := @reopensClean_of_clean [] sampleRun.1 (by simp) allowed
  exact tamper_evident sampleSha512_injective (by decide) sampleRun_run clean sampleRun_file firstLine
    (by decide) firstAt secondAt kept changed

/-- A changed actor and a chain computed anew both pass. -/
theorem tamper_not_evident :
    Function.Injective sampleSha512 ∧
    Run (AuditStep sampleSha512) (AuditSite.opened sampleSha512 none sampleGenesis)
      sampleRun.1 sampleRun.2 ∧
    sampleRun.2.file = some sampleText ∧
    (Tampered sampleText actorForged ∧
      AuditLogger.verifyChain sampleSha512 (some actorForged) = .ok true) ∧
    (Tampered sampleText chainForged ∧
      AuditLogger.verifyChain sampleSha512 (some chainForged) = .ok true) := by
  refine ⟨sampleSha512_injective, sampleRun_run, sampleRun_file, ⟨?_, by decide +kernel⟩,
    ?_, by decide +kernel⟩
  · exact ⟨by decide +kernel, by decide +kernel, 0, by decide +kernel, by decide +kernel⟩
  · exact ⟨by decide +kernel, by decide +kernel, 0, by decide +kernel, by decide +kernel⟩

end Udaf
