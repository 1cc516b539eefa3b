import Udaf.Audit.Tamper

/-!
The chain hash as a commitment. Two files that pass verification, hold equally
many records and end on one hash agree on the genesis value and on what every
record says under the chain.
-/

namespace Udaf

open ByteString Hex HashChain Text

def genesisOf (content : Bytes) : Option Bytes := (lines content).head?.map fun line => line.drop 8

section Digest

variable (sha512 : Bytes → Bytes)

def lastPrev : List Bytes → Bytes → Option Bytes
  | [], expectedPrev => some expectedPrev
  | line :: rest, expectedPrev =>
      if line.isEmpty then lastPrev rest expectedPrev
      else
        match parseEventLine line with
        | none => none
        | some (event, jsonTail) =>
            if event.prevHash ≠ expectedPrev then none
            else if computeParamsHash sha512 jsonTail ≠ event.paramsHash then none
            else lastPrev rest (nextHash sha512 expectedPrev event)

def chainHash (content : Bytes) : Option Bytes :=
  match lines content with
  | [] => none
  | first :: rest => lastPrev sha512 rest (first.drop 8)

end Digest

variable {sha512 : Bytes → Bytes}

theorem lastPrev_verifies {content : List Bytes} {head : Bytes}
    {records : List (AuditEvent × Bytes)} (verifies : Verifies sha512 content head records) :
    lastPrev sha512 content head = some (headOf (nextHash sha512) head (records.map Prod.fst)) := by
  induction content generalizing head records with
  | nil =>
      have none : records = [] := by simpa using verifies.parsed.symm
      rw [none]
      rfl
  | cons line content ih =>
      cases empty : line.isEmpty with
      | true =>
          rw [lastPrev, if_pos empty]
          exact ih ⟨by simpa [empty] using verifies.parsed, verifies.linked, verifies.hashes⟩
      | false =>
          have parsed := verifies.parsed
          rw [List.filter_cons_of_pos (by simp [empty]), List.map_cons] at parsed
          cases records with
          | nil => cases parsed
          | cons record records =>
              rw [List.map_cons, List.cons.injEq] at parsed
              have stored : record.1.prevHash = head := verifies.linked.1
              have hash := verifies.hashes record (by simp)
              simp only [lastPrev, empty, parsed.1, Bool.false_eq_true, if_false, stored, hash,
                ne_eq, not_true_eq_false]
              exact ih ⟨parsed.2, verifies.linked.2, fun other inside =>
                verifies.hashes other (by simp [inside])⟩

theorem verified_shape {content : Bytes}
    (verified : AuditLogger.verifyChain sha512 (some content) = .ok true) :
    ∃ (head : Bytes) (records : List (AuditEvent × Bytes)), genesisOf content = some head ∧
      (recordLines content).map parseEventLine = records.map some ∧
      Linked (nextHash sha512) AuditEvent.prevHash head (records.map Prod.fst) ∧
      (∀ record ∈ records, computeParamsHash sha512 record.2 = record.1.paramsHash) ∧
      chainHash sha512 content =
        some (headOf (nextHash sha512) head (records.map Prod.fst)) := by
  cases shape : lines content with
  | nil => simp [AuditLogger.verifyChain, shape] at verified
  | cons first rest =>
      simp only [AuditLogger.verifyChain, shape] at verified
      split at verified
      · cases verified
      · rw [Except.ok.injEq] at verified
        obtain ⟨records, verifies⟩ := (verifyLines_iff rest (first.drop 8)).mp verified
        refine ⟨first.drop 8, records, ?_, ?_, verifies.linked, verifies.hashes, ?_⟩
        · rw [genesisOf, shape]
          rfl
        · rw [recordLines, shape]
          exact verifies.parsed
        · rw [chainHash, shape]
          exact lastPrev_verifies verifies

theorem linked_head_plain {content : List Bytes} {head : Bytes}
    {records : List (AuditEvent × Bytes)} (parsed : content.map parseEventLine = records.map some)
    (linked : Linked (nextHash sha512) AuditEvent.prevHash head (records.map Prod.fst))
    (some : 0 < records.length) : bar ∉ head := by
  cases records with
  | nil => simp at some
  | cons record records =>
      have member : Option.some record ∈ content.map parseEventLine := by simp [parsed]
      obtain ⟨line, -, parses⟩ := List.mem_map.mp member
      rw [← linked.1]
      exact (parseEventLine_hashes parses).1

theorem committedOf_map {content : List Bytes} {records : List (AuditEvent × Bytes)}
    (parsed : content.map parseEventLine = records.map some) :
    content.map committedOf =
      (records.map fun record => (record.1.sequence, record.1.action, record.2)).map some := by
  have shape := congrArg (List.map fun parse =>
    parse.map fun record : AuditEvent × Bytes => (record.1.sequence, record.1.action, record.2)) parsed
  have unfolded : committedOf = fun line =>
      (parseEventLine line).map fun record => (record.1.sequence, record.1.action, record.2) := rfl
  simpa [unfolded, Function.comp_def] using shape

theorem records_committed (injective : Function.Injective sha512)
    {records others : List (AuditEvent × Bytes)}
    (hashes : ∀ record ∈ records, computeParamsHash sha512 record.2 = record.1.paramsHash)
    (hashesOther : ∀ record ∈ others, computeParamsHash sha512 record.2 = record.1.paramsHash)
    (keys : (records.map Prod.fst).map (fun event => (event.paramsHash, event.sequence, event.action)) =
      (others.map Prod.fst).map fun event => (event.paramsHash, event.sequence, event.action)) :
    records.map (fun record => (record.1.sequence, record.1.action, record.2)) =
      others.map fun record => (record.1.sequence, record.1.action, record.2) := by
  induction records generalizing others with
  | nil => simpa using keys
  | cons record records ih =>
      cases others with
      | nil => simp at keys
      | cons other others =>
          simp only [List.map_cons, List.cons.injEq, Prod.mk.injEq] at keys
          obtain ⟨⟨hash, sequence, action⟩, rest⟩ := keys
          have json : record.2 = other.2 := by
            rw [← hashes record (by simp), ← hashesOther other (by simp)] at hash
            exact injective (hexOf_injective hash)
          rw [List.map_cons, List.map_cons, sequence, action, json]
          rw [ih (fun record member => hashes record (by simp [member]))
            (fun record member => hashesOther record (by simp [member])) rest]

/-- Two files that verify, with as many records and one chain hash, say the same under the chain. -/
theorem chain_binding (injective : Function.Injective sha512) {content other : Bytes}
    (verified : AuditLogger.verifyChain sha512 (some content) = .ok true)
    (verifiedOther : AuditLogger.verifyChain sha512 (some other) = .ok true)
    (length : (recordLines content).length = (recordLines other).length)
    (nonempty : 1 ≤ (recordLines content).length)
    (same : chainHash sha512 content = chainHash sha512 other) :
    genesisOf content = genesisOf other ∧
      ∃ committed : List (UInt64 × ActionType × Bytes),
        (recordLines content).map committedOf = committed.map some ∧
          (recordLines other).map committedOf = committed.map some := by
  obtain ⟨head, records, genesis, parsed, linked, hashes, last⟩ := verified_shape verified
  obtain ⟨second, others, genesisOther, parsedOther, linkedOther, hashesOther, lastOther⟩ :=
    verified_shape verifiedOther
  have count := congrArg List.length parsed
  have countOther := congrArg List.length parsedOther
  rw [List.length_map, List.length_map] at count countOther
  have fit : ∀ (records : List (AuditEvent × Bytes)),
      (∀ record ∈ records, computeParamsHash sha512 record.2 = record.1.paramsHash) →
      ∀ event ∈ records.map Prod.fst, bar ∉ event.paramsHash := by
    intro records hashes event member
    obtain ⟨record, inside, rfl⟩ := List.mem_map.mp member
    rw [← hashes record inside]
    exact (sha512Hex_plain _).1
  rw [last, lastOther, Option.some.injEq] at same
  obtain ⟨heads, keys⟩ := @headOf_binds _ _ _ (nextHash sha512)
    (fun event => (event.paramsHash, event.sequence, event.action)) (fun head => bar ∉ head)
    (fun event => bar ∉ event.paramsHash) (fun _ _ _ => (sha512Hex_plain _).1)
    (nextHash_binds injective) head second (linked_head_plain parsed linked (by omega))
    (linked_head_plain parsedOther linkedOther (by omega)) _ _ (fit records hashes)
    (fit others hashesOther) (by rw [List.length_map, List.length_map]; omega) same
  refine ⟨by rw [genesis, genesisOther, heads], _, committedOf_map parsed, ?_⟩
  rw [records_committed injective hashes hashesOther keys]
  exact committedOf_map parsedOther

theorem chain_binding_actor : genesisOf sampleText = genesisOf actorForged ∧
    ∃ committed : List (UInt64 × ActionType × Bytes),
      (recordLines sampleText).map committedOf = committed.map some ∧
        (recordLines actorForged).map committedOf = committed.map some :=
  chain_binding sampleSha512_injective (by decide +kernel) (by decide +kernel) (by decide +kernel)
    (by decide +kernel) (by decide +kernel)

end Udaf
