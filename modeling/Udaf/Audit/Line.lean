import Udaf.Audit.Core

/-!
The text of an audit event. `parseEventLine` reads back the line of an event
whose fields hold no bar and no newline, and the text under a chain hash tells
apart what it was made from.
-/

namespace Udaf

open ByteString Decimal Hex OutStream Text

def Plain (text : Bytes) : Prop := bar ∉ text ∧ newline ∉ text

instance (text : Bytes) : Decidable (Plain text) := inferInstanceAs (Decidable (_ ∧ _))

structure AuditEvent.Legible (event : AuditEvent) : Prop where
  actor : Plain event.actor
  target : Plain event.target
  prevHash : Plain event.prevHash
  paramsHash : Plain event.paramsHash
  paramsJson : newline ∉ event.paramsJson

theorem plain_of_range {text : Bytes} (range : ∀ byte ∈ text, 44 < byte.toNat ∧ byte.toNat < 123) :
    Plain text := by
  constructor
  · intro member
    exact absurd (range _ member).2 (by decide)
  · intro member
    exact absurd (range _ member).1 (by decide)

theorem decimal_plain (number : Nat) : Plain (decimal number) := by
  apply plain_of_range
  intro byte member
  have digit := decimal_digits number byte member
  simp only [isDigit, decide_eq_true_eq] at digit
  omega

theorem decimalInt_plain (number : Int) : Plain (decimalInt number) := by
  obtain ⟨bars, newlines⟩ := decimal_plain number.natAbs
  rw [decimalInt]
  split
  · constructor
    · simpa [bar] using bars
    · simpa [newline] using newlines
  · exact ⟨bars, newlines⟩

theorem hexOf_plain (bytes : Bytes) : Plain (hexOf bytes) := by
  apply plain_of_range
  intro byte member
  have range := hexOf_range member
  omega

theorem actionName_plain (action : ActionType) : Plain (actionName action) := by
  cases action <;> decide

theorem actionOf_actionName (action : ActionType) : actionOf (actionName action) = action := by
  cases action <;> decide

theorem value_injective {first second : ActionType} (same : first.value = second.value) :
    first = second := by
  cases first <;> cases second <;> first | rfl | cases same

namespace AuditEvent

def fields (event : AuditEvent) : List Bytes :=
  [decimal event.sequence.toNat, actionName event.action, event.actor, event.target,
    decimalInt event.timestampNs.toInt, event.prevHash, event.paramsHash]

def line (event : AuditEvent) : Bytes := joinFields bar event.fields event.paramsJson

def bare (event : AuditEvent) : AuditEvent := { event with paramsJson := [] }

theorem pieces_flatten (event : AuditEvent) : event.pieces.flatten = event.line ++ [newline] := by
  simp [pieces, line, fields, joinFields]

theorem line_ne_nil (event : AuditEvent) : event.line ≠ [] := by
  simp [line, fields, joinFields]

theorem Legible.fields_plain {event : AuditEvent} (legible : event.Legible) :
    ∀ field ∈ event.fields, Plain field := by
  intro field member
  simp only [fields, List.mem_cons, List.not_mem_nil, or_false] at member
  rcases member with rfl | rfl | rfl | rfl | rfl | rfl | rfl
  · exact decimal_plain _
  · exact actionName_plain _
  · exact legible.actor
  · exact legible.target
  · exact decimalInt_plain _
  · exact legible.prevHash
  · exact legible.paramsHash

theorem Legible.line_newline {event : AuditEvent} (legible : event.Legible) :
    newline ∉ event.line := by
  have clean := legible.fields_plain
  have json := legible.paramsJson
  rw [line]
  generalize event.fields = fields at clean
  induction fields with
  | nil => exact json
  | cons field fields ih =>
      intro member
      rcases List.mem_append.mp member with here | later
      · exact (clean field (by simp)).2 here
      · rcases List.mem_cons.mp later with separator | rest
        · exact absurd separator (by decide)
        · exact ih (fun other inside => clean other (by simp [inside])) rest

theorem Legible.parse_line {event : AuditEvent} (legible : event.Legible) :
    parseEventLine event.line = some (event.bare, event.paramsJson) := by
  have cut := cutFields_join (fun field member => (legible.fields_plain field member).1)
    event.paramsJson
  have sequence := stoull_decimal event.sequence.toNat_lt
  rw [UInt64.ofNat_toNat] at sequence
  rw [show event.fields.length = 7 from rfl] at cut
  rw [parseEventLine, line, cut]
  simp only [fields, sequence, stoll_decimalInt, actionOf_actionName]
  rfl

end AuditEvent

theorem parseEventLine_some {line : Bytes} {event : AuditEvent} {jsonTail : Bytes}
    (parsed : parseEventLine line = some (event, jsonTail)) :
    ∃ sequence action timestampNs,
      cutFields bar 7 line = some ([sequence, action, event.actor, event.target, timestampNs,
        event.prevHash, event.paramsHash], jsonTail) ∧
        stoull sequence = some event.sequence ∧ stoll timestampNs = some event.timestampNs := by
  rw [parseEventLine] at parsed
  split at parsed
  · rename_i sequence action actor target timestampNs prevHash paramsHash tail cut
    split at parsed
    · rename_i number time first second
      cases parsed
      exact ⟨sequence, action, timestampNs, cut, first, second⟩
    · cases parsed
  · cases parsed

theorem parseEventLine_hashes {line : Bytes} {event : AuditEvent} {jsonTail : Bytes}
    (parsed : parseEventLine line = some (event, jsonTail)) :
    bar ∉ event.prevHash ∧ bar ∉ event.paramsHash := by
  obtain ⟨sequence, action, timestampNs, cut, -⟩ := parseEventLine_some parsed
  obtain ⟨-, clean, -⟩ := cutFields_some cut
  exact ⟨clean _ (by simp), clean _ (by simp)⟩

theorem parseEventLine_short {line : Bytes} (bars : line.count bar < 7) :
    parseEventLine line = none := by
  by_contra parses
  obtain ⟨⟨event, jsonTail⟩, parsed⟩ := Option.ne_none_iff_exists'.mp parses
  obtain ⟨sequence, action, timestampNs, cut, -⟩ := parseEventLine_some parsed
  obtain ⟨length, clean, split⟩ := cutFields_some cut
  obtain ⟨front, count, shape⟩ := joinFields_split _ jsonTail clean
  rw [split, shape, List.count_append, count, length] at bars
  omega

theorem linkInput_join (head paramsHash : Bytes) (sequence : UInt64) (action : ActionType) :
    linkInput head paramsHash sequence action =
      joinFields bar [head, paramsHash, decimal sequence.toNat] (decimal action.value) := by
  simp [linkInput, joinFields]

theorem linkInput_injective {head other paramsHash otherHash : Bytes} {sequence number : UInt64}
    {action second : ActionType} (headBar : bar ∉ head) (otherBar : bar ∉ other)
    (hashBar : bar ∉ paramsHash) (otherHashBar : bar ∉ otherHash)
    (same : linkInput head paramsHash sequence action = linkInput other otherHash number second) :
    head = other ∧ paramsHash = otherHash ∧ sequence = number ∧ action = second := by
  have clean : ∀ (first middle : Bytes) (value : UInt64), bar ∉ first → bar ∉ middle →
      ∀ field ∈ [first, middle, decimal value.toNat], bar ∉ field := by
    intro first middle value firstBar middleBar field member
    simp only [List.mem_cons, List.not_mem_nil, or_false] at member
    rcases member with rfl | rfl | rfl
    · exact firstBar
    · exact middleBar
    · exact (decimal_plain _).1
  rw [linkInput_join, linkInput_join] at same
  obtain ⟨fields, tail⟩ := joinFields_injective (clean _ _ sequence headBar hashBar)
    (clean _ _ number otherBar otherHashBar) rfl same
  simp only [List.cons.injEq, and_true] at fields
  obtain ⟨heads, hashes, numbers⟩ := fields
  exact ⟨heads, hashes, UInt64.toNat_inj.mp (decimal_injective numbers),
    value_injective (decimal_injective tail)⟩

end Udaf
