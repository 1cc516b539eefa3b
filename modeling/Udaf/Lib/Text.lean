import Udaf.Lib.Bytes

/-! Text as lines, the way `std::getline` reads them, and lines as separated fields. -/

namespace Text

open ByteString

def newline : UInt8 := 10

/-- The end of the text closes a line only if something stands behind the last newline. -/
def lines : Bytes → List Bytes
  | [] => []
  | byte :: rest =>
      if byte = newline then [] :: lines rest
      else
        match lines rest with
        | [] => [[byte]]
        | line :: others => (byte :: line) :: others

def unlines (content : List Bytes) : Bytes := content.flatMap fun line => line ++ [newline]

@[simp] theorem lines_nil : lines [] = [] := rfl

theorem lines_line {line : Bytes} (clean : newline ∉ line) (rest : Bytes) :
    lines (line ++ newline :: rest) = line :: lines rest := by
  induction line with
  | nil => simp [lines]
  | cons byte line ih =>
      have other : byte ≠ newline := fun same => clean (by simp [same])
      have inner := ih fun member => clean (by simp [member])
      rw [List.cons_append, lines, if_neg other, inner]

theorem lines_tail {tail : Bytes} (clean : newline ∉ tail) (nonempty : tail ≠ []) :
    lines tail = [tail] := by
  induction tail with
  | nil => exact absurd rfl nonempty
  | cons byte tail ih =>
      have other : byte ≠ newline := fun same => clean (by simp [same])
      rw [lines, if_neg other]
      by_cases last : tail = []
      · rw [last, lines]
      · rw [ih (fun member => clean (by simp [member])) last]

@[simp] theorem unlines_nil : unlines [] = [] := rfl

@[simp] theorem unlines_cons (line : Bytes) (content : List Bytes) :
    unlines (line :: content) = line ++ newline :: unlines content := by
  simp [unlines]

@[simp] theorem unlines_append (front back : List Bytes) :
    unlines (front ++ back) = unlines front ++ unlines back := by
  simp [unlines]

theorem lines_unlines {content : List Bytes} (clean : ∀ line ∈ content, newline ∉ line)
    (rest : Bytes) : lines (unlines content ++ rest) = content ++ lines rest := by
  induction content with
  | nil => simp
  | cons line content ih =>
      rw [unlines_cons, List.append_assoc, List.cons_append, lines_line (clean line (by simp)),
        ih fun other member => clean other (by simp [member]), List.cons_append]

theorem split_lines (text : Bytes) :
    ∃ content tail, (∀ line ∈ content, newline ∉ line) ∧ newline ∉ tail ∧
      text = unlines content ++ tail := by
  induction text with
  | nil => exact ⟨[], [], by simp, by simp, rfl⟩
  | cons byte text ih =>
      obtain ⟨content, tail, clean, cleanTail, split⟩ := ih
      by_cases closes : byte = newline
      · refine ⟨[] :: content, tail, ?_, cleanTail, by simp [closes, split]⟩
        simpa using clean
      · cases content with
        | nil =>
            refine ⟨[], byte :: tail, by simp, ?_, by simp [split]⟩
            simpa [Ne.symm closes] using cleanTail
        | cons line content =>
            refine ⟨(byte :: line) :: content, tail, ?_, cleanTail, by simp [split]⟩
            intro other member
            rcases List.mem_cons.mp member with rfl | later
            · simpa [Ne.symm closes] using clean line (by simp)
            · exact clean other (by simp [later])

theorem lines_closed {text : Bytes} (closed : text.getLast? = some newline) (rest : Bytes) :
    lines (text ++ rest) = lines text ++ lines rest := by
  obtain ⟨content, tail, clean, cleanTail, rfl⟩ := split_lines text
  have whole : tail = [] := by
    by_contra torn
    rw [List.getLast?_append_of_ne_nil _ torn] at closed
    exact cleanTail (List.mem_of_getLast? closed)
  rw [whole, List.append_nil, lines_unlines clean]
  have alone := lines_unlines clean []
  rw [List.append_nil, lines_nil, List.append_nil] at alone
  rw [alone]

theorem lines_single {line : Bytes} (clean : newline ∉ line) : lines (line ++ [newline]) = [line] := by
  simpa using @lines_unlines [line] (by simpa using clean) []

def takeField (separator : UInt8) : Bytes → Option (Bytes × Bytes)
  | [] => none
  | byte :: rest =>
      if byte = separator then some ([], rest)
      else (takeField separator rest).map fun (field, behind) => (byte :: field, behind)

def cutFields (separator : UInt8) : Nat → Bytes → Option (List Bytes × Bytes)
  | 0, text => some ([], text)
  | count + 1, text =>
      match takeField separator text with
      | none => none
      | some (field, rest) =>
          (cutFields separator count rest).map fun (fields, tail) => (field :: fields, tail)

def joinFields (separator : UInt8) (fields : List Bytes) (tail : Bytes) : Bytes :=
  fields.foldr (fun field rest => field ++ separator :: rest) tail

variable {separator : UInt8}

theorem takeField_here {field : Bytes} (clean : separator ∉ field) (rest : Bytes) :
    takeField separator (field ++ separator :: rest) = some (field, rest) := by
  induction field with
  | nil => simp [takeField]
  | cons byte field ih =>
      have other : byte ≠ separator := fun same => clean (by simp [same])
      rw [List.cons_append, takeField, if_neg other, ih fun member => clean (by simp [member])]
      rfl

theorem takeField_none {text : Bytes} (absent : separator ∉ text) :
    takeField separator text = none := by
  induction text with
  | nil => rfl
  | cons byte text ih =>
      have other : byte ≠ separator := fun same => absent (by simp [same])
      rw [takeField, if_neg other, ih fun member => absent (by simp [member])]
      rfl

theorem takeField_some {text field rest : Bytes}
    (found : takeField separator text = some (field, rest)) :
    separator ∉ field ∧ text = field ++ separator :: rest := by
  induction text generalizing field with
  | nil => cases found
  | cons byte text ih =>
      rw [takeField] at found
      split at found
      · rename_i same
        cases found
        exact ⟨by simp, by simp [same]⟩
      · rename_i other
        simp only [Option.map_eq_some_iff, Prod.mk.injEq] at found
        obtain ⟨⟨front, behind⟩, inner, rfl, rfl⟩ := found
        obtain ⟨clean, split⟩ := ih inner
        refine ⟨?_, by rw [split, List.cons_append]⟩
        intro member
        rcases List.mem_cons.mp member with same | later
        · exact other same.symm
        · exact clean later

theorem cutFields_join {fields : List Bytes} (clean : ∀ field ∈ fields, separator ∉ field)
    (tail : Bytes) :
    cutFields separator fields.length (joinFields separator fields tail) = some (fields, tail) := by
  induction fields with
  | nil => rfl
  | cons field fields ih =>
      simp only [List.length_cons, cutFields, joinFields, List.foldr_cons,
        takeField_here (clean field (by simp))]
      rw [← joinFields, ih fun other member => clean other (by simp [member])]
      rfl

theorem joinFields_append (fields : List Bytes) (tail rest : Bytes) :
    joinFields separator fields (tail ++ rest) = joinFields separator fields tail ++ rest := by
  induction fields with
  | nil => rfl
  | cons field fields ih =>
      simp only [joinFields, List.foldr_cons, List.append_assoc, List.cons_append] at ih ⊢
      rw [ih]

theorem joinFields_injective {fields others : List Bytes} {tail rest : Bytes}
    (clean : ∀ field ∈ fields, separator ∉ field) (cleanOthers : ∀ field ∈ others, separator ∉ field)
    (length : fields.length = others.length)
    (same : joinFields separator fields tail = joinFields separator others rest) :
    fields = others ∧ tail = rest := by
  have first := cutFields_join clean tail
  rw [same, length, cutFields_join cleanOthers rest, Option.some.injEq, Prod.mk.injEq] at first
  exact ⟨first.1.symm, first.2.symm⟩

theorem cutFields_some {count : Nat} {text tail : Bytes} {fields : List Bytes}
    (found : cutFields separator count text = some (fields, tail)) :
    fields.length = count ∧ (∀ field ∈ fields, separator ∉ field) ∧
      text = joinFields separator fields tail := by
  induction count generalizing text fields with
  | zero =>
      cases found
      exact ⟨rfl, by simp, rfl⟩
  | succ count ih =>
      rw [cutFields] at found
      split at found
      · cases found
      · rename_i field rest first
        simp only [Option.map_eq_some_iff, Prod.mk.injEq] at found
        obtain ⟨⟨others, behind⟩, later, rfl, rfl⟩ := found
        obtain ⟨length, clean, split⟩ := ih later
        obtain ⟨cleanFirst, shape⟩ := takeField_some first
        refine ⟨by simp [length], ?_, ?_⟩
        · intro other member
          rcases List.mem_cons.mp member with same | further
          · rw [same]
            exact cleanFirst
          · exact clean other further
        · rw [shape, split]
          rfl

theorem cutFields_more {count : Nat} {text tail : Bytes} {fields : List Bytes}
    (found : cutFields separator count text = some (fields, tail)) (rest : Bytes) :
    cutFields separator count (text ++ rest) = some (fields, tail ++ rest) := by
  obtain ⟨length, clean, shape⟩ := cutFields_some found
  have longer := cutFields_join clean (tail ++ rest)
  rw [length] at longer
  rw [← longer, shape, joinFields_append]

theorem cutFields_behind {count : Nat} {text tail front : Bytes} {field : Bytes}
    {fields : List Bytes} (found : cutFields separator (count + 1) text = some (field :: fields, tail))
    (clean : separator ∉ front) :
    cutFields separator (count + 1) (front ++ text) = some ((front ++ field) :: fields, tail) := by
  obtain ⟨length, cleanFields, shape⟩ := cutFields_some found
  have longer : ∀ other ∈ (front ++ field) :: fields, separator ∉ other := by
    intro other member
    rcases List.mem_cons.mp member with rfl | later
    · rw [List.mem_append, not_or]
      exact ⟨clean, cleanFields field (by simp)⟩
    · exact cleanFields other (by simp [later])
  have joined := cutFields_join longer tail
  rw [List.length_cons, ← List.length_cons (a := field), length] at joined
  rw [← joined, shape]
  simp [joinFields]

theorem joinFields_split (fields : List Bytes) (tail : Bytes)
    (clean : ∀ field ∈ fields, separator ∉ field) :
    ∃ front, front.count separator = fields.length ∧
      joinFields separator fields tail = front ++ tail := by
  induction fields with
  | nil => exact ⟨[], rfl, rfl⟩
  | cons field fields ih =>
      obtain ⟨front, count, split⟩ := ih fun other member => clean other (by simp [member])
      refine ⟨field ++ separator :: front, ?_, ?_⟩
      · rw [List.count_append, List.count_eq_zero_of_not_mem (clean field (by simp)),
          List.count_cons_self, count, List.length_cons, Nat.zero_add]
      · rw [joinFields, List.foldr_cons, ← joinFields, split, List.append_assoc, List.cons_append]

theorem cutFields_prefixed {count : Nat} {front text tail longer : Bytes}
    {fields others : List Bytes} (found : cutFields separator count text = some (fields, tail))
    (separated : separator ∈ front)
    (prefixed : cutFields separator count (front ++ text) = some (others, longer)) :
    tail.length < longer.length := by
  obtain ⟨length, clean, shape⟩ := cutFields_some found
  obtain ⟨otherLength, otherClean, otherShape⟩ := cutFields_some prefixed
  obtain ⟨head, heads, split⟩ := joinFields_split fields tail clean
  obtain ⟨otherHead, otherHeads, otherSplit⟩ := joinFields_split others longer otherClean
  by_contra shorter
  rw [shape, split, ← List.append_assoc, otherSplit] at otherShape
  have total := congrArg List.length otherShape
  simp only [List.length_append] at total
  have inside : front ++ head <+: otherHead := by
    refine List.prefix_of_prefix_length_le (List.prefix_append _ tail) ?_ ?_
    · rw [otherShape]
      exact List.prefix_append _ _
    · simp only [List.length_append]
      omega
  have bars := inside.sublist.count_le separator
  have some := List.count_pos_iff.mpr separated
  rw [List.count_append] at bars
  omega

end Text
