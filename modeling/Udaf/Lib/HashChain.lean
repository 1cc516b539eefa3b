import Mathlib.Data.List.Induction

/-!
Chains of records in which every record stores the head that the records before
it lead to. `link` advances the head by one record, and `prev` is the head that a
record stores. A head commits to what `link` depends on in every record under it.
-/

namespace HashChain

variable {Hash Record Key : Type} (link : Hash → Record → Hash) (prev : Record → Hash)

def headOf (start : Hash) (records : List Record) : Hash := records.foldl link start

def Linked : Hash → List Record → Prop
  | _, [] => True
  | head, record :: records => prev record = head ∧ Linked (link head record) records

@[simp] theorem headOf_nil (start : Hash) : headOf link start [] = start := rfl

@[simp] theorem headOf_cons (start : Hash) (record : Record) (records : List Record) :
    headOf link start (record :: records) = headOf link (link start record) records := rfl

@[simp] theorem headOf_concat (start : Hash) (records : List Record) (record : Record) :
    headOf link start (records ++ [record]) = link (headOf link start records) record := by
  simp [headOf]

theorem linked_append (start : Hash) (front back : List Record) :
    Linked link prev start (front ++ back) ↔
      Linked link prev start front ∧ Linked link prev (headOf link start front) back := by
  induction front generalizing start with
  | nil => simp [Linked]
  | cons record front ih => simp [Linked, ih, and_assoc]

theorem linked_concat (start : Hash) (records : List Record) (record : Record) :
    Linked link prev start (records ++ [record]) ↔
      Linked link prev start records ∧ prev record = headOf link start records := by
  simp [linked_append, Linked]

theorem linked_prev {start : Hash} {records : List Record} (linked : Linked link prev start records)
    {index : Nat} {record : Record} (found : records[index]? = some record) :
    prev record = headOf link start (records.take index) := by
  induction records generalizing start index with
  | nil => simp at found
  | cons first records ih =>
      obtain ⟨stored, rest⟩ := linked
      cases index with
      | zero =>
          rw [List.getElem?_cons_zero] at found
          rw [← Option.some.inj found, stored]
          rfl
      | succ index =>
          rw [List.getElem?_cons_succ] at found
          rw [ih rest found]
          rfl

variable {link prev} {key : Record → Key} {Sound : Hash → Prop} {Fit : Record → Prop}

theorem headOf_sound (grows : ∀ head record, Sound head → Sound (link head record))
    {start : Hash} (initial : Sound start) (records : List Record) :
    Sound (headOf link start records) := by
  induction records generalizing start with
  | nil => exact initial
  | cons record records ih => exact ih (grows start record initial)

theorem headOf_binds (grows : ∀ head record, Sound head → Sound (link head record))
    (binds : ∀ head other record second, Sound head → Sound other → Fit record → Fit second →
      link head record = link other second → head = other ∧ key record = key second)
    {start begin_ : Hash} (initial : Sound start) (beginning : Sound begin_)
    {records others : List Record} (fit : ∀ record ∈ records, Fit record)
    (fits : ∀ record ∈ others, Fit record) (length : records.length = others.length)
    (same : headOf link start records = headOf link begin_ others) :
    start = begin_ ∧ records.map key = others.map key := by
  induction records using List.reverseRecOn generalizing others with
  | nil =>
      have empty : others = [] := List.eq_nil_of_length_eq_zero length.symm
      subst empty
      exact ⟨same, rfl⟩
  | append_singleton records record ih =>
      rcases List.eq_nil_or_concat others with rfl | ⟨front, second, rfl⟩
      · simp at length
      · rw [List.concat_eq_append] at *
        rw [headOf_concat, headOf_concat] at same
        obtain ⟨below, keys⟩ := binds _ _ _ _ (headOf_sound grows initial records)
          (headOf_sound grows beginning front) (fit record (by simp)) (fits second (by simp)) same
        obtain ⟨starts, rest⟩ := ih (fun other member => fit other (by simp [member]))
          (fun other member => fits other (by simp [member])) (by simpa using length) below
        refine ⟨starts, ?_⟩
        rw [List.map_append, List.map_append, rest, List.map_singleton, List.map_singleton, keys]

theorem headOf_apart (grows : ∀ head record, Sound head → Sound (link head record))
    (binds : ∀ head other record second, Sound head → Sound other → Fit record → Fit second →
      link head record = link other second → head = other ∧ key record = key second)
    {start : Hash} (initial : Sound start) (rootless : ∀ head record, link head record ≠ start)
    {front back : List Record} (more : back ≠ []) (fit : ∀ record ∈ front ++ back, Fit record) :
    headOf link start front ≠ headOf link start (front ++ back) := by
  intro same
  have parts := List.take_append_drop back.length (front ++ back)
  have rest : front.length = ((front ++ back).drop back.length).length := by simp
  have whole : headOf link start (front ++ back) =
      headOf link (headOf link start ((front ++ back).take back.length))
        ((front ++ back).drop back.length) := by
    conv_lhs => rw [← parts]
    exact List.foldl_append
  rw [whole] at same
  obtain ⟨begins, -⟩ := headOf_binds grows binds initial (headOf_sound grows initial _)
    (fun record inside => fit record (by simp [inside]))
    (fun record inside => fit record (List.mem_of_mem_drop inside)) rest same
  rcases List.eq_nil_or_concat ((front ++ back).take back.length) with empty | ⟨below, last, split⟩
  · have some : 0 < back.length := List.length_pos_iff.mpr more
    have none := congrArg List.length empty
    simp only [List.length_take, List.length_append, List.length_nil] at none
    omega
  · rw [split, List.concat_eq_append, headOf_concat] at begins
    exact rootless _ _ begins.symm

end HashChain
