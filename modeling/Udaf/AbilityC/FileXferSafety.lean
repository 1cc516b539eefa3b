import Udaf.AbilityC.FileXfer
import Udaf.Lib.PathComponents
import Mathlib.Algebra.Order.BigOperators.Group.List
import Mathlib.Algebra.Order.Ring.Nat

/-!
What a `FileXferNode` promises about its files: which of them lie below the allowed roots, and
what a positive acknowledgement says of the bytes of its chunk.
-/

namespace Udaf

open ByteString FileNames Paths

namespace FileXferNode

def slash : UInt8 := 0x2F

/-- At or below one of the roots, part by part, and without a step upwards. -/
def Below (allowedRoots : List Bytes) (p : Bytes) : Prop :=
  (∃ root ∈ allowedRoots, components slash root <+: components slash p) ∧
    ascii ".." ∉ components slash p

instance (allowedRoots : List Bytes) (p : Bytes) : Decidable (Below allowedRoots p) :=
  inferInstanceAs (Decidable (_ ∧ _))

/-- A root that is no textual beginning of a sibling's name: it admits nothing, it closes its last
part, or it stands strictly below another root. -/
def Guarded (allowedRoots : List Bytes) (root : Bytes) : Prop :=
  ascii ".." <:+: root ∨ root.getLast? = some slash ∨
    ∃ above ∈ allowedRoots, components slash above <+: (components slash root).dropLast

theorem pathAllowed_iff {allowedRoots : List Bytes} (restricted : allowedRoots ≠ []) (p : Bytes) :
    pathAllowed allowedRoots p = true ↔
      p ≠ [] ∧ ¬ ascii ".." <:+: p ∧ ∃ root ∈ allowedRoots, root <+: p := by
  have starts (root : Bytes) :
      (decide (root.length ≤ p.length) && p.take root.length == root) = true ↔ root <+: p := by
    rw [Bool.and_eq_true, decide_eq_true_eq, beq_iff_eq, List.prefix_iff_eq_take]
    constructor
    · rintro ⟨_, same⟩
      exact same.symm
    · intro same
      refine ⟨?_, same.symm⟩
      have length := congrArg List.length same
      rw [List.length_take] at length
      omega
  simp only [pathAllowed, List.isEmpty_iff, if_neg restricted]
  by_cases empty : p = []
  · simp [empty]
  · by_cases upwards : ascii ".." <:+: p
    · simp [empty, upwards]
    · simp only [if_neg empty, if_neg upwards, List.any_eq_true, starts]
      exact ⟨fun found => ⟨empty, upwards, found⟩, fun found => found.2.2⟩

theorem no_step_up {p : Bytes} (level : ¬ ascii ".." <:+: p) : ascii ".." ∉ components slash p :=
  fun member => level (infix_of_mem_components member)

theorem below_of_guarded {allowedRoots : List Bytes} {root p : Bytes} (member : root ∈ allowedRoots)
    (guarded : Guarded allowedRoots root) (level : ¬ ascii ".." <:+: p) (starts : root <+: p) :
    Below allowedRoots p := by
  refine ⟨?_, no_step_up level⟩
  rcases guarded with upwards | closed | ⟨above, among, higher⟩
  · exact absurd (upwards.trans starts.isInfix) level
  · obtain ⟨rest, rfl⟩ := starts
    refine ⟨root, member, ?_⟩
    rw [components_closed closed]
    exact List.prefix_append _ _
  · exact ⟨above, among, higher.trans (dropLast_components_of_longer starts)⟩

def neighbour (root : Bytes) (count : Nat) : Bytes := root ++ List.replicate count 0x61

theorem neighbour_level {root : Bytes} (level : ¬ ascii ".." <:+: root) (count : Nat) :
    ¬ ascii ".." <:+: neighbour root count := by
  rintro ⟨front, back, shape⟩
  apply level
  by_cases inside : front.length + 2 ≤ root.length
  · have starts : front ++ ascii ".." <+: root := by
      refine List.prefix_of_prefix_length_le ⟨back, shape⟩ (List.prefix_append _ _) ?_
      rwa [List.length_append]
    exact (List.suffix_append front _).isInfix.trans starts.isInfix
  · have dot : (neighbour root count)[front.length + 1]? = some 0x2E := by
      rw [← shape, List.append_assoc, List.getElem?_append_right (by omega), Nat.add_sub_cancel_left]
      rfl
    have letter : (neighbour root count)[front.length + 1]? ≠ some 0x2E := by
      rw [neighbour, List.getElem?_append_right (by omega), List.getElem?_replicate]
      split
      · decide
      · decide
    exact absurd dot letter

theorem neighbour_escapes {allowedRoots : List Bytes} {root : Bytes} (nonempty : root ≠ [])
    (loose : ¬ Guarded allowedRoots root) {count : Nat}
    (longer : ∀ other ∈ allowedRoots, other.length < count) :
    ¬ Below allowedRoots (neighbour root count) := by
  rintro ⟨⟨above, among, starts⟩, _⟩
  rw [Guarded, not_or, not_or] at loose
  obtain ⟨_, isOpen, highest⟩ := loose
  have clean : slash ∉ List.replicate count (0x61 : UInt8) :=
    fun member => absurd (List.eq_of_mem_replicate member) (by decide)
  obtain ⟨part, shape⟩ := components_open nonempty isOpen clean
  rw [neighbour, shape, List.prefix_concat_iff] at starts
  rcases starts with same | higher
  · have member : part ++ List.replicate count 0x61 ∈ components slash above := by
      rw [same]
      exact List.mem_append_right _ List.mem_cons_self
    have short := (infix_of_mem_components member).length_le
    have long := longer above among
    rw [List.length_append, List.length_replicate] at short
    omega
  · exact highest ⟨above, among, higher⟩

/-- A node acts on files of its roots only, whatever it is sent, exactly if every root is guarded. -/
theorem stays_below_iff {allowedRoots : List Bytes} (restricted : allowedRoots ≠ [])
    (absolute : ∀ root ∈ allowedRoots, root.head? = some slash)
    (named : ∀ root ∈ allowedRoots, 0 ∉ root) :
    ((∀ p, pathAllowed allowedRoots p = true → Below allowedRoots p) ∧
      (∀ files path offset data outcome,
        writeBlock allowedRoots files path offset data outcome ≠ (-1, files) →
          Below allowedRoots path ∧ Below allowedRoots (cString path)) ∧
      (∀ files path offset data outcome other,
        (writeBlock allowedRoots files path offset data outcome).2 other ≠ files other →
          Below allowedRoots other)) ↔
      ∀ root ∈ allowedRoots, Guarded allowedRoots root := by
  constructor
  · rintro ⟨contained, _⟩ root member
    by_contra loose
    have filled : root ≠ [] := by
      rintro rfl
      exact absurd (absolute [] member) (by decide)
    have level : ¬ ascii ".." <:+: root := fun upwards => loose (.inl upwards)
    obtain ⟨count, longer⟩ : ∃ count, ∀ other ∈ allowedRoots, other.length < count :=
      ⟨(allowedRoots.map List.length).sum + 1, fun other among =>
        Nat.lt_succ_of_le (List.le_sum_of_mem (List.mem_map_of_mem among))⟩
    refine neighbour_escapes filled loose longer (contained _ ?_)
    exact (pathAllowed_iff restricted _).mpr ⟨by simp [neighbour, filled],
      neighbour_level level count, root, member, List.prefix_append _ _⟩
  · intro guarded
    have contained (p : Bytes) (allowed : pathAllowed allowedRoots p = true) :
        Below allowedRoots p ∧ Below allowedRoots (cString p) := by
      obtain ⟨_, level, root, member, starts⟩ := (pathAllowed_iff restricted p).mp allowed
      have lower : ¬ ascii ".." <:+: cString p :=
        fun upwards => level (upwards.trans (cString_front p).isInfix)
      exact ⟨below_of_guarded member (guarded root member) level starts,
        below_of_guarded member (guarded root member) lower (cString_starts (named root member) starts)⟩
    refine ⟨fun p allowed => (contained p allowed).1, ?_, ?_⟩
    · intro files path offset data outcome acts
      by_cases refused : pathAllowed allowedRoots path = false
      · exact absurd (by rw [writeBlock, if_pos refused]) acts
      · exact contained path (Bool.of_not_eq_false refused)
    · intro files path offset data outcome other touched
      by_cases apart : other ≠ cString path ∨ pathAllowed allowedRoots path = false
      · exact absurd (writeBlock_frame apart files offset data outcome) touched
      · rw [not_or, not_not] at apart
        rw [apart.1]
        exact (contained path (Bool.of_not_eq_false apart.2)).2

/-- A sibling of the root whose name begins with the root's. -/
theorem sibling_allowed :
    ¬ ∀ (allowedRoots : List Bytes) (p : Bytes), allowedRoots ≠ [] →
      (∀ root ∈ allowedRoots, root.head? = some slash) → pathAllowed allowedRoots p = true →
        Below allowedRoots p := by
  intro claimed
  have below := claimed [ascii "/srv/data"] (ascii "/srv/data-evil/x") (by decide) (by decide)
    (by decide)
  exact absurd below (by decide)

theorem stays_below_guarded :
    Below [ascii "/srv/data/"] (ascii "/srv/data/in/x") := by
  refine ((stays_below_iff (by decide) (by decide) (by decide)).mpr ?_).1 _ (by decide)
  intro root member
  rw [List.mem_singleton.mp member]
  exact .inr (.inl (by decide))

def Stored (chunk : FileChunk) (files : Files) : Prop :=
  ∃ content, files (cString chunk.path) = some content ∧
    (content.drop chunk.offset.toNat).take chunk.data.length = chunk.data

/-- What the stream did not bring to the file stood there before. -/
def AlreadyThere (content : Bytes) (chunk : FileChunk) (stored : Nat) : Prop :=
  (content.drop (chunk.offset.toNat + stored)).take (chunk.data.length - stored) =
    chunk.data.drop stored

theorem stored_splice {content : Bytes} (files : Files) (chunk : FileChunk) (count : Nat) :
    Stored chunk (Function.update files (cString chunk.path)
        (some (splice content chunk.offset.toNat (chunk.data.take count)))) ↔
      AlreadyThere content chunk count := by
  have place := splice_take_range content chunk.data chunk.offset.toNat count
  have whole := List.take_append_drop count chunk.data
  simp only [Stored, Function.update_self, Option.some.injEq, exists_eq_left', place]
  constructor
  · intro same
    exact List.append_cancel_left (same.trans whole.symm)
  · intro there
    rw [there, whole]

/-- A positive acknowledgement tells the truth exactly when the bytes that the stream lost were
in the file before. -/
theorem ack_stored_iff (allowedRoots : List Bytes) (files : Files) (chunk : FileChunk)
    (outcome : StdioOutcome) :
    ((handle allowedRoots files chunk outcome).1.ok = true →
        Stored chunk (handle allowedRoots files chunk outcome).2) ↔
      pathAllowed allowedRoots chunk.path = false ∨ ¬ Seekable chunk outcome ∨
        ∀ content, openBlock files chunk.path outcome = some content →
          AlreadyThere content chunk (outcome.stores chunk.data.length) := by
  constructor
  · intro truthful
    by_cases allowed : pathAllowed allowedRoots chunk.path = true
    · by_cases seekable : Seekable chunk outcome
      · refine .inr (.inr ?_)
        intro content opened
        have stored := truthful (handle_ok_iff.mpr ⟨allowed, seekable, content, opened⟩)
        rw [handle_stores allowed opened seekable] at stored
        exact (stored_splice files chunk _).mp stored
      · exact .inr (.inl seekable)
    · exact .inl (Bool.of_not_eq_true allowed)
  · intro condition ok
    obtain ⟨allowed, seekable, content, opened⟩ := handle_ok_iff.mp ok
    rcases condition with refused | unsought | there
    · exact absurd allowed (Bool.eq_false_iff.mp refused)
    · exact absurd seekable unsought
    · rw [handle_stores allowed opened seekable]
      exact (stored_splice files chunk _).mpr (there content opened)

def lossy : StdioOutcome := { stores := fun _ => 0 }

theorem ack_without_bytes :
    ¬ ∀ (allowedRoots : List Bytes) (files : Files) (chunk : FileChunk) (outcome : StdioOutcome),
      (handle allowedRoots files chunk outcome).1.ok = true →
        Stored chunk (handle allowedRoots files chunk outcome).2 := by
  intro claimed
  obtain ⟨content, there, same⟩ := claimed [] (fun _ => none)
    { path := ascii "f", data := [1, 2, 3] } lossy (by decide)
  have empty : content = [] := by
    rw [← Option.some_inj, ← there]
    decide
  rw [empty] at same
  exact absurd same (by decide)

end FileXferNode

end Udaf
