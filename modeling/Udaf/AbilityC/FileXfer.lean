import Udaf.Lib.Assembly
import Udaf.Lib.FileNames
import Mathlib.Data.List.Infix
import Mathlib.Logic.Function.Basic

/-!
`FileXferNode` of `ability_c/nodes/nodes.cpp`: what one chunk does to the files, and the
acknowledgement it gets. Every chunk opens its file, seeks, writes and closes it again.
-/

namespace Udaf

open ByteString FileNames

structure FileChunk where
  path : Bytes
  offset : UInt64 := 0
  data : Bytes := []
  isLast : Bool := false
  deriving DecidableEq

structure FileAck where
  path : Bytes
  offset : UInt64 := 0
  ok : Bool := true
  deriving DecidableEq

/-- How the calls of one `write_block` end. The stream counts `accepts` of the bytes it is given,
and `stores` of them are in the file when it is closed. -/
structure StdioOutcome where
  opens : Bool := true
  creates : Bool := true
  seeks : Bool := true
  accepts : Nat → Nat := id
  stores : Nat → Nat := id

namespace FileXferNode

def pathAllowed (allowedRoots : List Bytes) (p : Bytes) : Bool :=
  if p.isEmpty then false
  else if ascii ".." <:+: p then false
  else if allowedRoots.isEmpty then true
  else allowedRoots.any fun root => decide (root.length ≤ p.length) && p.take root.length == root

/-- `fopen(path, "r+b")`, and `fopen(path, "w+b")` where that fails; the file it leaves, if one is
open. -/
def openBlock (files : Files) (path : Bytes) (outcome : StdioOutcome) : Option Bytes :=
  match files (cString path) with
  | some content => if outcome.opens then some content else if outcome.creates then some [] else none
  | none => if outcome.creates then some [] else none

/-- A `long` cannot hold an offset from 2^63 on: it turns negative, and no file has such a
position. -/
def writeBlock (allowedRoots : List Bytes) (files : Files) (path : Bytes) (offset : UInt64)
    (data : Bytes) (outcome : StdioOutcome) : Int × Files :=
  if pathAllowed allowedRoots path = false then (-1, files)
  else
    match openBlock files path outcome with
    | none => (-1, files)
    | some content =>
        if outcome.seeks = false ∨ 2 ^ 63 ≤ offset.toNat then
          (-1, Function.update files (cString path) (some content))
        else if data.isEmpty then (0, Function.update files (cString path) (some content))
        else
          (outcome.accepts data.length, Function.update files (cString path)
            (some (splice content offset.toNat (data.take (outcome.stores data.length)))))

def handle (allowedRoots : List Bytes) (files : Files) (chunk : FileChunk)
    (outcome : StdioOutcome) : FileAck × Files :=
  let ack : FileAck := { path := chunk.path, offset := chunk.offset, ok := true }
  if pathAllowed allowedRoots chunk.path = false then ({ ack with ok := false }, files)
  else
    let (n, after) := writeBlock allowedRoots files chunk.path chunk.offset chunk.data outcome
    (if n < 0 then { ack with ok := false } else ack, after)

def handleAll (allowedRoots : List Bytes) (files : Files) :
    List (FileChunk × StdioOutcome) → List FileAck × Files
  | [] => ([], files)
  | (chunk, outcome) :: rest =>
      let (ack, after) := handle allowedRoots files chunk outcome
      let (acks, final) := handleAll allowedRoots after rest
      (ack :: acks, final)

theorem handle_names (allowedRoots : List Bytes) (files : Files) (chunk : FileChunk)
    (outcome : StdioOutcome) :
    (handle allowedRoots files chunk outcome).1.path = chunk.path ∧
      (handle allowedRoots files chunk outcome).1.offset = chunk.offset := by
  rw [handle]
  split
  · exact ⟨rfl, rfl⟩
  · simp only
    split
    · exact ⟨rfl, rfl⟩
    · exact ⟨rfl, rfl⟩

theorem writeBlock_frame {allowedRoots : List Bytes} {path other : Bytes}
    (apart : other ≠ cString path ∨ pathAllowed allowedRoots path = false) (files : Files)
    (offset : UInt64) (data : Bytes) (outcome : StdioOutcome) :
    (writeBlock allowedRoots files path offset data outcome).2 other = files other := by
  by_cases allowed : pathAllowed allowedRoots path = false
  · rw [writeBlock, if_pos allowed]
  · have elsewhere : other ≠ cString path := apart.resolve_right allowed
    rw [writeBlock, if_neg allowed]
    cases openBlock files path outcome with
    | none => rfl
    | some content =>
        simp only
        split
        · exact Function.update_of_ne elsewhere _ _
        · split
          · exact Function.update_of_ne elsewhere _ _
          · exact Function.update_of_ne elsewhere _ _

theorem pathAllowed_cString {allowedRoots : List Bytes} (named : ∀ root ∈ allowedRoots, 0 ∉ root)
    {path : Bytes} (filled : cString path ≠ []) (allowed : pathAllowed allowedRoots path = true) :
    pathAllowed allowedRoots (cString path) = true := by
  have level : ¬ ascii ".." <:+: path := by
    intro upwards
    simp [pathAllowed, upwards] at allowed
  have lower : ¬ ascii ".." <:+: cString path :=
    fun upwards => level (upwards.trans (cString_front path).isInfix)
  have present : path ≠ [] := by
    rintro rfl
    exact filled rfl
  simp only [pathAllowed, List.isEmpty_iff, if_neg filled, if_neg lower]
  simp only [pathAllowed, List.isEmpty_iff, if_neg present, if_neg level] at allowed
  split at allowed
  · rename_i unrestricted
    rw [if_pos unrestricted]
  · rename_i restricted
    rw [if_neg restricted, List.any_eq_true]
    obtain ⟨root, member, starts⟩ := List.any_eq_true.mp allowed
    rw [Bool.and_eq_true, decide_eq_true_eq, beq_iff_eq] at starts
    have inside := cString_starts (named root member) (List.prefix_iff_eq_take.mpr starts.2.symm)
    refine ⟨root, member, ?_⟩
    rw [Bool.and_eq_true, decide_eq_true_eq, beq_iff_eq]
    exact ⟨inside.length_le, (List.prefix_iff_eq_take.mp inside).symm⟩

theorem handle_frame {allowedRoots : List Bytes} (named : ∀ root ∈ allowedRoots, 0 ∉ root)
    {chunk : FileChunk} {other : Bytes}
    (apart : other ≠ cString chunk.path ∨ other ≠ [] ∧ pathAllowed allowedRoots other = false)
    (files : Files) (outcome : StdioOutcome) :
    (handle allowedRoots files chunk outcome).2 other = files other := by
  rw [handle]
  split
  · rfl
  · rename_i allowed
    refine writeBlock_frame ?_ files chunk.offset chunk.data outcome
    rcases apart with different | ⟨filled, outside⟩
    · exact .inl different
    · refine .inl ?_
      rintro rfl
      have inside := pathAllowed_cString named filled (Bool.of_not_eq_false allowed)
      rw [outside] at inside
      cases inside

def Seekable (chunk : FileChunk) (outcome : StdioOutcome) : Prop :=
  outcome.seeks = true ∧ chunk.offset.toNat < 2 ^ 63

theorem handle_stores {allowedRoots : List Bytes} {files : Files} {chunk : FileChunk}
    {outcome : StdioOutcome} {content : Bytes}
    (allowed : pathAllowed allowedRoots chunk.path = true)
    (opened : openBlock files chunk.path outcome = some content)
    (seekable : Seekable chunk outcome) :
    handle allowedRoots files chunk outcome =
      ({ path := chunk.path, offset := chunk.offset, ok := true },
        Function.update files (cString chunk.path) (some (splice content chunk.offset.toNat
          (chunk.data.take (outcome.stores chunk.data.length))))) := by
  have passes : ¬ pathAllowed allowedRoots chunk.path = false := by rw [allowed]; decide
  have sought : ¬ (outcome.seeks = false ∨ 2 ^ 63 ≤ chunk.offset.toNat) := by
    rw [seekable.1, not_or]
    exact ⟨by decide, Nat.not_le.mpr seekable.2⟩
  rw [handle, if_neg passes, writeBlock, if_neg passes, opened]
  simp only [if_neg sought]
  cases shape : chunk.data with
  | nil =>
      rw [List.take_nil]
      rfl
  | cons byte rest =>
      have count : ¬ ((outcome.accepts (byte :: rest).length : Int) < 0) := by omega
      simp only [List.isEmpty_cons, Bool.false_eq_true, if_false, if_neg count]

theorem handle_ok_iff {allowedRoots : List Bytes} {files : Files} {chunk : FileChunk}
    {outcome : StdioOutcome} :
    (handle allowedRoots files chunk outcome).1.ok = true ↔
      pathAllowed allowedRoots chunk.path = true ∧ Seekable chunk outcome ∧
        ∃ content, openBlock files chunk.path outcome = some content := by
  constructor
  · intro ok
    rw [handle] at ok
    by_cases refused : pathAllowed allowedRoots chunk.path = false
    · rw [if_pos refused] at ok
      cases ok
    · rw [if_neg refused, writeBlock, if_neg refused] at ok
      refine ⟨Bool.of_not_eq_false refused, ?_⟩
      cases opened : openBlock files chunk.path outcome with
      | none =>
          rw [opened] at ok
          cases ok
      | some content =>
          simp only [opened] at ok
          by_cases unsought : outcome.seeks = false ∨ 2 ^ 63 ≤ chunk.offset.toNat
          · rw [if_pos unsought] at ok
            cases ok
          · rw [not_or] at unsought
            exact ⟨⟨Bool.of_not_eq_false unsought.1, Nat.not_le.mp unsought.2⟩, content, rfl⟩
  · rintro ⟨allowed, seekable, content, opened⟩
    rw [handle_stores allowed opened seekable]

theorem handle_succeeds {allowedRoots : List Bytes} {chunk : FileChunk}
    (allowed : pathAllowed allowedRoots chunk.path = true)
    (fits : chunk.offset.toNat + chunk.data.length < 2 ^ 63) (files : Files) :
    handle allowedRoots files chunk {} =
      ({ path := chunk.path, offset := chunk.offset, ok := true },
        Function.update files (cString chunk.path)
          (some (splice ((files (cString chunk.path)).getD []) chunk.offset.toNat chunk.data))) := by
  have opened : openBlock files chunk.path {} = some ((files (cString chunk.path)).getD []) := by
    rw [openBlock]
    cases files (cString chunk.path) with
    | none => rfl
    | some content => rfl
  have whole : chunk.data.take (({} : StdioOutcome).stores chunk.data.length) = chunk.data :=
    List.take_length
  rw [handle_stores allowed opened ⟨rfl, by omega⟩, whole]

def ChunksOf (whole path : Bytes) (chunks : List FileChunk) : Prop :=
  ∀ chunk ∈ chunks, chunk.path = path ∧ PieceOf whole chunk.offset.toNat chunk.data ∧
    chunk.offset.toNat + chunk.data.length < 2 ^ 63

def succeeding (chunks : List FileChunk) : List (FileChunk × StdioOutcome) :=
  chunks.map fun chunk => (chunk, {})

def CoveredBy (chunks : List FileChunk) (index : Nat) : Prop :=
  ∃ chunk ∈ chunks, chunk.offset.toNat ≤ index ∧ index < chunk.offset.toNat + chunk.data.length

theorem coveredBy_cons {chunk : FileChunk} {rest : List FileChunk} {index : Nat} :
    CoveredBy (chunk :: rest) index ↔
      (chunk.offset.toNat ≤ index ∧ index < chunk.offset.toNat + chunk.data.length) ∨
        CoveredBy rest index := by
  simp only [CoveredBy, List.mem_cons, exists_eq_or_imp]

def ackOf (chunk : FileChunk) : FileAck := { path := chunk.path, offset := chunk.offset, ok := true }

theorem handleAll_cons {allowedRoots : List Bytes} {chunk : FileChunk}
    (allowed : pathAllowed allowedRoots chunk.path = true)
    (fits : chunk.offset.toNat + chunk.data.length < 2 ^ 63) (files : Files)
    (rest : List FileChunk) :
    handleAll allowedRoots files (succeeding (chunk :: rest)) =
      (ackOf chunk :: (handleAll allowedRoots (Function.update files (cString chunk.path)
          (some (splice ((files (cString chunk.path)).getD []) chunk.offset.toNat chunk.data)))
          (succeeding rest)).1,
        (handleAll allowedRoots (Function.update files (cString chunk.path)
          (some (splice ((files (cString chunk.path)).getD []) chunk.offset.toNat chunk.data)))
          (succeeding rest)).2) := by
  simp only [succeeding, List.map_cons, handleAll, handle_succeeds allowed fits files, ackOf]

theorem handleAll_assembles {allowedRoots : List Bytes} {whole path : Bytes}
    (allowed : pathAllowed allowedRoots path = true) {chunks : List FileChunk}
    (pieces : ChunksOf whole path chunks) {files : Files} {content : Bytes} {covered : Nat → Prop}
    (there : files (cString path) = some content) (assembled : Assembled whole content covered) :
    ∃ final, (handleAll allowedRoots files (succeeding chunks)).2 (cString path) = some final ∧
      (handleAll allowedRoots files (succeeding chunks)).1 = chunks.map ackOf ∧
      Assembled whole final fun index => covered index ∨ CoveredBy chunks index := by
  induction chunks generalizing files content covered with
  | nil =>
      refine ⟨content, there, rfl, assembled.within, ?_⟩
      intro index inside covers
      rcases covers with before | ⟨_, none, _⟩
      · exact assembled.agrees index inside before
      · cases none
  | cons chunk rest ih =>
      obtain ⟨rfl, piece, fits⟩ := pieces chunk List.mem_cons_self
      have later : ChunksOf whole chunk.path rest :=
        fun other member => pieces other (List.mem_cons_of_mem _ member)
      rw [handleAll_cons allowed fits, there, Option.getD_some]
      obtain ⟨final, result, acks, complete⟩ :=
        ih later (Function.update_self _ _ files) (assembled.splice piece)
      refine ⟨final, result, congrArg _ acks, complete.within, ?_⟩
      intro index inside covers
      apply complete.agrees index inside
      rw [coveredBy_cons, ← or_assoc] at covers
      exact covers

/-- Chunks that together hold all of `whole` make it up in a new file, in any order and however
often each is sent, and every one of them is acknowledged. -/
theorem fileXfer_assembles {allowedRoots : List Bytes} {whole path : Bytes} {files : Files}
    (allowed : pathAllowed allowedRoots path = true) (absent : files (cString path) = none)
    {chunks : List FileChunk} (nonempty : chunks ≠ []) (pieces : ChunksOf whole path chunks)
    (covers : ∀ index, index < whole.length → CoveredBy chunks index) :
    (handleAll allowedRoots files (succeeding chunks)).2 (cString path) = some whole ∧
      (handleAll allowedRoots files (succeeding chunks)).1 = chunks.map ackOf := by
  cases chunks with
  | nil => exact absurd rfl nonempty
  | cons chunk rest =>
      obtain ⟨rfl, piece, fits⟩ := pieces chunk List.mem_cons_self
      have later : ChunksOf whole chunk.path rest :=
        fun other member => pieces other (List.mem_cons_of_mem _ member)
      rw [handleAll_cons allowed fits, absent, Option.getD_none]
      obtain ⟨final, result, acks, complete⟩ := handleAll_assembles allowed later
        (Function.update_self _ _ files) ((assembled_empty whole).splice piece)
      have same : final = whole := complete.eq_whole fun index inside => by
        rcases coveredBy_cons.mp (covers index inside) with here | there
        · exact .inl (.inr here)
        · exact .inr there
      exact ⟨by rw [result, same], congrArg _ acks⟩

def sampleChunks : List FileChunk :=
  [{ path := ascii "f", offset := 2, data := [3, 4] }, { path := ascii "f", offset := 4 },
    { path := ascii "f", offset := 1, data := [2, 3] }, { path := ascii "f", data := [1, 2] },
    { path := ascii "f", offset := 2, data := [3, 4] }]

theorem sampleChunks_cover (index : Nat) (inside : index < 4) : CoveredBy sampleChunks index := by
  by_cases low : index < 2
  · exact ⟨{ path := ascii "f", data := [1, 2] }, by simp [sampleChunks], Nat.zero_le _, low⟩
  · exact ⟨{ path := ascii "f", offset := 2, data := [3, 4] }, by simp [sampleChunks],
      Nat.le_of_not_lt low, inside⟩

theorem fileXfer_assembles_sample :
    (handleAll [] (fun _ => none) (succeeding sampleChunks)).2 (ascii "f") = some [1, 2, 3, 4] := by
  refine (@fileXfer_assembles [] [1, 2, 3, 4] (ascii "f") (fun _ => none) (by decide) rfl
    sampleChunks (by decide) ?_ sampleChunks_cover).1
  have all : ∀ chunk ∈ sampleChunks, chunk.path = ascii "f" ∧
      chunk.data = ([1, 2, 3, 4].drop chunk.offset.toNat).take chunk.data.length ∧
      chunk.offset.toNat + chunk.data.length < 2 ^ 63 := by decide
  exact all

end FileXferNode

end Udaf
