import Mathlib.Data.List.Chain
import Udaf.Wal.Crash

/-!
`replay` hands out the entries of the file in the order in which they stand there and looks at
no sequence number. What it returns ascends exactly when the file does.
-/

namespace Udaf

open ByteString Posix FrameLog

def Precedes (first second : WalEntry) : Prop := first.seq < second.seq

instance : Trans Precedes Precedes Precedes := ⟨UInt64.lt_trans⟩

def Ascending (entries : List WalEntry) : Prop := entries.Pairwise Precedes

instance (entries : List WalEntry) : Decidable (Ascending entries) :=
  inferInstanceAs (Decidable (entries.Pairwise fun first second => first.seq < second.seq))

/-- Only ordered logs are accepted, and a log that decodes but is not ordered is refused. -/
structure AcceptsOrdered (wal : Wal) : Prop where
  ascending (entries : List WalEntry) : wal.replay.1 = .ok entries → Ascending entries
  refuses (entries : List WalEntry) :
    BeginsWith entryCodec (wal.fd.bytes.drop kFileHeaderSize) entries [] → ¬ Ascending entries →
      ∃ code, wal.replay.1 = .error code

def SomeBroken (bytes : Bytes) : Prop :=
  ∃ entries rest code, BeginsWith entryCodec bytes entries rest ∧ rest ≠ [] ∧
    decodeEntry rest = .error code

def NeighboursAscend (bytes : Bytes) : Prop :=
  ∀ entries rest first size second next, BeginsWith entryCodec bytes entries rest →
    decodeEntry rest = .ok (first, size) → decodeEntry (rest.drop size) = .ok (second, next) →
      Precedes first second

theorem ascending_iff {entries : List WalEntry} : Ascending entries ↔
    ∀ front first second back, entries = front ++ first :: second :: back →
      Precedes first second := by
  rw [Ascending, ← List.isChain_iff_pairwise, List.isChain_iff_forall_rel_of_append_cons_cons]
  constructor
  · intro chain front first second back split
    exact chain split
  · intro chain first second front back split
    exact chain front first second back split

theorem ascending_neighbours {bytes : Bytes} {entries : List WalEntry}
    (scanned : scan entryCodec bytes = (entries, none)) :
    Ascending entries ↔ NeighboursAscend bytes := by
  rw [ascending_iff]
  constructor
  · intro ascending before rest first size second next begins found following
    have pair : BeginsWith entryCodec rest [first, second] ((rest.drop size).drop next) :=
      .cons found (.cons following .nil)
    rw [begins.scan, pair.scan] at scanned
    exact ascending before first second _ (Prod.mk.inj scanned).1.symm
  · intro neighbours front first second back split
    obtain ⟨rest, begins, -⟩ := beginsWith_scan entryCodec scanned
    rw [split] at begins
    obtain ⟨between, before, tail⟩ := begins.split
    cases tail with
    | cons found more =>
        cases more with
        | cons following _ =>
            exact neighbours front between first _ second _ before found following

theorem scanned_whole {bytes : Bytes} {entries : List WalEntry} {stop : Option ErrorCode}
    (scanned : scan entryCodec bytes = (entries, stop)) : SomeBroken bytes ↔ stop ≠ none := by
  constructor
  · rintro ⟨before, rest, code, begins, nonempty, found⟩
    rw [begins.scan, scan_entry_error nonempty found] at scanned
    cases scanned
    exact Option.some_ne_none code
  · intro stopped
    obtain ⟨rest, begins, last⟩ := beginsWith_scan entryCodec scanned
    cases stop with
    | none => exact absurd rfl stopped
    | some code =>
        obtain ⟨nonempty, found⟩ := scan_stopped entryCodec last
        exact ⟨entries, rest, code, begins, nonempty, found⟩

theorem acceptsOrdered_iff {wal : Wal} (quiet : wal.fd.faults = []) : AcceptsOrdered wal ↔
    SomeBroken (wal.fd.bytes.drop kFileHeaderSize) ∨
      NeighboursAscend (wal.fd.bytes.drop kFileHeaderSize) := by
  cases scanned : scan entryCodec (wal.fd.bytes.drop kFileHeaderSize) with
  | mk entries stop =>
      rw [scanned_whole scanned]
      constructor
      · intro accepts
        refine or_iff_not_imp_left.mpr fun whole => ?_
        rw [not_not.mp whole] at scanned
        exact (ascending_neighbours scanned).mp
          (accepts.ascending entries ((replay_ok quiet).mpr scanned))
      · intro condition
        have ordered (others : List WalEntry) (met : scan entryCodec
            (wal.fd.bytes.drop kFileHeaderSize) = (others, none)) : Ascending others := by
          rw [scanned] at met
          cases met
          exact (ascending_neighbours scanned).mpr (condition.resolve_left fun some => some rfl)
        refine ⟨fun others replayed => ordered others ((replay_ok quiet).mp replayed), ?_⟩
        intro others begins unordered
        refine absurd (ordered others ?_) unordered
        rw [begins.scan, scan_nil, List.append_nil]

theorem create_refused (config : WalConfig) {file : Bytes} (whole : kFileHeaderSize ≤ file.length)
    (invalid : ¬ ValidHeader file) (appendMode : Bool) :
    (Wal.create config ⟨some file, appendMode, []⟩).1 = .error .serializeVersionMismatch := by
  have opened : openWalFile ⟨some file, appendMode, []⟩ false =
      (some ⟨file, 0, appendMode, []⟩, ⟨some file, appendMode, []⟩) := rfl
  have length : (file.take kFileHeaderSize).length = kFileHeaderSize := by
    rw [List.length_take, Nat.min_eq_left whole]
  simp only [Wal.create, makeParent_quiet, Option.isSome_some, Bool.not_true, opened, if_true,
    Wal.readFileHeader, readAt_quiet, List.drop_zero, length, Nat.lt_irrefl, if_false]
  by_cases magic : field (file.take kFileHeaderSize) 0 4 = kFileMagic.toNat
  · have schema : field (file.take kFileHeaderSize) 4 4 ≠ kSchemaVersion.toNat :=
      fun schema => invalid ⟨whole, magic, schema⟩
    rw [if_neg (not_not.mpr magic), if_pos schema]
  · rw [if_pos magic]

theorem create_keeps {config : WalConfig} {file : Bytes} {appendMode : Bool} {wal : Wal}
    (created : (Wal.create config ⟨some file, appendMode, []⟩).1 = .ok wal) :
    wal.fd.faults = [] ∧ wal.fd.bytes = file := by
  by_cases short : file.length < kFileHeaderSize
  · rw [create_headerless short] at created
    cases created
    exact ⟨rfl, rfl⟩
  by_cases valid : ValidHeader file
  · rw [create_valid config valid] at created
    cases created
    exact ⟨rfl, rfl⟩
  · rw [create_refused config (Nat.not_lt.mp short) valid] at created
    cases created

/-- On a file that opens, `replay` accepts ordered logs only, exactly when an entry is broken or
every entry carries a larger sequence number than its neighbour before it. -/
theorem replay_ordered_iff {config : WalConfig} {file : Bytes} {appendMode : Bool} {wal : Wal}
    (created : (Wal.create config ⟨some file, appendMode, []⟩).1 = .ok wal) :
    AcceptsOrdered wal ↔ SomeBroken (file.drop kFileHeaderSize) ∨
      NeighboursAscend (file.drop kFileHeaderSize) := by
  obtain ⟨quiet, bytes⟩ := create_keeps created
  rw [acceptsOrdered_iff quiet, bytes]

def numberedEntry (seq : UInt64) : WalEntry where
  seq := seq
  timestampNs := 0
  type := .custom
  action := []
  payload := [5]

theorem numberedEntry_storable (seq : UInt64) : Storable (numberedEntry seq) :=
  ⟨rfl, by simp [numberedEntry], by simp [numberedEntry]⟩

theorem numbered_scan (first second : UInt64) :
    scan entryCodec ((walBytes [numberedEntry first, numberedEntry second]).drop kFileHeaderSize) =
      ([numberedEntry first, numberedEntry second], none) := by
  rw [walBytes_drop]
  refine scan_encodeAll entryCodec ?_
  simp only [List.mem_cons, List.not_mem_nil, or_false, forall_eq_or_imp, forall_eq]
  exact ⟨numberedEntry_storable first, numberedEntry_storable second⟩

theorem replay_ordered_two : ∃ wal,
    (Wal.create plainConfig
        ⟨some (walBytes [numberedEntry 3, numberedEntry 8]), true, []⟩).1 = .ok wal ∧
      AcceptsOrdered wal := by
  have created := create_valid plainConfig
    (fileHeader_valid (encodeAll entryCodec [numberedEntry 3, numberedEntry 8])) true
  refine ⟨_, created, (replay_ordered_iff created).mpr (.inr ?_)⟩
  exact (ascending_neighbours (numbered_scan 3 8)).mp (by decide)

/-- The same entry twice is replayed twice. -/
theorem replay_repeats : ¬ ∀ {config : WalConfig} {file : Bytes} {appendMode : Bool} {wal : Wal},
    (Wal.create config ⟨some file, appendMode, []⟩).1 = .ok wal → AcceptsOrdered wal := by
  intro ordered
  have created := create_valid plainConfig
    (fileHeader_valid (encodeAll entryCodec [numberedEntry 3, numberedEntry 3])) true
  have replayed := (replay_ok (create_keeps created).1).mpr (numbered_scan 3 3)
  exact absurd ((ordered created).ascending _ replayed) (by decide)

end Udaf
