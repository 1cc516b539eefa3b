import Udaf.Wal.Bounds
import Udaf.Wal.Sequence

/-!
Four loops walk the bytes behind the file header: the scan of `create`, `replay`,
`replay_stream` and the reading loop of `truncate`. On any bytes they end, and what one
of them meets decides what the others do.
-/

namespace Udaf

open ByteString Posix FrameLog

/-- No loop that starts behind the header of `file` is ended by the bound of the model. -/
structure LoopsEnd (file : Bytes) (appendMode : Bool) : Prop where
  scan : scanWithin (file.length + 1) 0 0 ⟨file, kFileHeaderSize, appendMode, []⟩ =
    some (scanLoop (file.length + 1) 0 0 ⟨file, kFileHeaderSize, appendMode, []⟩)
  read {σ : Type} (visit : σ → WalEntry → σ × Bool) (acc : σ) :
    readEntriesWithin visit (loopBound ⟨file, kFileHeaderSize, appendMode, []⟩) acc
        ⟨file, kFileHeaderSize, appendMode, []⟩ =
      some (readEntries visit (loopBound ⟨file, kFileHeaderSize, appendMode, []⟩) acc
        ⟨file, kFileHeaderSize, appendMode, []⟩)

theorem loops_end (file : Bytes) (appendMode : Bool) : LoopsEnd file appendMode := by
  refine ⟨?_, ?_⟩
  · exact scanLoop_within 0 0 0 (by simp only; omega)
  · intro σ visit acc
    exact loopBound_within visit acc _

def FollowsLargest (entries : List WalEntry) (next : UInt64) : Prop :=
  entries = [] ∧ next = 1 ∨
    ∃ entry ∈ entries, (∀ other ∈ entries, other.seq ≤ entry.seq) ∧
      next.toNat = entry.seq.toNat + 1

/-- Handed `entries` one by one, the callback first returns false on this call. -/
def FirstFalseOn (callback : WalCallback) (entries : List WalEntry) (call : Nat) : Prop :=
  ∃ before entry after, entries = before ++ entry :: after ∧ call = before.length + 1 ∧
    callback before entry = false ∧
      ∀ front next back, before = front ++ next :: back → callback front next = true

structure AllRead (wal : Wal) (entries : List WalEntry) : Prop where
  count : wal.entryCount = UInt64.ofNat entries.length
  exact : wal.fd.bytes.length < 2 ^ 64 → wal.entryCount.toNat = entries.length
  sequence : FollowsLargest entries wal.currentSequence
  streams : (wal.replayStream (some always)).1 = (.ok (), entries)
  stops (callback : WalCallback) (call : Nat) : FirstFalseOn callback entries call →
    (wal.replayStream (some callback)).1 = (.ok (), entries.take call)

structure ReadFails (wal : Wal) (code : ErrorCode) : Prop where
  streams : ∃ entries rest,
    BeginsWith entryCodec (wal.fd.bytes.drop kFileHeaderSize) entries rest ∧
      rest ≠ [] ∧ decodeEntry rest = .error code ∧
      (wal.replayStream (some always)).1 = (.error code, entries)
  truncates (keepSequence : UInt64) : (wal.truncate keepSequence).1 = .error code ∧
    (wal.truncate keepSequence).2.fd.bytes = wal.fd.bytes

theorem laterSeq_le {maxSeq bound : UInt64} {entry : WalEntry} :
    laterSeq maxSeq entry ≤ bound ↔ maxSeq ≤ bound ∧ entry.seq ≤ bound := by
  simp only [laterSeq, UInt64.lt_iff_toNat_lt]
  split <;> simp only [UInt64.le_iff_toNat_le] <;> omega

theorem foldl_laterSeq_le {entries : List WalEntry} {maxSeq bound : UInt64} :
    entries.foldl laterSeq maxSeq ≤ bound ↔
      maxSeq ≤ bound ∧ ∀ entry ∈ entries, entry.seq ≤ bound := by
  induction entries generalizing maxSeq with
  | nil => simp
  | cons entry entries ih =>
      rw [List.foldl_cons, ih, laterSeq_le, List.forall_mem_cons, and_assoc]

theorem foldl_laterSeq_found (entries : List WalEntry) (maxSeq : UInt64) :
    entries.foldl laterSeq maxSeq = maxSeq ∨
      ∃ entry ∈ entries, entries.foldl laterSeq maxSeq = entry.seq := by
  induction entries generalizing maxSeq with
  | nil => exact .inl rfl
  | cons entry entries ih =>
      rw [List.foldl_cons]
      rcases ih (laterSeq maxSeq entry) with kept | ⟨later, member, found⟩
      · rw [kept, laterSeq]
        split
        · exact .inr ⟨entry, List.mem_cons_self, rfl⟩
        · exact .inl rfl
      · exact .inr ⟨later, List.mem_cons_of_mem _ member, found⟩

theorem maxSeqOf_largest {entries : List WalEntry} (nonempty : entries ≠ []) :
    ∃ entry ∈ entries, maxSeqOf entries = entry.seq ∧
      ∀ other ∈ entries, other.seq ≤ entry.seq := by
  have reach := (@foldl_laterSeq_le entries 0 (maxSeqOf entries)).mp (UInt64.le_refl _)
  rcases foldl_laterSeq_found entries 0 with zero | ⟨entry, member, found⟩
  · -- every sequence number is 0, so any entry carries the largest
    obtain ⟨entry, member⟩ := List.exists_mem_of_ne_nil entries nonempty
    have least : maxSeqOf entries = entry.seq := by
      have bound := reach.2 entry member
      rw [maxSeqOf, zero] at bound ⊢
      exact (UInt64.le_zero_iff.mp bound).symm
    exact ⟨entry, member, least, fun other seen => least ▸ reach.2 other seen⟩
  · exact ⟨entry, member, found, fun other seen => found ▸ reach.2 other seen⟩

theorem seqAfter_largest {entries : List WalEntry}
    (room : ∀ entry ∈ entries, entry.seq.toNat < 2 ^ 64 - 1) :
    FollowsLargest entries (seqAfter (maxSeqOf entries)) := by
  by_cases nonempty : entries = []
  · subst nonempty
    exact .inl ⟨rfl, rfl⟩
  · obtain ⟨entry, member, largest, most⟩ := maxSeqOf_largest nonempty
    refine .inr ⟨entry, member, most, ?_⟩
    have next := succ_toNat (room entry member)
    have positive : entry.seq + 1 ≠ 0 := by
      intro zero
      rw [zero, show (0 : UInt64).toNat = 0 from rfl] at next
      omega
    rw [largest, seqAfter, if_neg positive, next]

theorem visitAll_stops (callback : WalCallback) (seen before after : List WalEntry)
    (entry : WalEntry) (stop : Option ErrorCode) (last : callback (seen ++ before) entry = false)
    (earlier : ∀ front next back, before = front ++ next :: back →
      callback (seen ++ front) next = true) :
    visitAll (deliver callback) seen (before ++ entry :: after, stop) =
      (.ok (), seen ++ before ++ [entry]) := by
  induction before generalizing seen with
  | nil =>
      rw [List.append_nil] at last
      simp only [List.nil_append, visitAll_cons, deliver, last, Bool.false_eq_true, if_false,
        List.append_nil]
  | cons first before ih =>
      have goesOn : callback seen first = true := by
        simpa using earlier [] first before rfl
      rw [List.cons_append, visitAll_cons]
      simp only [deliver, goesOn, if_true]
      rw [List.append_cons] at last
      refine (ih (seen ++ [first]) last ?_).trans ?_
      · intro front next back split
        have whole := earlier (first :: front) next back (by rw [split]; rfl)
        rwa [List.append_cons] at whole
      · simp only [List.append_assoc, List.cons_append, List.nil_append]

theorem openedWal_counters (config : WalConfig) {file : Bytes} (appendMode : Bool)
    {entries : List WalEntry} (scanned : scan entryCodec (file.drop kFileHeaderSize) = (entries, none)) :
    (openedWal config file appendMode).entryCount = UInt64.ofNat entries.length ∧
      (openedWal config file appendMode).nextSeq = seqAfter (maxSeqOf entries) := by
  have few := scan_length_le entryCodec scanned
  have enough : entries.length < file.length + 1 := by
    rw [List.length_drop] at few
    omega
  have loop := @scanLoop_scan entries (file.length + 1) 0 0
    ⟨file, kFileHeaderSize, appendMode, []⟩ rfl scanned enough
  rw [UInt64.zero_add] at loop
  simp only [openedWal, scanFrom, loop, maxSeqOf, and_self]

theorem truncate_fails {wal : Wal} (quiet : wal.fd.faults = []) {entries : List WalEntry}
    {code : ErrorCode}
    (scanned : scan entryCodec (wal.fd.bytes.drop kFileHeaderSize) = (entries, some code))
    (keepSequence : UInt64) : (wal.truncate keepSequence).1 = .error code ∧
      (wal.truncate keepSequence).2.fd.bytes = wal.fd.bytes := by
  obtain ⟨pos, loop⟩ := readEntries_start
    (fun kept entry => (keepEntry keepSequence kept entry, true))
    ([], UInt64.ofNat kFileHeaderSize) quiet
  rw [scanned, visitAll_fold] at loop
  simp only [Wal.truncate, seekSet_quiet quiet, loop, ended, and_self]

theorem read_all {wal : Wal} (quiet : wal.fd.faults = []) {entries : List WalEntry}
    (scanned : scan entryCodec (wal.fd.bytes.drop kFileHeaderSize) = (entries, none))
    (count : wal.entryCount = UInt64.ofNat entries.length)
    (sequence : FollowsLargest entries wal.currentSequence) : AllRead wal entries := by
  refine ⟨count, ?_, sequence, replayStream_always quiet scanned, ?_⟩
  · intro addressable
    have few := scan_length_le entryCodec scanned
    rw [List.length_drop] at few
    rw [count, UInt64.toNat_ofNat_of_lt' (Nat.lt_of_le_of_lt (by omega) addressable)]
  · rintro callback call ⟨before, entry, after, rfl, rfl, last, earlier⟩
    have taken : (before ++ entry :: after).take (before.length + 1) = before ++ [entry] := by
      rw [List.append_cons]
      exact List.take_left' (by simp)
    obtain ⟨pos, streamed⟩ := replayStream_quiet quiet callback
    rw [streamed, scanned, visitAll_stops callback [] before after entry none last earlier, taken,
      List.nil_append]

theorem read_fails {wal : Wal} (quiet : wal.fd.faults = []) {entries : List WalEntry}
    {code : ErrorCode}
    (scanned : scan entryCodec (wal.fd.bytes.drop kFileHeaderSize) = (entries, some code)) :
    ReadFails wal code := by
  obtain ⟨rest, begins, stopped⟩ := beginsWith_scan entryCodec scanned
  obtain ⟨nonempty, found⟩ := scan_stopped entryCodec stopped
  exact ⟨⟨entries, rest, begins, nonempty, found, replayStream_always quiet scanned⟩,
    truncate_fails quiet scanned⟩

/-- Whatever bytes stand behind a valid header, the four loops end and agree. -/
theorem traversals_agree {file : Bytes} (valid : ValidHeader file) (config : WalConfig)
    (appendMode : Bool) :
    LoopsEnd file appendMode ∧ ∃ wal,
      (Wal.create config ⟨some file, appendMode, []⟩).1 = .ok wal ∧ wal.fd.bytes = file ∧
        (∀ entries, wal.replay.1 = .ok entries →
          (∀ entry ∈ entries, entry.seq.toNat < 2 ^ 64 - 1) → AllRead wal entries) ∧
        ∀ code, wal.replay.1 = .error code → ReadFails wal code := by
  have quiet : (openedWal config file appendMode).fd.faults = [] := rfl
  refine ⟨loops_end file appendMode, openedWal config file appendMode,
    create_valid config valid appendMode, rfl, ?_, ?_⟩
  · intro entries replayed room
    have scanned := (replay_ok quiet).mp replayed
    obtain ⟨count, next⟩ := @openedWal_counters config file appendMode entries scanned
    refine read_all quiet scanned count ?_
    rw [Wal.currentSequence, next]
    exact seqAfter_largest room
  · intro code replayed
    obtain ⟨entries, scanned⟩ := (replay_error quiet).mp replayed
    exact read_fails quiet scanned

def agreedEntry : WalEntry where
  seq := 7
  timestampNs := 0
  type := .connect
  action := ascii "join"
  payload := [1, 2]

theorem agreedEntry_storable : Storable agreedEntry := ⟨rfl, by decide, by decide⟩

theorem traversals_agree_entry :
    (∃ wal, (Wal.create plainConfig ⟨some (walBytes [agreedEntry]), true, []⟩).1 = .ok wal ∧
      AllRead wal [agreedEntry]) ∧
    ∃ wal, (Wal.create plainConfig ⟨some (walBytes [agreedEntry] ++ [0]), true, []⟩).1 = .ok wal ∧
      ReadFails wal .protocolTruncatedBuffer := by
  have storable : ∀ entry ∈ [agreedEntry], Storable entry := by
    simp only [List.mem_singleton, forall_eq]
    exact agreedEntry_storable
  refine ⟨?_, ?_⟩
  · have valid : ValidHeader (walBytes [agreedEntry]) := fileHeader_valid _
    obtain ⟨-, wal, created, bytes, read, -⟩ := traversals_agree valid plainConfig true
    refine ⟨wal, created, read [agreedEntry] ?_ (by decide)⟩
    rw [create_valid plainConfig valid true] at created
    cases created
    refine (replay_ok rfl).mpr ?_
    rw [bytes, walBytes_drop]
    exact scan_encodeAll entryCodec storable
  · have valid : ValidHeader (walBytes [agreedEntry] ++ [0]) := by
      rw [walBytes, List.append_assoc]
      exact fileHeader_valid _
    obtain ⟨-, wal, created, bytes, -, fails⟩ := traversals_agree valid plainConfig true
    refine ⟨wal, created, fails .protocolTruncatedBuffer ?_⟩
    rw [create_valid plainConfig valid true] at created
    cases created
    refine (replay_error rfl).mpr ⟨[agreedEntry], ?_⟩
    have stray : scan entryCodec [0] = ([], some .protocolTruncatedBuffer) :=
      scan_entry_error (by decide) (by decide)
    rw [bytes, walBytes, List.append_assoc, kFileHeaderSize, List.drop_left' fileHeader_length,
      scan_encodeAll_append entryCodec storable, stray, List.append_nil]

end Udaf
