import Udaf.Wal.History

/-!
A log file cut at any byte. Reading recovers exactly the entries before the cut;
writing goes on at the end of the file, behind a torn entry if there is one.
-/

namespace Udaf

open ByteString Posix FrameLog Runs

theorem walBytes_take {cut : Nat} (log : List WalEntry) (behind : kFileHeaderSize ≤ cut) :
    (walBytes log).take cut =
      fileHeader ++ (encodeAll entryCodec log).take (cut - kFileHeaderSize) := by
  rw [walBytes, List.take_append, fileHeader_length, List.take_of_length_le]
  · rfl
  · simpa [kFileHeaderSize] using behind

theorem tail_created (config : WalConfig) (tail : Bytes) (appendMode : Bool) :
    ∃ wal, (Wal.create config ⟨some (fileHeader ++ tail), appendMode, []⟩).1 = .ok wal ∧
      wal.fd.faults = [] ∧ wal.config = config ∧ wal.fd.bytes = fileHeader ++ tail ∧
      wal.fd.disk = ⟨some (fileHeader ++ tail), appendMode, []⟩ :=
  ⟨_, create_existing config tail appendMode, rfl, rfl, rfl, rfl⟩

theorem cut_created {cut : Nat} (log : List WalEntry) (behind : kFileHeaderSize ≤ cut)
    (config : WalConfig) (appendMode : Bool) :
    ∃ wal, (Wal.create config ⟨some ((walBytes log).take cut), appendMode, []⟩).1 = .ok wal ∧
      wal.fd.faults = [] ∧ wal.fd.disk = ⟨some ((walBytes log).take cut), appendMode, []⟩ ∧
      wal.fd.bytes.drop kFileHeaderSize =
        (encodeAll entryCodec log).take (cut - kFileHeaderSize) := by
  rw [walBytes_take log behind]
  obtain ⟨wal, created, quiet, -, bytes, disk⟩ := tail_created config
    ((encodeAll entryCodec log).take (cut - kFileHeaderSize)) appendMode
  refine ⟨wal, created, quiet, disk, ?_⟩
  rw [bytes]
  exact List.drop_left' fileHeader_length

/-- Reading a cut file delivers the entries before the cut, unaltered, and reports a torn one. -/
theorem crash_replays_whole {events : List WalEvent} {final : Wal}
    (reached : Reached WalStep events final) {cut : Nat} (behind : kFileHeaderSize ≤ cut)
    (config : WalConfig) :
    ∃ wal, (Wal.create config
        ⟨some (final.fd.bytes.take cut), final.fd.appendMode, []⟩).1 = .ok wal ∧
      (wal.replayStream (some always)).1.2 =
        wholeBefore entryCodec (cut - kFileHeaderSize) (logOf events) ∧
      wholeBefore entryCodec (cut - kFileHeaderSize) (logOf events) <+: logOf events ∧
      (OnBoundary entryCodec (cut - kFileHeaderSize) (logOf events) →
        (wal.replayStream (some always)).1.1 = .ok ()) ∧
      (¬ OnBoundary entryCodec (cut - kFileHeaderSize) (logOf events) →
        (wal.replayStream (some always)).1.1 = .error .protocolTruncatedBuffer) := by
  have holds := reached.holds
  obtain ⟨wal, created, quiet, -, tail⟩ :=
    cut_created (logOf events) behind config final.fd.appendMode
  have scanned := scan_take entryCodec holds.storable (cut - kFileHeaderSize)
  rw [← tail] at scanned
  obtain ⟨whole, clean, torn⟩ := scanned
  have streamed := replayStream_always quiet (Prod.eta _).symm
  rw [whole] at streamed
  rw [holds.bytes]
  refine ⟨wal, created, by rw [streamed], wholeBefore_starts entryCodec _ _, ?_, ?_⟩
  · intro boundary
    rw [streamed, clean boundary]
    rfl
  · intro inside
    rw [streamed, torn inside]
    rfl

theorem crash_replays_whole_torn : ∃ events final,
    (freshWal plainConfig true).execAll
        [.append 0 .addNode [] [1, 2], .append 0 .custom (ascii "act") [3]] = some (events, final) ∧
      final.fd.bytes.length = 102 ∧ ∃ wal,
        (Wal.create plainConfig ⟨some (final.fd.bytes.take 99), final.fd.appendMode, []⟩).1 =
            .ok wal ∧
          (wal.replayStream (some always)).1.2 = wholeBefore entryCodec 83 (logOf events) := by
  have length : ((freshWal plainConfig true).execAll
      [.append 0 .addNode [] [1, 2], .append 0 .custom (ascii "act") [3]]).map
        (fun outcome => outcome.2.fd.bytes.length) = some 102 := by
    decide +kernel
  obtain ⟨⟨events, final⟩, executed, total⟩ := Option.map_eq_some_iff.mp length
  have reached : Reached WalStep events final :=
    ⟨plainConfig, true, _, create_fresh plainConfig true, execAll_run executed⟩
  obtain ⟨wal, created, delivered, -⟩ :=
    @crash_replays_whole events final reached 99 (by decide) plainConfig
  exact ⟨events, final, executed, total, wal, created, delivered⟩

/-- After any acknowledged appends the file delivers `whole` and then what was appended,
to the same object and to one opened on the path afterwards. -/
def AcceptsAppends (file : Bytes) (appendMode : Bool) (whole : List WalEntry) : Prop :=
  ∀ config wal, (Wal.create config ⟨some file, appendMode, []⟩).1 = .ok wal →
    ∀ events final, Run WalStep wal events final →
      (∀ event ∈ events, event.Acknowledged) →
        (final.replayStream (some always)).1.2 = whole ++ logOf events ∧
          ∀ again, ∃ reopened, (Wal.create again final.fd.disk).1 = .ok reopened ∧
            (reopened.replayStream (some always)).1.2 = whole ++ logOf events

theorem whole_acceptsAppends {log : List WalEntry} (storable : ∀ entry ∈ log, Storable entry)
    (offsets : (walBytes log).length < 2 ^ 63) (appendMode : Bool) :
    AcceptsAppends (walBytes log) appendMode log := by
  intro config wal created events final run acknowledged
  obtain ⟨opened, same, holds, -⟩ := create_holds config appendMode storable offsets
  rw [created] at same
  cases same
  have held := run_holds run holds
  rw [acknowledged_log acknowledged] at held
  refine ⟨held.delivers, ?_⟩
  intro again
  obtain ⟨reopened, success, -, kept⟩ := reopen_effect held again
  exact ⟨reopened, success, kept.delivers⟩

theorem small_append {wal : Wal} (quiet : wal.fd.faults = []) (entries : wal.config.maxEntries = 0)
    (size : wal.config.maxSizeBytes = 0) (room : wal.fd.bytes.length + 40 < 2 ^ 63)
    (type : WalEntryType) :
    ∃ final, Run WalStep wal [⟨.append 0 type [] [], .appended (.ok wal.nextSeq)⟩] final ∧
      final.fd.faults = [] ∧
      final.fd.bytes = wal.fd.bytes ++ encodeEntry (wal.nextEntry 0 type [] []) := by
  have accepted : ¬ wal.Refuses [] [] := by
    simp [Wal.Refuses, entries, size]
  have appended := append_accepted quiet accepted 0 type
  refine ⟨(wal.append 0 type [] []).2, .cons ⟨?_, ?_⟩ .nil, ?_, ?_⟩
  · simp only [Wal.exec, appended]
  · simp only [appended, List.length_append, encodeEntry_length]
    simpa [length32, Wal.nextEntry] using room
  · simp only [appended, quiet]
  · simp only [appended]

theorem create_headerless {file : Bytes} (short : file.length < kFileHeaderSize)
    (config : WalConfig) (appendMode : Bool) :
    (Wal.create config ⟨some file, appendMode, []⟩).1 =
      .ok { config := config, fd := ⟨file, 0, appendMode, []⟩ } := by
  have opened : openWalFile ⟨some file, appendMode, []⟩ false =
      (some ⟨file, 0, appendMode, []⟩, ⟨some file, appendMode, []⟩) := rfl
  have header : ((file.drop 0).take kFileHeaderSize).length < kFileHeaderSize := by
    simp only [List.drop_zero, List.length_take]
    omega
  simp only [Wal.create, makeParent_quiet, Option.isSome_some, Bool.not_true, opened, if_true,
    Wal.readFileHeader, readAt_quiet, header]

theorem headerless_loses {file : Bytes} (short : file.length < kFileHeaderSize)
    (appendMode : Bool) (whole : List WalEntry) : ¬ AcceptsAppends file appendMode whole := by
  intro accepts
  obtain ⟨final, run, quiet, bytes⟩ := @small_append
    { config := plainConfig, fd := ⟨file, 0, appendMode, []⟩ } rfl rfl rfl
    (by simp only [kFileHeaderSize] at *; omega) .addNode
  obtain ⟨delivered, -⟩ := accepts plainConfig _ (create_headerless short plainConfig appendMode)
    _ final run (by simp [WalEvent.Acknowledged])
  have length : (final.fd.bytes.drop kFileHeaderSize).length = file.length + 24 := by
    rw [bytes, List.length_drop, List.length_append, encodeEntry_length]
    simp [length32, Wal.nextEntry, kFileHeaderSize]
  have nothing : scan entryCodec (final.fd.bytes.drop kFileHeaderSize) =
      ([], some .protocolTruncatedBuffer) := by
    apply scan_entry_error
    · intro empty
      rw [empty] at length
      simp at length
    · have header : ((final.fd.bytes.drop kFileHeaderSize).take kEntryHeaderSize).length <
          kEntryHeaderSize := by
        simp only [List.length_take, length, kEntryHeaderSize, kFileHeaderSize] at *
        omega
      simp only [decodeEntry, header, if_true]
  rw [replayStream_always quiet nothing] at delivered
  simp [logOf, logAfter] at delivered

def typeByte (bytes : Bytes) : UInt8 := UInt8.ofNat (field (bytes.take kEntryHeaderSize) 24 1)

theorem decodeEntry_type {bytes : Bytes} {entry : WalEntry} {size : Nat}
    (found : decodeEntry bytes = .ok (entry, size)) : entry.type = ⟨typeByte bytes⟩ := by
  rw [(decodeEntry_ok found).parts]
  rfl

theorem typeByte_take (bytes : Bytes) :
    typeByte bytes = UInt8.ofNat (leNat ((bytes.take 25).drop 24)) := by
  simp only [typeByte, field, List.take_drop, List.take_take]
  rfl

theorem typeByte_shifted {torn front back : Bytes} (positive : 0 < torn.length)
    (same : front.take 24 = back.take 24) : typeByte (torn ++ front) = typeByte (torn ++ back) := by
  have start (tail : Bytes) : (torn ++ tail).take 25 = (torn ++ tail.take 24).take 25 := by
    rw [List.take_append, List.take_append, List.take_take, Nat.min_eq_left (by omega)]
  rw [typeByte_take, typeByte_take, start, start back, same]

theorem encodeEntry_front (entry : WalEntry) : (encodeEntry entry).take 24 =
    leBytes 4 kFileMagic.toNat ++ leBytes 4 entry.schemaVersion.toNat ++
      leBytes 8 entry.seq.toNat ++ leBytes 8 entry.timestampNs.toUInt64.toNat := by
  simp only [encodeEntry, entryHeader, headerPrefix]
  simp only [List.append_assoc]
  rw [← List.append_assoc, ← List.append_assoc, ← List.append_assoc]
  exact List.take_left' (by simp)

theorem torn_loses {whole : List WalEntry} {torn : Bytes} (storable : ∀ entry ∈ whole, Storable entry)
    (positive : 0 < torn.length) (appendMode : Bool)
    (room : (walBytes whole ++ torn).length + 40 < 2 ^ 63) :
    ¬ AcceptsAppends (walBytes whole ++ torn) appendMode whole := by
  intro accepts
  have file : walBytes whole ++ torn = fileHeader ++ (encodeAll entryCodec whole ++ torn) := by
    rw [walBytes, List.append_assoc]
  rw [file] at accepts room
  obtain ⟨opened, created, quiet, config, bytes, -⟩ :=
    tail_created plainConfig (encodeAll entryCodec whole ++ torn) appendMode
  have read (type : WalEntryType) :
      type = ⟨typeByte (torn ++ encodeEntry (opened.nextEntry 0 type [] []))⟩ := by
    obtain ⟨final, run, still, written⟩ := small_append quiet (by rw [config]; rfl)
      (by rw [config]; rfl) (by rw [bytes]; exact room) type
    obtain ⟨delivered, -⟩ := accepts plainConfig opened created _ final run
      (by simp [WalEvent.Acknowledged])
    generalize opened.nextEntry 0 type [] [] = added at *
    have behind : final.fd.bytes.drop kFileHeaderSize =
        encodeAll entryCodec whole ++ (torn ++ encodeEntry added) := by
      rw [written, bytes, List.append_assoc, List.append_assoc]
      exact List.drop_left' fileHeader_length
    have scanned := scan_encodeAll_append entryCodec storable (torn ++ encodeEntry added)
    rw [← behind] at scanned
    rw [replayStream_always still scanned] at delivered
    obtain ⟨size, found⟩ := decode_of_scan entryCodec (List.append_cancel_left delivered)
    exact decodeEntry_type found
  have swapped := typeByte_shifted positive
    ((encodeEntry_front (opened.nextEntry 0 .addNode [] [])).trans
      (encodeEntry_front (opened.nextEntry 0 .removeNode [] [])).symm)
  have first := read .addNode
  have second := read .removeNode
  rw [← swapped, ← first] at second
  exact absurd second (by decide)

theorem take_walBytes_whole {cut : Nat} {log : List WalEntry} (behind : kFileHeaderSize ≤ cut)
    (boundary : OnBoundary entryCodec (cut - kFileHeaderSize) log) :
    (walBytes log).take cut =
      walBytes (wholeBefore entryCodec (cut - kFileHeaderSize) log) := by
  rw [walBytes_take log behind, boundary, walBytes]

theorem crowded_acknowledges_none {wal final : Wal} {events : List WalEvent}
    (quiet : wal.fd.faults = []) (crowded : 2 ^ 63 ≤ wal.fd.bytes.length + 40)
    (run : Run WalStep wal events final) (acknowledged : ∀ event ∈ events, event.Acknowledged) :
    events = [] ∧ final = wal := by
  cases run with
  | nil => exact ⟨rfl, rfl⟩
  | @cons _ next _ event events step rest =>
      exfalso
      have first := acknowledged event (by simp)
      obtain ⟨effect, offsets⟩ := step
      obtain ⟨op, reply⟩ := event
      cases op with
      | append timestamp type action payload =>
          simp only [Wal.exec, Option.some.injEq, Prod.mk.injEq] at effect
          obtain ⟨rfl, rfl⟩ := effect
          by_cases refused : wal.Refuses action payload
          · rw [append_refused refused] at first
            exact first
          · rw [append_accepted quiet refused] at offsets
            simp only [List.length_append, encodeEntry_length] at offsets
            omega
      | _ => exact first

theorem crowded_acceptsAppends {cut : Nat} {log : List WalEntry}
    (storable : ∀ entry ∈ log, Storable entry) (appendMode : Bool)
    (crowded : 2 ^ 63 ≤ ((walBytes log).take cut).length + 40) :
    AcceptsAppends ((walBytes log).take cut) appendMode
      (wholeBefore entryCodec (cut - kFileHeaderSize) log) := by
  have behind : kFileHeaderSize ≤ cut := by
    simp only [List.length_take, kFileHeaderSize] at *
    omega
  have delivers (config : WalConfig) : ∃ wal,
      (Wal.create config ⟨some ((walBytes log).take cut), appendMode, []⟩).1 = .ok wal ∧
        wal.fd.faults = [] ∧ wal.fd.disk = ⟨some ((walBytes log).take cut), appendMode, []⟩ ∧
        (wal.replayStream (some always)).1.2 =
          wholeBefore entryCodec (cut - kFileHeaderSize) log := by
    obtain ⟨wal, created, quiet, disk, tail⟩ := cut_created log behind config appendMode
    refine ⟨wal, created, quiet, disk, ?_⟩
    rw [replayStream_always quiet (Prod.eta _).symm, tail]
    exact (scan_take entryCodec storable (cut - kFileHeaderSize)).1
  intro config wal created events final run acknowledged
  obtain ⟨opened, same, quiet, disk, delivered⟩ := delivers config
  rw [created] at same
  cases same
  have length : wal.fd.bytes = (walBytes log).take cut := Option.some.inj (congrArg Disk.bytes disk)
  obtain ⟨rfl, rfl⟩ := crowded_acknowledges_none quiet (by rw [length]; exact crowded) run
    acknowledged
  simp only [logOf, List.foldl_nil, List.append_nil]
  refine ⟨delivered, ?_⟩
  intro again
  obtain ⟨reopened, success, -, -, kept⟩ := delivers again
  exact ⟨reopened, by rw [disk]; exact success, kept⟩

/-- A cut file takes new entries without loss exactly when the cut leaves no entry and no file
header torn, unless it has no room for a new entry. -/
theorem crash_acceptsAppends {events : List WalEvent} {final : Wal}
    (reached : Reached WalStep events final) (cut : Nat) :
    AcceptsAppends (final.fd.bytes.take cut) final.fd.appendMode
        (wholeBefore entryCodec (cut - kFileHeaderSize) (logOf events)) ↔
      (kFileHeaderSize ≤ cut ∧ OnBoundary entryCodec (cut - kFileHeaderSize) (logOf events)) ∨
        2 ^ 63 ≤ (final.fd.bytes.take cut).length + 40 := by
  have holds := reached.holds
  have offsets := holds.offsets
  rw [holds.bytes] at offsets
  rw [holds.bytes]
  generalize logOf events = log at *
  have kept : ∀ entry ∈ wholeBefore entryCodec (cut - kFileHeaderSize) log, Storable entry :=
    fun entry member => holds.storable entry ((wholeBefore_starts entryCodec _ _).subset member)
  constructor
  · intro accepts
    by_contra neither
    rw [not_or] at neither
    obtain ⟨torn, room⟩ := neither
    by_cases behind : kFileHeaderSize ≤ cut
    · rcases take_encodeAll entryCodec (cut - kFileHeaderSize) log with
        clean | ⟨entry, -, count, positive, short, split⟩
      · exact torn ⟨behind, clean⟩
      · rw [walBytes_take log behind, split, ← List.append_assoc] at accepts room
        refine torn_loses kept ?_ final.fd.appendMode (Nat.not_le.mp room) accepts
        simp only [List.length_take]
        omega
    · refine headerless_loses ?_ final.fd.appendMode _ accepts
      simp only [List.length_take]
      omega
  · rintro (⟨behind, boundary⟩ | crowded)
    · rw [take_walBytes_whole behind boundary]
      refine whole_acceptsAppends kept ?_ final.fd.appendMode
      rw [← take_walBytes_whole behind boundary, List.length_take]
      omega
    · exact crowded_acceptsAppends holds.storable final.fd.appendMode crowded

theorem oneEntry_log : ∃ entry, logOf oneEntryEvents = [entry] ∧
    (entryCodec.encode entry).length = 40 := by
  refine ⟨_, rfl, ?_⟩
  simp [entryCodec, encodeEntry_length, storedEntry, storedAction, storedPayload, length32]

theorem crash_acceptsAppends_whole :
    AcceptsAppends (oneEntryWal.fd.bytes.take 56) oneEntryWal.fd.appendMode
      (wholeBefore entryCodec 40 (logOf oneEntryEvents)) := by
  refine (crash_acceptsAppends oneEntry_reached 56).mpr (.inl ⟨by decide, ?_⟩)
  obtain ⟨entry, log, size⟩ := oneEntry_log
  rw [log, OnBoundary, show 56 - kFileHeaderSize = 40 from rfl]
  simp [wholeBefore, size, List.take_of_length_le]

/-- Cut ten bytes into its only entry, the file loses what is appended to it. -/
theorem crash_loses_append :
    ¬ ∀ {events : List WalEvent} {final : Wal}, Reached WalStep events final → ∀ cut,
      AcceptsAppends (final.fd.bytes.take cut) final.fd.appendMode
        (wholeBefore entryCodec (cut - kFileHeaderSize) (logOf events)) := by
  intro accepts
  obtain ⟨entry, log, size⟩ := oneEntry_log
  have kept := accepts oneEntry_reached 26
  rw [oneEntry_reached.holds.bytes, walBytes_take _ (by decide), log,
    show 26 - kFileHeaderSize = 10 from rfl, encodeAll_cons, encodeAll_nil, List.append_nil,
    show wholeBefore entryCodec 10 [entry] = [] by simp [wholeBefore, size]] at kept
  refine @torn_loses [] ((entryCodec.encode entry).take 10) (by simp) ?_ _ ?_ kept
  · simp [size]
  · simp [walBytes, size]

end Udaf
