import Udaf.Wal.EntryCodec

/-!
The reading loops and the writers when every call completes: each loop visits
exactly what a scan of the bytes meets, and a written entry is a frame at the end.
-/

namespace Udaf

open ByteString Posix FrameLog

theorem takeExact_drop (size offset : Nat) (bytes : Bytes) :
    takeExact size (bytes.drop offset) =
      if ((bytes.drop offset).take size).length = size then some ((bytes.drop offset).take size)
      else none := rfl

theorem readEntry_quiet {fd : File} (quiet : fd.faults = []) (behind : kFileHeaderSize ≤ fd.pos) :
    readEntry fd =
      match decodeEntry (fd.bytes.drop fd.pos) with
      | .error code => (.error code, fd)
      | .ok (entry, size) => (.ok entry, { fd with pos := fd.pos + size }) := by
  simp only [readEntry, lseekCur_quiet quiet, seekSet_quiet quiet, readAt_quiet quiet,
    if_neg (Nat.not_lt.mpr behind), decodeEntry, List.drop_drop]
  generalize (fd.bytes.drop fd.pos).take kEntryHeaderSize = header
  split
  · rfl
  · split
    · rfl
    · split
      · rfl
      · rw [readExact_quiet quiet, takeExact_drop]
        cases (if ((fd.bytes.drop (fd.pos + kEntryHeaderSize)).take (field header 25 4)).length =
            field header 25 4 then
            some ((fd.bytes.drop (fd.pos + kEntryHeaderSize)).take (field header 25 4))
          else none) with
        | none => rfl
        | some action =>
            simp only [readExact_quiet quiet, takeExact_drop, Nat.add_assoc]
            cases (if ((fd.bytes.drop (fd.pos + (kEntryHeaderSize + field header 25 4))).take
                (field header 29 4)).length = field header 29 4 then
                some ((fd.bytes.drop (fd.pos + (kEntryHeaderSize + field header 25 4))).take
                  (field header 29 4))
              else none) with
            | none => rfl
            | some payload =>
                simp only
                split
                · rfl
                · simp [quiet]

theorem scan_entry_error {bytes : Bytes} {code : ErrorCode} (nonempty : bytes ≠ [])
    (found : decodeEntry bytes = .error code) : scan entryCodec bytes = ([], some code) :=
  scan_error entryCodec nonempty found

theorem scan_entry_ok {bytes : Bytes} {entry : WalEntry} {size : Nat} (nonempty : bytes ≠ [])
    (found : decodeEntry bytes = .ok (entry, size)) :
    scan entryCodec bytes = (entry :: (scan entryCodec (bytes.drop size)).1,
      (scan entryCodec (bytes.drop size)).2) :=
  scan_ok entryCodec nonempty found

/-- The reading loop visits what a scan from its position meets. The bound on `fuel` is met by
`loopBound`, so the loop always ends by itself. -/
theorem readEntries_quiet {σ : Type} (visit : σ → WalEntry → σ × Bool) (fuel : Nat) (acc : σ)
    {fd : File} (quiet : fd.faults = []) (behind : kFileHeaderSize ≤ fd.pos)
    (enough : fd.bytes.length - fd.pos < fuel) :
    ∃ pos, kFileHeaderSize ≤ pos ∧ readEntries visit fuel acc fd =
      (visitAll visit acc (scan entryCodec (fd.bytes.drop fd.pos)), { fd with pos := pos }) := by
  induction fuel generalizing acc fd with
  | zero => omega
  | succ fuel ih =>
      simp only [readEntries, lseekCur_quiet quiet, fstat_quiet quiet, Option.any_some,
        decide_eq_true_eq]
      by_cases atEnd : fd.bytes.length ≤ fd.pos
      · have nothing : fd.bytes.drop fd.pos = [] := List.drop_eq_nil_of_le atEnd
        exact ⟨fd.pos, behind, by simp [atEnd, nothing, visitAll]⟩
      · have something : fd.bytes.drop fd.pos ≠ [] := by
          simp only [ne_eq, List.drop_eq_nil_iff]
          omega
        rw [if_neg atEnd, readEntry_quiet quiet behind]
        cases found : decodeEntry (fd.bytes.drop fd.pos) with
        | error code =>
            exact ⟨fd.pos, behind, by simp [scan_entry_error something found, visitAll]⟩
        | ok pair =>
            obtain ⟨entry, size⟩ := pair
            have bound := decodeEntry_bound found
            simp only [List.length_drop] at bound
            rw [scan_entry_ok something found, visitAll_cons, List.drop_drop]
            cases more : visit acc entry with
            | mk next goOn =>
                cases goOn with
                | true =>
                    obtain ⟨pos, behindPos, rest⟩ := @ih next { fd with pos := fd.pos + size }
                      quiet (by simp only; omega) (by simp only; omega)
                    exact ⟨pos, behindPos, by simpa [more] using rest⟩
                | false => exact ⟨fd.pos + size, by omega, by simp [more]⟩

theorem writeEntry_quiet {wal : Wal} (quiet : wal.fd.faults = []) (entry : WalEntry) :
    wal.writeEntry entry = (.ok entry.seq, { wal with
      fd := { wal.fd with
        bytes := wal.fd.bytes ++ encodeEntry entry
        pos := wal.fd.bytes.length }
      sizeBytes := wal.sizeBytes + UInt64.ofNat (encodeEntry entry).length
      entryCount := wal.entryCount + 1 }) := by
  simp [Wal.writeEntry, writeAt_quiet, writeField_quiet, quiet, kEntryHeaderSize, encodeEntry,
    Nat.add_assoc]

theorem writeEntries_quiet {wal : Wal} (quiet : wal.fd.faults = []) (entries : List WalEntry) :
    ∃ pos size count, Wal.writeEntries entries wal = (.ok (), { wal with
      fd := { wal.fd with bytes := wal.fd.bytes ++ encodeAll entryCodec entries, pos := pos }
      sizeBytes := size
      entryCount := count }) := by
  induction entries generalizing wal with
  | nil => exact ⟨wal.fd.pos, wal.sizeBytes, wal.entryCount, by simp [Wal.writeEntries]⟩
  | cons entry rest ih =>
      simp only [Wal.writeEntries, writeEntry_quiet quiet, encodeAll_cons, ← List.append_assoc]
      exact ih quiet

theorem scanLoop_frame (fuel : Nat) (maxSeq count : UInt64) {fd : File} (quiet : fd.faults = []) :
    ∃ found pos, scanLoop fuel maxSeq count fd = (found, { fd with pos := pos }) := by
  induction fuel generalizing maxSeq count fd with
  | zero => exact ⟨_, fd.pos, rfl⟩
  | succ fuel ih =>
      simp only [scanLoop, lseekCur_quiet quiet, fstat_quiet quiet, readAt_quiet quiet,
        lseekSet_quiet quiet]
      split
      · exact ⟨_, fd.pos, rfl⟩
      · split
        · exact ⟨_, fd.pos, rfl⟩
        · split
          · exact ⟨_, fd.pos, rfl⟩
          · exact ih _ _ quiet

def laterSeq (maxSeq : UInt64) (entry : WalEntry) : UInt64 :=
  if maxSeq < entry.seq then entry.seq else maxSeq

def maxSeqOf (log : List WalEntry) : UInt64 := log.foldl laterSeq 0

theorem add_ofNat_succ (count : UInt64) (length : Nat) :
    count + 1 + UInt64.ofNat length = count + UInt64.ofNat (length + 1) := by
  rw [Nat.add_comm length 1, UInt64.ofNat_add, UInt64.add_assoc]
  rfl

theorem scanLoop_scan {entries : List WalEntry} (fuel : Nat) (maxSeq count : UInt64) {fd : File}
    (quiet : fd.faults = []) (scanned : scan entryCodec (fd.bytes.drop fd.pos) = (entries, none))
    (enough : entries.length < fuel) :
    (scanLoop fuel maxSeq count fd).1 =
      (entries.foldl laterSeq maxSeq, count + UInt64.ofNat entries.length) := by
  induction entries generalizing fuel maxSeq count fd with
  | nil =>
      have atEnd : fd.bytes.length ≤ fd.pos := List.drop_eq_nil_iff.mp (scan_ended entryCodec scanned)
      cases fuel with
      | zero => simp at enough
      | succ fuel => simp [scanLoop, quiet, atEnd]
  | cons entry entries ih =>
      obtain ⟨size, found, rest⟩ := scan_continues entryCodec scanned
      have decoded := decodeEntry_ok found
      have bound := decodeEntry_bound found
      have inside : ¬ fd.bytes.length ≤ fd.pos := by
        rw [List.length_drop] at bound
        omega
      cases fuel with
      | zero => simp at enough
      | succ fuel =>
          simp only [scanLoop, lseekCur_quiet quiet, fstat_quiet quiet, readAt_quiet quiet,
            if_neg inside, lseekSet_quiet quiet]
          generalize (fd.bytes.drop fd.pos).take kEntryHeaderSize = header at decoded ⊢
          have short : ¬ header.length < kEntryHeaderSize := by
            rw [decoded.whole]
            exact Nat.lt_irrefl _
          have ours : ¬ (field header 0 4 ≠ kFileMagic.toNat ∨
              field header 4 4 ≠ kSchemaVersion.toNat) := by
            rw [decoded.magic, decoded.schema]
            simp only [ne_eq, not_true_eq_false, or_self, not_false_eq_true]
          have seq : UInt64.ofNat (field header 8 8) = entry.seq := by
            rw [decoded.parts]
            rfl
          rw [if_neg short, if_neg ours, ← decoded.length, seq]
          rw [List.drop_drop] at rest
          rw [@ih fuel _ _ { fd with pos := fd.pos + size } quiet rest (by simpa using enough)]
          simp only [List.foldl_cons, laterSeq, List.length_cons, Prod.mk.injEq, true_and]
          exact add_ofNat_succ count entries.length

theorem scanLoop_log {log : List WalEntry} (storable : ∀ entry ∈ log, Storable entry)
    (fuel : Nat) (maxSeq count : UInt64) {fd : File} (quiet : fd.faults = [])
    (rest : fd.bytes.drop fd.pos = encodeAll entryCodec log) (enough : log.length < fuel) :
    (scanLoop fuel maxSeq count fd).1 =
      (log.foldl laterSeq maxSeq, count + UInt64.ofNat log.length) := by
  refine scanLoop_scan fuel maxSeq count quiet ?_ enough
  rw [rest]
  exact scan_encodeAll entryCodec storable

end Udaf
