import Udaf.Wal.FailedAppend

/-!
A truncation that fails. Up to the cut only the descriptor moves; from the cut
on the entries to keep are no longer in the file until they are written again.
-/

namespace Udaf

open ByteString Posix FrameLog Runs

structure Lies (file : Bytes) (entry : WalEntry) : Prop where
  storable : Storable entry
  within : kFileHeaderSize + (encodeEntry entry).length ≤ file.length

theorem field_lt (header : Bytes) (start width : Nat) : field header start width < 256 ^ width := by
  refine Nat.lt_of_lt_of_le (leNat_lt _) (Nat.pow_le_pow_right (by decide) ?_)
  rw [List.length_take]
  omega

theorem readExact_some {fd after : File} {size offset : Nat} {read : Bytes}
    (done : readExact fd size offset = (some read, after)) :
    read.length = size ∧ (size = 0 ∨ offset + size ≤ fd.bytes.length) := by
  simp only [readExact] at done
  split at done
  · rename_i zero
    cases done
    exact ⟨by simp [zero], .inl zero⟩
  · split at done
    · rename_i chunk next outcome
      split at done
      · rename_i whole
        cases done
        refine ⟨whole, .inr ?_⟩
        have bound := readAt_bound outcome (by omega)
        omega
      · simp at done
    · simp at done

@[simp] theorem readExact_bytes (fd : File) (size offset : Nat) :
    (readExact fd size offset).2.bytes = fd.bytes := by
  have kept := readAt_bytes fd size offset
  simp only [readExact]
  split
  · rfl
  · split <;> simp_all

theorem lies_entryOf {file header action payload : Bytes} {cur : Nat}
    (schema : field header 4 4 = kSchemaVersion.toNat) (behind : kFileHeaderSize ≤ cur)
    (headerIn : cur + kEntryHeaderSize ≤ file.length)
    (actionIs : action.length = field header 25 4)
    (actionIn : field header 25 4 = 0 ∨
      cur + kEntryHeaderSize + field header 25 4 ≤ file.length)
    (payloadIs : payload.length = field header 29 4)
    (payloadIn : field header 29 4 = 0 ∨
      cur + kEntryHeaderSize + field header 25 4 + field header 29 4 ≤ file.length) :
    Lies file (entryOf header action payload) := by
  have actionShort := field_lt header 25 4
  have payloadShort := field_lt header 29 4
  refine ⟨⟨?_, ?_, ?_⟩, ?_⟩
  · simp only [entryOf, schema]
    rfl
  · simp only [entryOf, actionIs]
    omega
  · simp only [entryOf, payloadIs]
    omega
  · simp only [encodeEntry_length, entryOf, length32, actionIs, payloadIs, kFileHeaderSize,
      kEntryHeaderSize] at *
    omega

theorem lseekCur_same {fd next : File} {result : Option Nat}
    (called : fd.lseekCur = (result, next)) : next.bytes = fd.bytes := by
  rw [← lseekCur_bytes fd, called]

theorem seekSet_same {fd next : File} {offset : Nat} {result : Option Nat}
    (called : seekSet fd offset = (result, next)) : next.bytes = fd.bytes := by
  rw [← seekSet_bytes fd offset, called]

theorem fstat_same {fd next : File} {result : Option Nat}
    (called : fd.fstat = (result, next)) : next.bytes = fd.bytes := by
  rw [← fstat_bytes fd, called]

theorem readAt_same {fd next : File} {count offset : Nat} {result : Option Bytes}
    (called : readAt fd count offset = (result, next)) : next.bytes = fd.bytes := by
  rw [← readAt_bytes fd count offset, called]

theorem readExact_same {fd next : File} {size offset : Nat} {result : Option Bytes}
    (called : readExact fd size offset = (result, next)) : next.bytes = fd.bytes := by
  rw [← readExact_bytes fd size offset, called]

theorem readEntry_bytes (fd : File) : (readEntry fd).2.bytes = fd.bytes := by
  simp only [readEntry]
  repeat' split
  all_goals grind [lseekCur_bytes, seekSet_bytes, readAt_bytes, readExact_bytes, lseekSet_bytes]

theorem readEntry_lies {fd after : File} {entry : WalEntry}
    (done : readEntry fd = (.ok entry, after)) : Lies fd.bytes entry := by
  simp only [readEntry] at done
  split at done
  · cases done
  rename_i cur fd1 positioned
  split at done
  · cases done
  rename_i behind
  split at done
  · cases done
  rename_i moved fd2 sought
  split at done
  · cases done
  rename_i header fd3 headerRead
  split at done
  · cases done
  rename_i headerWhole
  split at done
  · cases done
  split at done
  · cases done
  rename_i schema
  split at done
  · cases done
  rename_i action fd4 actionRead
  split at done
  · cases done
  rename_i payload fd5 payloadRead
  split at done
  · cases done
  cases done
  have same2 : fd2.bytes = fd.bytes := (seekSet_same sought).trans (lseekCur_same positioned)
  have same3 : fd3.bytes = fd.bytes := (readAt_same headerRead).trans same2
  have same4 : fd4.bytes = fd.bytes := (readExact_same actionRead).trans same3
  have headerIn := readAt_bound headerRead (by simp only [kEntryHeaderSize] at *; omega)
  obtain ⟨actionIs, actionIn⟩ := readExact_some actionRead
  obtain ⟨payloadIs, payloadIn⟩ := readExact_some payloadRead
  rw [same2] at headerIn
  rw [same3] at actionIn
  rw [same4] at payloadIn
  exact lies_entryOf (not_not.mp schema) (Nat.not_lt.mp behind) (by omega) actionIs actionIn
    payloadIs payloadIn

theorem readEntries_lies {σ : Type} {visit : σ → WalEntry → σ × Bool} {Inv : σ → Prop}
    {file : Bytes} (keeps : ∀ acc entry, Inv acc → Lies file entry → Inv (visit acc entry).1)
    (fuel : Nat) {acc : σ} {fd : File} (same : fd.bytes = file) (initial : Inv acc) :
    (readEntries visit fuel acc fd).2.bytes = file ∧
      Inv (readEntries visit fuel acc fd).1.2 := by
  induction fuel generalizing acc fd with
  | zero => exact ⟨same, initial⟩
  | succ fuel ih =>
      simp only [readEntries]
      have same1 := (lseekCur_bytes fd).trans same
      split
      · rename_i fd2 asked
        exact ⟨(fstat_same asked).trans same1, initial⟩
      rename_i size fd2 asked
      have same2 := (fstat_same asked).trans same1
      split
      · exact ⟨same2, initial⟩
      have same3 := (readEntry_bytes fd2).trans same2
      cases read : readEntry fd2 with
      | mk result fd3 =>
          rw [read] at same3
          cases result with
          | error code => exact ⟨same3, initial⟩
          | ok entry =>
              have found := readEntry_lies read
              rw [same2] at found
              have kept := keeps acc entry initial found
              cases next : visit acc entry with
              | mk after goOn =>
                  rw [next] at kept
                  simp only [next]
                  cases goOn with
                  | true => exact ih same3 kept
                  | false => exact ⟨same3, kept⟩

theorem writeEntries_failed {entries : List WalEntry} {wal after : Wal} {code : ErrorCode}
    (failed : Wal.writeEntries entries wal = (.error code, after)) :
    ∃ whole part, ∃ entry ∈ entries, part < (encodeEntry entry).length ∧
      after.fd.bytes.length = wal.fd.bytes.length + whole + part ∧
      after.sizeBytes = wal.sizeBytes + UInt64.ofNat whole := by
  induction entries generalizing wal with
  | nil => cases failed
  | cons entry entries ih =>
      obtain ⟨stored, kept⟩ := writeEntry_end wal entry
      simp only [Wal.writeEntries] at failed
      cases written : wal.writeEntry entry with
      | mk result next =>
          rw [written] at failed kept
          have length := congrArg List.length kept.bytes
          rw [List.length_append, List.length_take] at length
          rcases kept.outcome with ⟨succeeded, all, size, -⟩ | ⟨stopped, short, size, -⟩
          · simp only at succeeded size length
            rw [succeeded] at failed
            obtain ⟨whole, part, other, member, less, total, sum⟩ := ih failed
            refine ⟨(encodeEntry entry).length + whole, part, other, by simp [member], less, ?_, ?_⟩
            · omega
            · rw [sum, size, UInt64.ofNat_add, UInt64.add_assoc]
          · simp only at stopped size length
            rw [stopped] at failed
            cases failed
            refine ⟨0, stored, entry, by simp, short, by omega, by simpa using size⟩

theorem rewritten_size {old whole part : Nat} {size : UInt64} (offsets : old < 2 ^ 63)
    (less : kFileHeaderSize + part < old)
    (counted : size = UInt64.ofNat old + UInt64.ofNat whole) :
    size.toNat ≠ kFileHeaderSize + whole + part := by
  intro same
  rw [counted, ← UInt64.ofNat_add, UInt64.toNat_ofNat'] at same
  omega

/-- The truncation does not get past its cut: a seek, a read or `ftruncate` fails. -/
def Wal.CutFails (keepSequence : UInt64) (wal : Wal) : Prop :=
  match seekSet wal.fd kFileHeaderSize with
  | (none, _) => True
  | (some _, fd) =>
      match readEntries (fun kept entry => (keepEntry keepSequence kept entry, true))
          (loopBound fd) ([], UInt64.ofNat kFileHeaderSize) fd with
      | ((.error _, _), _) => True
      | ((.ok _, _), fd) => (ftruncateWrapped fd kFileHeaderSize).1 = none

theorem ftruncate_cases (fd : File) (length : Nat) :
    (∃ errno next, fd.ftruncate length = (.error errno, next) ∧ next.bytes = fd.bytes) ∨
      ∃ next, fd.ftruncate length = (.ok (), next) ∧ next.bytes = resize fd.bytes length := by
  have kept := call_bytes fd 0
  simp only [File.ftruncate]
  split
  · rename_i moved next called
    rw [called] at kept
    simp only at kept
    exact .inr ⟨_, rfl, by simp only [kept]⟩
  · rename_i errno next called
    rw [called] at kept
    exact .inl ⟨errno, next, rfl, kept⟩

theorem ftruncateLoop_cases (fuel length : Nat) (fd : File) :
    ((ftruncateLoop fuel length fd).1 = none ∧ (ftruncateLoop fuel length fd).2.bytes = fd.bytes) ∨
      ((ftruncateLoop fuel length fd).1 = some () ∧
        (ftruncateLoop fuel length fd).2.bytes = resize fd.bytes length) := by
  induction fuel generalizing fd with
  | zero => exact .inl ⟨rfl, rfl⟩
  | succ fuel ih =>
      simp only [ftruncateLoop]
      rcases ftruncate_cases fd length with ⟨errno, next, called, same⟩ | ⟨next, called, cut⟩
      · rw [called]
        cases errno with
        | eintr =>
            simp only
            rw [← same]
            exact ih next
        | other => exact .inl ⟨rfl, same⟩
      · rw [called]
        exact .inr ⟨rfl, cut⟩

theorem resize_length (bytes : Bytes) (length : Nat) : (resize bytes length).length = length := by
  simp only [resize, List.length_append, List.length_take, List.length_replicate]
  omega

theorem keepEntry_lies {file : Bytes} {keepSequence : UInt64} {kept : List WalEntry × UInt64}
    {entry : WalEntry} (before : ∀ other ∈ kept.1, Lies file other) (found : Lies file entry) :
    ∀ other ∈ (keepEntry keepSequence kept entry).1, Lies file other := by
  simp only [keepEntry]
  split
  · intro other member
    rcases List.mem_append.mp member with old | new
    · exact before other old
    · rw [List.mem_singleton.mp new]
      exact found
  · exact before

theorem rewriting_failed {wal : Wal} {fd : File} {kept : List WalEntry} {code : ErrorCode}
    {after : Wal} (offsets : wal.fd.bytes.length < 2 ^ 63)
    (size : wal.sizeBytes.toNat = wal.fd.bytes.length)
    (lies : ∀ entry ∈ kept, Lies wal.fd.bytes entry) (cut : fd.bytes.length = kFileHeaderSize)
    (failed : Wal.writeEntries kept { wal with fd := fd } = (.error code, after)) :
    after.sizeBytes.toNat ≠ after.fd.bytes.length := by
  obtain ⟨whole, part, entry, member, less, length, counted⟩ := writeEntries_failed failed
  have within := (lies entry member).within
  simp only [cut] at length
  rw [length]
  refine rewritten_size offsets (by omega) ?_
  rw [← size, UInt64.ofNat_toNat]
  exact counted

/-- What a failed truncation leaves behind: the old file, or one that its counters do not fit. -/
theorem truncate_failing {wal : Wal} {keepSequence : UInt64} {code : ErrorCode}
    (offsets : wal.fd.bytes.length < 2 ^ 63) (size : wal.sizeBytes.toNat = wal.fd.bytes.length)
    (failed : (wal.truncate keepSequence).1 = .error code) :
    (wal.CutFails keepSequence ∧ (wal.truncate keepSequence).2.fd.bytes = wal.fd.bytes ∧
      (wal.truncate keepSequence).2.sizeBytes = wal.sizeBytes ∧
      (wal.truncate keepSequence).2.entryCount = wal.entryCount) ∨
    (¬ wal.CutFails keepSequence ∧ (wal.truncate keepSequence).2.sizeBytes.toNat ≠
      (wal.truncate keepSequence).2.fd.bytes.length) := by
  simp only [Wal.CutFails, Wal.truncate] at failed ⊢
  have same1 := seekSet_bytes wal.fd kFileHeaderSize
  cases sought : seekSet wal.fd kFileHeaderSize with
  | mk position fd1 =>
      rw [sought] at same1
      simp only [sought] at failed ⊢
      cases position with
      | none => exact .inl ⟨trivial, same1, rfl, rfl⟩
      | some _ =>
          obtain ⟨same2, lies⟩ := @readEntries_lies _
            (fun kept entry => (keepEntry keepSequence kept entry, true))
            (fun kept => ∀ entry ∈ kept.1, Lies wal.fd.bytes entry) _
            (fun _ _ before found => keepEntry_lies before found) (loopBound fd1)
            ([], UInt64.ofNat kFileHeaderSize) fd1 same1 (by simp)
          simp only at failed ⊢
          generalize readEntries (fun kept entry => (keepEntry keepSequence kept entry, true))
            (loopBound fd1) ([], UInt64.ofNat kFileHeaderSize) fd1 = outcome at *
          obtain ⟨⟨result, kept, keptBytes⟩, fd2⟩ := outcome
          cases result with
          | error reason => exact .inl ⟨trivial, same2, rfl, rfl⟩
          | ok _ =>
              have shrunk := ftruncateLoop_cases (fd2.faults.length + 1) kFileHeaderSize fd2
              rw [← ftruncateWrapped] at shrunk
              simp only at failed ⊢
              generalize ftruncateWrapped fd2 kFileHeaderSize = outcome at *
              obtain ⟨done, fd3⟩ := outcome
              rcases shrunk with ⟨stopped, same3⟩ | ⟨done', cut⟩
              · simp only at stopped same3
                subst stopped
                exact .inl ⟨rfl, same3.trans same2, rfl, rfl⟩
              · simp only at done' cut
                subst done'
                refine .inr ⟨by simp, ?_⟩
                have length := congrArg List.length cut
                rw [resize_length] at length
                by_cases nothing : kept.isEmpty
                · simp [nothing] at failed
                · simp only [nothing, Bool.false_eq_true, if_false] at failed ⊢
                  have same4 := seekSet_bytes fd3 kFileHeaderSize
                  cases back : seekSet fd3 kFileHeaderSize with
                  | mk position fd4 =>
                      rw [back] at same4
                      simp only [back] at failed ⊢
                      cases position with
                      | none =>
                          simp only at same4 ⊢
                          rw [same4, length, size]
                          obtain ⟨entry, member⟩ := List.exists_mem_of_ne_nil kept
                            (by simpa using nothing)
                          have within := (lies entry member).within
                          rw [encodeEntry_length] at within
                          omega
                      | some _ =>
                          simp only at failed same4 ⊢
                          cases written : Wal.writeEntries kept { wal with fd := fd4 } with
                          | mk result after =>
                              rw [written] at failed
                              cases result with
                              | ok _ => simp at failed
                              | error reason =>
                                  exact rewriting_failed offsets size lies
                                    (by rw [same4, length]) written

/-- The entries from `keepSequence` on are still delivered, and the counters fit the file. -/
structure KeepsTail (keepSequence : UInt64) (log : List WalEntry) (after : Wal) : Prop where
  replay : ∃ entries, after.replay.1 = .ok entries ∧
    (log.filter (keeps keepSequence)).Sublist entries
  stream : (log.filter (keeps keepSequence)).Sublist (after.replayStream (some always)).1.2
  size : after.sizeBytes.toNat = after.fd.bytes.length
  count : after.entryCount.toNat = (after.replayStream (some always)).1.2.length

theorem Holds.keepsTail {wal : Wal} {log : List WalEntry} (holds : Holds wal log)
    (keepSequence : UInt64) : KeepsTail keepSequence log wal := by
  refine ⟨⟨log, holds.replays, List.filter_sublist⟩, ?_, holds.size, ?_⟩
  · rw [holds.delivers]
    exact List.filter_sublist
  · rw [holds.delivers, holds.count]

/-- A failed truncation keeps what it must exactly when it fails before the cut. -/
theorem truncate_keeps_iff {events : List WalEvent} {wal : Wal}
    (reached : Reached WalStep events wal) (faults : List Outcome) {keepSequence : UInt64}
    {code : ErrorCode} (failed : ((wal.facing faults).truncate keepSequence).1 = .error code) :
    KeepsTail keepSequence (logOf events) ((wal.facing faults).truncate keepSequence).2.settled ↔
      (wal.facing faults).CutFails keepSequence := by
  have holds := reached.holds
  rcases @truncate_failing (wal.facing faults) keepSequence code holds.offsets holds.size failed with
    ⟨early, bytes, size, count⟩ | ⟨late, mismatch⟩
  · exact ⟨fun _ => early, fun _ => (holds.settled bytes size count).keepsTail keepSequence⟩
  · exact ⟨fun kept => absurd kept.size mismatch, fun early => absurd early late⟩

theorem truncate_keeps_seek : KeepsTail 1 (logOf oneEntryEvents)
    ((oneEntryWal.facing [.fail]).truncate 1).2.settled :=
  (truncate_keeps_iff oneEntry_reached [.fail] rfl).mpr trivial

def failedRewrite : List Outcome := List.replicate 12 .done ++ [.fail]

theorem truncate_loses_tail :
    ¬ ∀ {events : List WalEvent} {wal : Wal}, Reached WalStep events wal →
      ∀ {faults keepSequence code},
        ((wal.facing faults).truncate keepSequence).1 = .error code →
          KeepsTail keepSequence (logOf events)
            ((wal.facing faults).truncate keepSequence).2.settled := by
  intro keeps
  have failed : ((oneEntryWal.facing failedRewrite).truncate 1).1 = .error .internal := by
    have same : (match ((oneEntryWal.facing failedRewrite).truncate 1).1 with
        | .ok _ => false
        | .error code => decide (code = .internal)) = true := by
      decide +kernel
    split at same <;> simp_all
  have size := (keeps oneEntry_reached failed).size
  exact absurd size (by decide +kernel)

end Udaf
