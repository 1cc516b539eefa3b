import Udaf.Wal.History

/-!
The same operations when system calls fail, are interrupted or come up short.
Readers never change the file; a writer at the end of the file leaves some
prefix of its data there, the whole of it exactly when it reports success.
-/

namespace Udaf

open ByteString Posix FrameLog

theorem call_bytes (fd : File) (wanted : Nat) : (fd.call wanted).2.bytes = fd.bytes := by
  simp only [File.call]
  split <;> rfl

@[simp] theorem lseekCur_bytes (fd : File) : fd.lseekCur.2.bytes = fd.bytes := by
  have kept := call_bytes fd 0
  simp only [File.lseekCur]
  split <;> simp_all

@[simp] theorem lseekSet_bytes (fd : File) (offset : Nat) :
    (fd.lseekSet offset).2.bytes = fd.bytes := by
  have kept := call_bytes fd 0
  simp only [File.lseekSet]
  split <;> simp_all

@[simp] theorem seekSet_bytes (fd : File) (offset : Nat) :
    (seekSet fd offset).2.bytes = fd.bytes :=
  lseekSet_bytes fd offset

@[simp] theorem fstat_bytes (fd : File) : fd.fstat.2.bytes = fd.bytes := by
  have kept := call_bytes fd 0
  simp only [File.fstat]
  split <;> simp_all

@[simp] theorem pread_bytes (fd : File) (count offset : Nat) :
    (fd.pread count offset).2.bytes = fd.bytes := by
  have kept := call_bytes fd count
  simp only [File.pread]
  split <;> simp_all

theorem pread_ok {fd next : File} {count offset : Nat} {chunk : Bytes}
    (read : fd.pread count offset = (.ok chunk, next)) :
    chunk.length ≤ fd.bytes.length - offset := by
  have kept := call_bytes fd count
  simp only [File.pread] at read
  split at read
  · rename_i moved after called
    rw [called] at kept
    cases read
    simp only at kept
    rw [kept, List.length_take, List.length_drop]
    omega
  · cases read

theorem readAtLoop_frame {fuel count offset : Nat} {read : Bytes} {fd : File} :
    (readAtLoop fuel count offset read fd).2.bytes = fd.bytes := by
  induction fuel generalizing count offset read fd with
  | zero => rfl
  | succ fuel ih =>
      simp only [readAtLoop]
      split
      · rfl
      · have kept := pread_bytes fd count offset
        split
        all_goals
          rename_i called
          rw [called] at kept
          simp only at kept
        · rw [ih, kept]
        · exact kept
        · exact kept
        · rw [ih, kept]

@[simp] theorem readAt_bytes (fd : File) (count offset : Nat) :
    (readAt fd count offset).2.bytes = fd.bytes :=
  readAtLoop_frame

theorem readAtLoop_bound {fuel count offset : Nat} {read whole : Bytes} {fd after : File}
    (done : readAtLoop fuel count offset read fd = (some whole, after)) :
    whole.length = read.length ∨ offset + whole.length ≤ fd.bytes.length + read.length := by
  induction fuel generalizing count offset read fd with
  | zero =>
      cases done
      exact .inl rfl
  | succ fuel ih =>
      simp only [readAtLoop] at done
      split at done
      · cases done
        exact .inl rfl
      · have kept := pread_bytes fd count offset
        split at done
        all_goals
          rename_i called
          rw [called] at kept
          simp only at kept
        · have bound := ih done
          rw [kept] at bound
          exact bound
        · cases done
        · cases done
          exact .inl rfl
        · rename_i chunk next nonempty
          have size := pread_ok called
          have some : 0 < chunk.length := List.length_pos_iff.mpr fun empty => nonempty empty
          have bound := ih done
          rw [kept, List.length_append] at bound
          omega

theorem readAt_bound {fd after : File} {count offset : Nat} {whole : Bytes}
    (done : readAt fd count offset = (some whole, after)) (some : 0 < whole.length) :
    offset + whole.length ≤ fd.bytes.length := by
  have bound := readAtLoop_bound done
  simp only [List.length_nil] at bound
  omega

def StoresNothing : List Outcome → Prop
  | .eintr :: rest => StoresNothing rest
  | .fail :: _ => True
  | .short 0 :: _ => True
  | _ => False

theorem pwrite_end (fd : File) (data : Bytes) :
    fd.pwrite data fd.bytes.length = match fd.faults with
      | [] => (.ok data.length, { fd with bytes := fd.bytes ++ data })
      | .done :: rest =>
          (.ok data.length, { fd with bytes := fd.bytes ++ data, faults := rest })
      | .short count :: rest => (.ok (min count data.length), { fd with
          bytes := fd.bytes ++ data.take (min count data.length)
          faults := rest })
      | .eintr :: rest => (.error .eintr, { fd with faults := rest })
      | .fail :: rest => (.error .other, { fd with faults := rest }) := by
  obtain ⟨bytes, pos, mode, faults⟩ := fd
  rcases faults with _ | ⟨_ | count | _ | _, rest⟩ <;>
    simp [File.pwrite, File.call, Outcome.transfer]

@[simp] theorem writeAtLoop_nil (fuel offset total : Nat) (fd : File) :
    writeAtLoop fuel [] offset total fd = (some total, fd) := by
  cases fuel <;> rfl

structure Stored (fd : File) (data : Bytes) (total stored : Nat) (result : Option Nat × File) :
    Prop where
  within : stored ≤ data.length
  bytes : result.2.bytes = fd.bytes ++ data.take stored
  outcome : result.1 = some (total + stored) ∨ result.1 = none ∧ stored < data.length
  nothing : data ≠ [] → (stored = 0 ↔ StoresNothing fd.faults)

theorem Stored.moved {fd next : File} {data : Bytes} {total moved stored : Nat}
    {result : Option Nat × File} (positive : 0 < moved) (bound : moved ≤ data.length)
    (bytes : next.bytes = fd.bytes ++ data.take moved) (loud : ¬ StoresNothing fd.faults)
    (rest : Stored next (data.drop moved) (total + moved) stored result) :
    Stored fd data total (moved + stored) result := by
  have within := rest.within
  rw [List.length_drop] at within
  refine ⟨by omega, ?_, ?_, ?_⟩
  · rw [rest.bytes, bytes, List.append_assoc, ← List.take_add]
  · rcases rest.outcome with whole | ⟨failed, short⟩
    · exact .inl (by rw [whole, Nat.add_assoc])
    · rw [List.length_drop] at short
      exact .inr ⟨failed, by omega⟩
  · intro _
    exact ⟨fun none => by omega, fun quiet => absurd quiet loud⟩

theorem stored_nil (fuel offset total : Nat) (fd : File) :
    Stored fd [] total 0 (writeAtLoop fuel [] offset total fd) := by
  refine ⟨Nat.le_refl _, by simp, by simp, ?_⟩
  intro some
  exact absurd rfl some

theorem stored_moved {fuel total moved : Nat} {byte : UInt8} {data : Bytes} {fd next : File}
    (call : fd.pwrite (byte :: data) fd.bytes.length = (.ok (moved + 1), next))
    (bound : moved ≤ data.length) (bytes : next.bytes = fd.bytes ++ byte :: data.take moved)
    (loud : ¬ StoresNothing fd.faults)
    (later : ∃ stored, Stored next (data.drop moved) (total + (moved + 1)) stored
      (writeAtLoop fuel (data.drop moved) next.bytes.length (total + (moved + 1)) next)) :
    ∃ stored, Stored fd (byte :: data) total stored
      (writeAtLoop (fuel + 1) (byte :: data) fd.bytes.length total fd) := by
  obtain ⟨stored, kept⟩ := later
  have length : next.bytes.length = fd.bytes.length + (moved + 1) := by
    rw [bytes, List.length_append, List.length_cons, List.length_take, Nat.min_eq_left bound]
  rw [length] at kept
  refine ⟨moved + 1 + stored, Stored.moved (Nat.succ_pos _) ?_ bytes loud ?_⟩
  · simp only [List.length_cons]
    omega
  · simp only [writeAtLoop, List.isEmpty_cons, Bool.false_eq_true, if_false, call]
    exact kept

theorem writeAtLoop_end {fuel total : Nat} {data : Bytes} {fd : File}
    (enough : fd.faults.length < fuel) :
    ∃ stored, Stored fd data total stored (writeAtLoop fuel data fd.bytes.length total fd) := by
  induction fuel generalizing total data fd with
  | zero => omega
  | succ fuel ih =>
      rcases data with _ | ⟨byte, data⟩
      · exact ⟨0, stored_nil _ _ _ _⟩
      · have call := pwrite_end fd (byte :: data)
        have nothingLeft (next : File) : ∃ stored,
            Stored next (data.drop data.length) (total + (data.length + 1)) stored
              (writeAtLoop fuel (data.drop data.length) next.bytes.length
                (total + (data.length + 1)) next) := by
          rw [List.drop_length]
          exact ⟨0, stored_nil _ _ _ _⟩
        cases pending : fd.faults with
        | nil =>
            rw [pending] at call
            exact stored_moved call (Nat.le_refl _) (by simp) (by simp [pending, StoresNothing])
              (nothingLeft _)
        | cons outcome rest =>
            rw [pending] at call enough
            simp only [List.length_cons] at enough
            cases outcome with
            | done =>
                exact stored_moved call (Nat.le_refl _) (by simp) (by simp [pending, StoresNothing])
                  (nothingLeft _)
            | short count =>
                cases count with
                | zero =>
                    simp only [writeAtLoop, List.isEmpty_cons, Bool.false_eq_true, if_false, call,
                      Nat.zero_min]
                    exact ⟨0, Nat.zero_le _, by simp, by simp, by simp [pending, StoresNothing]⟩
                | succ count =>
                    have fewer : min (count + 1) (data.length + 1) = min count data.length + 1 :=
                      Nat.succ_min_succ _ _
                    simp only [List.length_cons, fewer] at call
                    refine stored_moved call (Nat.min_le_right _ _) rfl
                      (by simp [pending, StoresNothing]) (ih ?_)
                    simp only
                    omega
            | eintr =>
                obtain ⟨stored, kept⟩ := @ih total (byte :: data) { fd with faults := rest }
                  (by simp only; omega)
                simp only [writeAtLoop, List.isEmpty_cons, Bool.false_eq_true, if_false, call]
                refine ⟨stored, kept.within, kept.bytes, kept.outcome, ?_⟩
                rw [pending]
                exact kept.nothing
            | fail =>
                simp only [writeAtLoop, List.isEmpty_cons, Bool.false_eq_true, if_false, call]
                refine ⟨0, by simp, by simp, by simp, ?_⟩
                simp [pending, StoresNothing]

theorem writeAt_end (fd : File) (data : Bytes) :
    ∃ stored, Stored fd data 0 stored (writeAt fd data fd.bytes.length) :=
  writeAtLoop_end (Nat.lt_succ_self _)

theorem writeField_end (fd : File) (data : Bytes) :
    ∃ stored, Stored fd data 0 stored (writeField fd data fd.bytes.length) := by
  cases data with
  | nil => exact ⟨0, stored_nil 0 fd.bytes.length 0 fd⟩
  | cons byte rest => exact writeAt_end fd (byte :: rest)

theorem Stored.succeeded {fd : File} {data : Bytes} {stored : Nat} {result : Option Nat × File}
    (kept : Stored fd data 0 stored result) (whole : result.1 = some data.length) :
    stored = data.length ∧ result.2.bytes = fd.bytes ++ data := by
  have all : stored = data.length := by
    rcases kept.outcome with counted | ⟨failed, -⟩
    · rw [whole, Nat.zero_add] at counted
      exact (Option.some.inj counted).symm
    · rw [whole] at failed
      cases failed
  refine ⟨all, ?_⟩
  rw [kept.bytes, all, List.take_length]

theorem Stored.stopped {fd : File} {data : Bytes} {stored : Nat} {result : Option Nat × File}
    (kept : Stored fd data 0 stored result) (short : result.1 ≠ some data.length) :
    stored < data.length := by
  have within := kept.within
  rcases kept.outcome with counted | ⟨-, less⟩
  · rw [Nat.zero_add] at counted
    have different : stored ≠ data.length := by
      intro all
      exact short (by rw [counted, all])
    omega
  · exact less

/-- An entry of which nothing reaches the file: the seek or the first write fails. -/
def WritesNothing : List Outcome → Prop
  | [] => False
  | .done :: rest => StoresNothing rest
  | .short _ :: rest => StoresNothing rest
  | .eintr :: _ => True
  | .fail :: _ => True

theorem seekEnd_cases (fd : File) :
    (∃ next, seekEnd fd = (none, next) ∧ next.bytes = fd.bytes ∧ WritesNothing fd.faults) ∨
      ∃ next, seekEnd fd = (some fd.bytes.length, next) ∧ next.bytes = fd.bytes ∧
        (WritesNothing fd.faults ↔ StoresNothing next.faults) := by
  obtain ⟨bytes, pos, mode, faults⟩ := fd
  cases faults with
  | nil => exact .inr ⟨_, rfl, rfl, Iff.rfl⟩
  | cons outcome rest =>
      cases outcome with
      | done => exact .inr ⟨_, rfl, rfl, Iff.rfl⟩
      | short count => exact .inr ⟨_, rfl, rfl, Iff.rfl⟩
      | eintr => exact .inl ⟨_, rfl, rfl, trivial⟩
      | fail => exact .inl ⟨_, rfl, rfl, trivial⟩

structure EntryStored (wal : Wal) (entry : WalEntry) (stored : Nat)
    (result : Except ErrorCode UInt64 × Wal) : Prop where
  bytes : result.2.fd.bytes = wal.fd.bytes ++ (encodeEntry entry).take stored
  config : result.2.config = wal.config
  sequence : result.2.nextSeq = wal.nextSeq
  outcome :
    (result.1 = .ok entry.seq ∧ stored = (encodeEntry entry).length ∧
      result.2.sizeBytes = wal.sizeBytes + UInt64.ofNat (encodeEntry entry).length ∧
      result.2.entryCount = wal.entryCount + 1) ∨
    (result.1 = .error .internal ∧ stored < (encodeEntry entry).length ∧
      result.2.sizeBytes = wal.sizeBytes ∧ result.2.entryCount = wal.entryCount)
  nothing : stored = 0 ↔ WritesNothing wal.fd.faults

theorem entryStored_failed {wal : Wal} {entry : WalEntry} {stored : Nat} {fd : File}
    (bytes : fd.bytes = wal.fd.bytes ++ (encodeEntry entry).take stored)
    (short : stored < (encodeEntry entry).length)
    (nothing : stored = 0 ↔ WritesNothing wal.fd.faults) :
    EntryStored wal entry stored (.error .internal, { wal with fd := fd }) :=
  ⟨bytes, rfl, rfl, .inr ⟨rfl, short, rfl, rfl⟩, nothing⟩

theorem loud_of_stored {stored : Nat} {faults : List Outcome} (some : 0 < stored)
    (loud : ¬ WritesNothing faults) : stored = 0 ↔ WritesNothing faults :=
  ⟨fun none => by omega, fun quiet => absurd quiet loud⟩

def payloadStep (entry : WalEntry) (wal : Wal) (fd : File) (endOff : Nat) :
    Except ErrorCode UInt64 × Wal :=
  match writeField fd (storedPayload entry)
      (endOff + kEntryHeaderSize + (storedAction entry).length) with
  | (n3, fd) =>
      if n3 ≠ some (storedPayload entry).length then (.error .internal, { wal with fd := fd })
      else
        (.ok entry.seq, { wal with
          fd := fd
          sizeBytes := wal.sizeBytes + UInt64.ofNat
            (kEntryHeaderSize + (storedAction entry).length + (storedPayload entry).length)
          entryCount := wal.entryCount + 1 })

def actionStep (entry : WalEntry) (wal : Wal) (fd : File) (endOff : Nat) :
    Except ErrorCode UInt64 × Wal :=
  match writeField fd (storedAction entry) (endOff + kEntryHeaderSize) with
  | (n2, fd) =>
      if n2 ≠ some (storedAction entry).length then (.error .internal, { wal with fd := fd })
      else payloadStep entry wal fd endOff

theorem writeEntry_steps (wal : Wal) (entry : WalEntry) :
    wal.writeEntry entry =
      match seekEnd wal.fd with
      | (none, fd) => (.error .internal, { wal with fd := fd })
      | (some endOff, fd) =>
          match writeAt fd (entryHeader entry) endOff with
          | (n1, fd) =>
              if n1 ≠ some kEntryHeaderSize then (.error .internal, { wal with fd := fd })
              else actionStep entry wal (readAt fd kEntryHeaderSize endOff).2 endOff := rfl

theorem payloadStep_end {wal : Wal} {entry : WalEntry} {fd : File}
    (bytes : fd.bytes = wal.fd.bytes ++ entryHeader entry ++ storedAction entry)
    (loud : ¬ WritesNothing wal.fd.faults) :
    ∃ stored, EntryStored wal entry stored (payloadStep entry wal fd wal.fd.bytes.length) := by
  have total := encodeEntry_length entry
  have place : fd.bytes.length =
      wal.fd.bytes.length + kEntryHeaderSize + (storedAction entry).length := by
    rw [bytes, List.length_append, List.length_append, entryHeader_length, kEntryHeaderSize]
  obtain ⟨part, payload⟩ := writeField_end fd (storedPayload entry)
  rw [place] at payload
  rw [payloadStep]
  cases written : writeField fd (storedPayload entry)
      (wal.fd.bytes.length + kEntryHeaderSize + (storedAction entry).length) with
  | mk n3 next =>
      rw [written] at payload
      by_cases done : n3 = some (storedPayload entry).length
      · obtain ⟨-, finished⟩ := payload.succeeded done
        rw [bytes] at finished
        simp only [done, ne_eq, not_true_eq_false, if_false]
        refine ⟨(encodeEntry entry).length, ?_, rfl, rfl, .inl ⟨rfl, rfl, ?_, rfl⟩,
          loud_of_stored (by omega) loud⟩
        · rw [List.take_length]
          exact finished.trans (by simp only [encodeEntry, List.append_assoc])
        · rw [total, storedAction_length, storedPayload_length, kEntryHeaderSize]
      · have short := payload.stopped done
        rw [storedPayload_length] at short
        simp only [ne_eq, if_pos done]
        refine ⟨40 + length32 entry.action + part,
          entryStored_failed ?_ (by omega) (loud_of_stored (by omega) loud)⟩
        have cut : (encodeEntry entry).take (40 + length32 entry.action + part) =
            entryHeader entry ++ storedAction entry ++ (storedPayload entry).take part := by
          rw [encodeEntry, ← storedAction_length, ← entryHeader_length entry,
            ← List.length_append, List.take_length_add_append]
        rw [payload.bytes, bytes, cut]
        simp only [List.append_assoc]

theorem actionStep_end {wal : Wal} {entry : WalEntry} {fd : File}
    (bytes : fd.bytes = wal.fd.bytes ++ entryHeader entry)
    (loud : ¬ WritesNothing wal.fd.faults) :
    ∃ stored, EntryStored wal entry stored (actionStep entry wal fd wal.fd.bytes.length) := by
  have total := encodeEntry_length entry
  have place : fd.bytes.length = wal.fd.bytes.length + kEntryHeaderSize := by
    rw [bytes, List.length_append, entryHeader_length, kEntryHeaderSize]
  obtain ⟨part, action⟩ := writeField_end fd (storedAction entry)
  rw [place] at action
  rw [actionStep]
  cases written : writeField fd (storedAction entry)
      (wal.fd.bytes.length + kEntryHeaderSize) with
  | mk n2 next =>
      rw [written] at action
      by_cases done : n2 = some (storedAction entry).length
      · obtain ⟨-, extended⟩ := action.succeeded done
        rw [bytes] at extended
        simp only [done, ne_eq, not_true_eq_false, if_false]
        exact payloadStep_end extended loud
      · have short := action.stopped done
        rw [storedAction_length] at short
        simp only [ne_eq, if_pos done]
        refine ⟨40 + part, entryStored_failed ?_ (by omega) (loud_of_stored (by omega) loud)⟩
        have cut : (encodeEntry entry).take (40 + part) =
            entryHeader entry ++ (storedAction entry).take part := by
          rw [encodeEntry, List.append_assoc, ← entryHeader_length entry,
            List.take_length_add_append, List.take_append_of_le_length]
          rw [storedAction_length]
          omega
        rw [action.bytes, bytes, cut, List.append_assoc]

theorem writeEntry_end (wal : Wal) (entry : WalEntry) :
    ∃ stored, EntryStored wal entry stored (wal.writeEntry entry) := by
  have total := encodeEntry_length entry
  rw [writeEntry_steps]
  rcases seekEnd_cases wal.fd with ⟨next, sought, same, fails⟩ | ⟨next, sought, same, passes⟩
  · simp only [sought]
    exact ⟨0, entryStored_failed (by simp [same]) (by omega) (by simp [fails])⟩
  · obtain ⟨front, header⟩ := writeAt_end next (entryHeader entry)
    rw [same] at header
    simp only [sought]
    have started := header.nothing (by simp [← List.length_pos_iff])
    cases written : writeAt next (entryHeader entry) wal.fd.bytes.length with
    | mk n1 fd =>
        rw [written] at header
        by_cases done : n1 = some kEntryHeaderSize
        · obtain ⟨all, extended⟩ := header.succeeded (by simp [done, kEntryHeaderSize])
          have loud : ¬ WritesNothing wal.fd.faults := by
            rw [passes, ← started, all, entryHeader_length]
            omega
          simp only [done, ne_eq, not_true_eq_false, if_false]
          exact actionStep_end ((readAt_bytes _ _ _).trans (by rw [← same]; exact extended)) loud
        · have short := header.stopped (by simpa [kEntryHeaderSize] using done)
          rw [entryHeader_length] at short
          simp only [ne_eq, if_pos done]
          refine ⟨front, entryStored_failed ?_ (by omega) (by rw [started, passes])⟩
          rw [header.bytes, same, encodeEntry, List.append_assoc, List.take_append_of_le_length]
          rw [entryHeader_length]
          omega

end Udaf
