import Udaf.Wal.Faults

/-!
The loops of the source have no bound of their own; those of the model take one
from the bytes and the pending outcomes of the file. Whatever the outcomes are,
a larger bound changes nothing, so the bound is never what ends a loop.
-/

namespace Udaf

open ByteString Posix

def Spent (fd next : File) : Prop := ∃ count, next = { fd with faults := fd.faults.drop count }

theorem Spent.refl (fd : File) : Spent fd fd := ⟨0, rfl⟩

theorem Spent.trans {fd next last : File} (first : Spent fd next) (second : Spent next last) :
    Spent fd last := by
  obtain ⟨count, rfl⟩ := first
  obtain ⟨more, rfl⟩ := second
  exact ⟨count + more, by simp⟩

theorem Spent.bytes {fd next : File} (spent : Spent fd next) : next.bytes = fd.bytes := by
  obtain ⟨count, rfl⟩ := spent
  rfl

theorem Spent.pos {fd next : File} (spent : Spent fd next) : next.pos = fd.pos := by
  obtain ⟨count, rfl⟩ := spent
  rfl

theorem Spent.faults {fd next : File} (spent : Spent fd next) :
    next.faults.length ≤ fd.faults.length := by
  obtain ⟨count, rfl⟩ := spent
  simp only [List.length_drop]
  omega

theorem call_spent (fd : File) (wanted : Nat) :
    (fd.call wanted).2 = { fd with faults := fd.faults.drop 1 } := by
  simp only [File.call]
  cases pending : fd.faults with
  | nil =>
      obtain ⟨bytes, pos, appendMode, faults⟩ := fd
      simp only at pending
      simp [pending]
  | cons outcome rest => rfl

theorem lseekCur_spent {fd next : File} {result : Option Nat}
    (called : fd.lseekCur = (result, next)) :
    next = { fd with faults := fd.faults.drop 1 } ∧ ∀ cur ∈ result, cur = fd.pos := by
  have spent := call_spent fd 0
  simp only [File.lseekCur] at called
  split at called
  all_goals
    rename_i answered
    rw [answered] at spent
    cases called
  · refine ⟨spent, ?_⟩
    intro cur given
    cases given
    rw [show next = _ from spent]
  · exact ⟨spent, by simp⟩

theorem fstat_spent {fd next : File} {result : Option Nat}
    (called : fd.fstat = (result, next)) :
    next = { fd with faults := fd.faults.drop 1 } ∧ ∀ size ∈ result, size = fd.bytes.length := by
  have spent := call_spent fd 0
  simp only [File.fstat] at called
  split at called
  all_goals
    rename_i answered
    rw [answered] at spent
    cases called
  · refine ⟨spent, ?_⟩
    intro size given
    cases given
    rw [show next = _ from spent]
  · exact ⟨spent, by simp⟩

theorem lseekSet_spent {fd next : File} {offset : Nat} {result : Option Nat}
    (called : fd.lseekSet offset = (result, next)) :
    next = { fd with faults := fd.faults.drop 1, pos := next.pos } ∧
      (next.pos = offset ∨ next.pos = fd.pos ∧ result = none ∧ fd.faults ≠ []) := by
  have spent := call_spent fd 0
  simp only [File.lseekSet] at called
  split at called
  · rename_i moved after answered
    rw [answered] at spent
    cases called
    exact ⟨by rw [show after = _ from spent], .inl rfl⟩
  · rename_i errno after answered
    rw [answered] at spent
    cases called
    refine ⟨by rw [show next = _ from spent], .inr ⟨by rw [show next = _ from spent], rfl, ?_⟩⟩
    intro quiet
    simp [File.call, quiet] at answered

theorem pread_spent {fd next : File} {count offset : Nat} {result : Except Errno Bytes}
    (called : fd.pread count offset = (result, next)) :
    next = { fd with faults := fd.faults.drop 1 } := by
  have spent := call_spent fd count
  simp only [File.pread] at called
  split at called
  all_goals
    rename_i answered
    rw [answered] at spent
    cases called
    exact spent

theorem readAtLoop_spent (fuel count offset : Nat) (read : Bytes) (fd : File) :
    Spent fd (readAtLoop fuel count offset read fd).2 := by
  induction fuel generalizing count offset read fd with
  | zero => exact Spent.refl fd
  | succ fuel ih =>
      simp only [readAtLoop]
      split
      · exact Spent.refl fd
      · split
        all_goals
          rename_i called
          have spent : Spent fd _ := ⟨1, pread_spent called⟩
        · exact spent.trans (ih _ _ _ _)
        · exact spent
        · exact spent
        · exact spent.trans (ih _ _ _ _)

theorem readAt_spent {fd next : File} {count offset : Nat} {result : Option Bytes}
    (called : readAt fd count offset = (result, next)) : Spent fd next := by
  have spent := readAtLoop_spent (fd.faults.length + 2) count offset [] fd
  rw [readAt] at called
  rwa [called] at spent

theorem readExact_spent {fd next : File} {size offset : Nat} {result : Option Bytes}
    (called : readExact fd size offset = (result, next)) : Spent fd next := by
  simp only [readExact] at called
  split at called
  · cases called
    exact Spent.refl fd
  · split at called
    all_goals
      rename_i answered
      cases called
      exact readAt_spent answered

theorem readEntry_advances {fd after : File} {entry : WalEntry}
    (done : readEntry fd = (.ok entry, after)) :
    after.bytes = fd.bytes ∧ after.faults.length ≤ fd.faults.length ∧ fd.pos ≤ after.pos ∧
      (fd.faults = [] → fd.pos < after.pos) := by
  simp only [readEntry] at done
  split at done
  · cases done
  rename_i cur fd1 positioned
  split at done
  · cases done
  split at done
  · cases done
  rename_i moved fd2 sought
  split at done
  · cases done
  rename_i header fd3 headerRead
  split at done
  · cases done
  split at done
  · cases done
  split at done
  · cases done
  split at done
  · cases done
  rename_i action fd4 actionRead
  split at done
  · cases done
  rename_i payload fd5 payloadRead
  split at done
  · cases done
  cases done
  obtain ⟨first, place⟩ := lseekCur_spent positioned
  have here := place cur rfl
  have spent1 : Spent fd fd1 := ⟨1, first⟩
  obtain ⟨second, target⟩ := lseekSet_spent sought
  have spent2 : Spent fd fd2 := by
    have stays : fd2.pos = fd1.pos := by
      rcases target with moved | ⟨kept, -⟩
      · rw [moved, here, spent1.pos]
      · exact kept
    rw [stays] at second
    exact spent1.trans ⟨1, second⟩
  have spent5 := ((spent2.trans (readAt_spent headerRead)).trans (readExact_spent actionRead)).trans
    (readExact_spent payloadRead)
  obtain ⟨last, goal⟩ := @lseekSet_spent fd5 _ _ _ (Prod.eta (fd5.lseekSet _)).symm
  refine ⟨?_, ?_, ?_, ?_⟩
  · rw [last]
    exact spent5.bytes
  · have fewer := spent5.faults
    rw [last]
    simp only [List.length_drop]
    omega
  · rcases goal with moved | ⟨kept, -⟩
    · rw [moved]
      omega
    · rw [kept, spent5.pos]
  · intro quiet
    rcases goal with moved | ⟨-, -, pending⟩
    · rw [moved, kEntryHeaderSize]
      omega
    · have fewer := spent5.faults
      rw [quiet, List.length_nil, Nat.le_zero, List.length_eq_zero_iff] at fewer
      exact absurd fewer pending

theorem readEntries_round {fd fd1 fd2 fd3 : File} {cur : Option Nat} {size : Nat} {entry : WalEntry}
    (positioned : fd.lseekCur = (cur, fd1)) (asked : fd1.fstat = (some size, fd2))
    (inside : ¬ cur.any (size ≤ ·)) (done : readEntry fd2 = (.ok entry, fd3)) :
    fd3.faults.length + (fd3.bytes.length - fd3.pos) <
      fd.faults.length + (fd.bytes.length - fd.pos) := by
  obtain ⟨first, -⟩ := lseekCur_spent positioned
  obtain ⟨second, total⟩ := fstat_spent asked
  obtain ⟨bytes, faults, forward, further⟩ := readEntry_advances done
  subst second first
  simp only [List.drop_drop, List.length_drop] at faults further bytes
  simp only at forward
  rw [bytes]
  cases pending : fd.faults with
  | cons outcome rest =>
      rw [pending, List.length_cons] at faults
      rw [List.length_cons]
      omega
  | nil =>
      have cursor : cur = some fd.pos := by
        rw [lseekCur_quiet pending] at positioned
        exact (Prod.mk.inj positioned).1.symm
      have moved := further (by simp [pending])
      have whole := total size rfl
      simp only [cursor, Option.any_some, decide_eq_true_eq] at inside whole
      rw [pending] at faults
      simp only [List.length_nil] at faults ⊢
      omega

def readEntriesWithin {σ : Type} (visit : σ → WalEntry → σ × Bool) :
    Nat → σ → File → Option ((Except ErrorCode Unit × σ) × File)
  | 0, _, _ => none
  | fuel + 1, acc, fd =>
      match fd.lseekCur with
      | (cur, fd) =>
          match fd.fstat with
          | (none, fd) => some ((.error .internal, acc), fd)
          | (some size, fd) =>
              if cur.any (size ≤ ·) then some ((.ok (), acc), fd)
              else
                match readEntry fd with
                | (.error code, fd) => some ((.error code, acc), fd)
                | (.ok entry, fd) =>
                    match visit acc entry with
                    | (acc, true) => readEntriesWithin visit fuel acc fd
                    | (acc, false) => some ((.ok (), acc), fd)

theorem readEntries_within {σ : Type} (visit : σ → WalEntry → σ × Bool) {fuel : Nat} (more : Nat)
    (acc : σ) {fd : File} (enough : fd.faults.length + (fd.bytes.length - fd.pos) < fuel) :
    readEntriesWithin visit fuel acc fd = some (readEntries visit (fuel + more) acc fd) := by
  induction fuel generalizing acc fd with
  | zero => omega
  | succ fuel ih =>
      rw [Nat.succ_add]
      simp only [readEntriesWithin, readEntries]
      cases positioned : fd.lseekCur with
      | mk cur fd1 =>
          simp only
          cases asked : fd1.fstat with
          | mk answer fd2 =>
              cases answer with
              | none => rfl
              | some size =>
                  simp only
                  by_cases inside : cur.any (size ≤ ·)
                  · rw [if_pos inside, if_pos inside]
                  · rw [if_neg inside, if_neg inside]
                    cases done : readEntry fd2 with
                    | mk result fd3 =>
                        cases result with
                        | error code => rfl
                        | ok entry =>
                            have less := readEntries_round positioned asked inside done
                            cases visited : visit acc entry with
                            | mk next goOn =>
                                cases goOn with
                                | true =>
                                    simp only [visited]
                                    exact ih next (by omega)
                                | false => simp only [visited]

theorem readEntries_fuel {σ : Type} (visit : σ → WalEntry → σ × Bool) {fuel more : Nat} (acc : σ)
    {fd : File} (enough : fd.faults.length + (fd.bytes.length - fd.pos) < fuel)
    (larger : fuel ≤ more) : readEntries visit more acc fd = readEntries visit fuel acc fd := by
  obtain ⟨extra, rfl⟩ := Nat.exists_eq_add_of_le larger
  have longer := readEntries_within visit extra acc enough
  rw [readEntries_within visit 0 acc enough] at longer
  exact (Option.some.inj longer).symm

theorem loopBound_within {σ : Type} (visit : σ → WalEntry → σ × Bool) (acc : σ) (fd : File) :
    readEntriesWithin visit (loopBound fd) acc fd = some (readEntries visit (loopBound fd) acc fd) := by
  refine readEntries_within visit 0 acc ?_
  rw [loopBound]
  omega

theorem loopBound_enough {σ : Type} (visit : σ → WalEntry → σ × Bool) (acc : σ) (fd : File)
    {more : Nat} (larger : loopBound fd ≤ more) :
    readEntries visit more acc fd = readEntries visit (loopBound fd) acc fd := by
  refine readEntries_fuel visit acc ?_ larger
  rw [loopBound]
  omega

def scanWithin : Nat → UInt64 → UInt64 → File → Option ((UInt64 × UInt64) × File)
  | 0, _, _, _ => none
  | fuel + 1, maxSeq, count, fd =>
      match fd.lseekCur with
      | (none, fd) => some ((maxSeq, count), fd.fstat.2)
      | (some cur, fd) =>
          match fd.fstat with
          | (none, fd) => some ((maxSeq, count), fd)
          | (some size, fd) =>
              if size ≤ cur then some ((maxSeq, count), fd)
              else
                match readAt fd kEntryHeaderSize cur with
                | (none, fd) => some ((maxSeq, count), fd)
                | (some header, fd) =>
                    if header.length < kEntryHeaderSize then some ((maxSeq, count), fd)
                    else if field header 0 4 ≠ kFileMagic.toNat ∨
                        field header 4 4 ≠ kSchemaVersion.toNat then some ((maxSeq, count), fd)
                    else
                      let seq := UInt64.ofNat (field header 8 8)
                      let maxSeq := if maxSeq < seq then seq else maxSeq
                      let next := cur + (kEntryHeaderSize + field header 25 4 + field header 29 4)
                      match fd.lseekSet next with
                      | (none, fd) => some ((maxSeq, count + 1), fd)
                      | (some _, fd) => scanWithin fuel maxSeq (count + 1) fd

theorem scanLoop_round {fd fd1 fd2 fd3 fd4 : File} {cur size next moved : Nat} {header : Bytes}
    (positioned : fd.lseekCur = (some cur, fd1)) (asked : fd1.fstat = (some size, fd2))
    (inside : ¬ size ≤ cur) (headerRead : readAt fd2 kEntryHeaderSize cur = (some header, fd3))
    (further : cur < next) (sought : fd3.lseekSet next = (some moved, fd4)) :
    fd4.bytes.length - fd4.pos < fd.bytes.length - fd.pos := by
  obtain ⟨first, place⟩ := lseekCur_spent positioned
  obtain ⟨second, total⟩ := fstat_spent asked
  obtain ⟨third, target⟩ := lseekSet_spent sought
  have read := readAt_spent headerRead
  have bytes : fd4.bytes = fd.bytes := by
    rw [third, show _ = _ from read.bytes, second, first]
  have here := place cur rfl
  have whole := total size rfl
  rw [first] at whole
  simp only at whole
  rcases target with there | ⟨-, failed, -⟩
  · rw [bytes, there]
    omega
  · cases failed

theorem scanLoop_within {fuel : Nat} (more : Nat) (maxSeq count : UInt64) {fd : File}
    (enough : fd.bytes.length - fd.pos < fuel) :
    scanWithin fuel maxSeq count fd = some (scanLoop (fuel + more) maxSeq count fd) := by
  induction fuel generalizing maxSeq count fd with
  | zero => omega
  | succ fuel ih =>
      rw [Nat.succ_add]
      simp only [scanWithin, scanLoop]
      cases positioned : fd.lseekCur with
      | mk position fd1 =>
          cases position with
          | none => rfl
          | some cur =>
              simp only
              cases asked : fd1.fstat with
              | mk answer fd2 =>
                  cases answer with
                  | none => rfl
                  | some size =>
                      simp only
                      by_cases past : size ≤ cur
                      · rw [if_pos past, if_pos past]
                      · rw [if_neg past, if_neg past]
                        cases headerRead : readAt fd2 kEntryHeaderSize cur with
                        | mk found fd3 =>
                            cases found with
                            | none => rfl
                            | some header =>
                                simp only
                                by_cases short : header.length < kEntryHeaderSize
                                · rw [if_pos short, if_pos short]
                                · rw [if_neg short, if_neg short]
                                  by_cases foreign : field header 0 4 ≠ kFileMagic.toNat ∨
                                      field header 4 4 ≠ kSchemaVersion.toNat
                                  · rw [if_pos foreign, if_pos foreign]
                                  · rw [if_neg foreign, if_neg foreign]
                                    cases sought : fd3.lseekSet (cur + (kEntryHeaderSize +
                                        field header 25 4 + field header 29 4)) with
                                    | mk goal fd4 =>
                                        cases goal with
                                        | none => rfl
                                        | some moved =>
                                            have less := scanLoop_round positioned asked past
                                              headerRead (by rw [kEntryHeaderSize]; omega) sought
                                            exact ih _ _ (by omega)

theorem scanLoop_fuel {fuel more : Nat} (maxSeq count : UInt64) {fd : File}
    (enough : fd.bytes.length - fd.pos < fuel) (larger : fuel ≤ more) :
    scanLoop more maxSeq count fd = scanLoop fuel maxSeq count fd := by
  obtain ⟨extra, rfl⟩ := Nat.exists_eq_add_of_le larger
  have longer := scanLoop_within extra maxSeq count enough
  rw [scanLoop_within 0 maxSeq count enough] at longer
  exact (Option.some.inj longer).symm

theorem pwrite_spent {fd next : File} {data : Bytes} {offset : Nat} {result : Except Errno Nat}
    (called : fd.pwrite data offset = (result, next)) :
    next.faults = fd.faults.drop 1 ∧ (fd.faults = [] → result = .ok data.length) := by
  have spent := congrArg File.faults (call_spent fd data.length)
  simp only [File.pwrite] at called
  split at called
  · rename_i moved after answered
    rw [answered] at spent
    cases called
    refine ⟨spent, ?_⟩
    intro quiet
    simp only [File.call, quiet] at answered
    cases answered
    rfl
  · rename_i errno after answered
    rw [answered] at spent
    cases called
    refine ⟨spent, ?_⟩
    intro quiet
    simp [File.call, quiet] at answered

theorem writeAtLoop_fuel {fuel more : Nat} (data : Bytes) (offset total : Nat) {fd : File}
    (enough : fd.faults.length < fuel) (larger : fuel ≤ more) :
    writeAtLoop more data offset total fd = writeAtLoop fuel data offset total fd := by
  induction fuel generalizing more data offset total fd with
  | zero => omega
  | succ fuel ih =>
      obtain ⟨more, rfl⟩ := Nat.exists_eq_add_of_le larger
      rw [Nat.succ_add] at larger ⊢
      simp only [writeAtLoop]
      split
      · rfl
      split
      all_goals
        rename_i called
        obtain ⟨left, whole⟩ := pwrite_spent called
      · have pending : fd.faults ≠ [] := fun quiet => by cases whole quiet
        have some := List.length_pos_iff.mpr pending
        have fewer := congrArg List.length left
        rw [List.length_drop] at fewer
        exact ih _ _ _ (by omega) (by omega)
      · rfl
      · rfl
      · by_cases quiet : fd.faults = []
        · rw [Except.ok.inj (whole quiet), List.drop_length, writeAtLoop_nil, writeAtLoop_nil]
        · have some := List.length_pos_iff.mpr quiet
          have fewer := congrArg List.length left
          rw [List.length_drop] at fewer
          exact ih _ _ _ (by omega) (by omega)

theorem pread_quiet {fd : File} (quiet : fd.faults = []) (count offset : Nat) :
    fd.pread count offset = (.ok ((fd.bytes.drop offset).take count), fd) := by
  simp [File.pread, call_quiet quiet]

theorem readAtLoop_past {fd : File} (quiet : fd.faults = []) {count offset : Nat}
    (past : count = 0 ∨ fd.bytes.length ≤ offset) (fuel : Nat) (read : Bytes) :
    readAtLoop fuel count offset read fd = (some read, fd) := by
  cases fuel with
  | zero => rfl
  | succ fuel =>
      rw [readAtLoop]
      rcases past with none | behind
      · rw [if_pos none]
      · split
        · rfl
        · rw [pread_quiet quiet, List.drop_eq_nil_of_le behind, List.take_nil]

theorem readAtLoop_fuel {fuel more : Nat} (count offset : Nat) (read : Bytes) {fd : File}
    (enough : fd.faults.length < fuel) (larger : fuel ≤ more) :
    readAtLoop more count offset read fd = readAtLoop fuel count offset read fd := by
  induction fuel generalizing more count offset read fd with
  | zero => omega
  | succ fuel ih =>
      obtain ⟨more, rfl⟩ := Nat.exists_eq_add_of_le larger
      rw [Nat.succ_add] at larger ⊢
      simp only [readAtLoop]
      split
      · rfl
      by_cases quiet : fd.faults = []
      · rw [pread_quiet quiet]
        cases chunk : (fd.bytes.drop offset).take count with
        | nil => rfl
        | cons byte rest =>
            have past : count - (byte :: rest).length = 0 ∨
                fd.bytes.length ≤ offset + (byte :: rest).length := by
              rw [← chunk, List.length_take, List.length_drop]
              omega
            simp only
            rw [readAtLoop_past quiet past, readAtLoop_past quiet past]
      · have some := List.length_pos_iff.mpr quiet
        split
        all_goals
          rename_i called
          have fewer := congrArg (fun file : File => file.faults.length) (pread_spent called)
          simp only [List.length_drop] at fewer
        · exact ih _ _ _ (by omega) (by omega)
        · rfl
        · rfl
        · exact ih _ _ _ (by omega) (by omega)

theorem ftruncateLoop_fuel {fuel more length : Nat} {fd : File}
    (enough : fd.faults.length < fuel) (larger : fuel ≤ more) :
    ftruncateLoop more length fd = ftruncateLoop fuel length fd := by
  induction fuel generalizing more fd with
  | zero => omega
  | succ fuel ih =>
      obtain ⟨more, rfl⟩ := Nat.exists_eq_add_of_le larger
      rw [Nat.succ_add] at larger ⊢
      simp only [ftruncateLoop, File.ftruncate, File.call]
      cases pending : fd.faults with
      | nil => rfl
      | cons outcome rest =>
          rw [pending, List.length_cons] at enough
          cases outcome with
          | done => rfl
          | short count => rfl
          | eintr => exact ih (by simp only; omega) (by omega)
          | fail => rfl

theorem openLoop_fuel {fuel more : Nat} {create : Bool} {disk : Disk}
    (enough : disk.faults.length < fuel) (larger : fuel ≤ more) :
    openLoop more create disk = openLoop fuel create disk := by
  induction fuel generalizing more disk with
  | zero => omega
  | succ fuel ih =>
      obtain ⟨more, rfl⟩ := Nat.exists_eq_add_of_le larger
      rw [Nat.succ_add] at larger ⊢
      obtain ⟨bytes, appendMode, faults⟩ := disk
      simp only [openLoop, Disk.openFile]
      cases faults with
      | nil => cases bytes <;> cases create <;> rfl
      | cons outcome rest =>
          rw [List.length_cons] at enough
          cases outcome with
          | done => cases bytes <;> cases create <;> rfl
          | short count => cases bytes <;> cases create <;> rfl
          | eintr => exact ih (by simp only; omega) (by omega)
          | fail => rfl

end Udaf
