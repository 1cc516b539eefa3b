import Udaf.Wal.Faults

/-!
An append that fails. The sequence counter is rolled back, the file is not: what
the failed writes stored stays at its end.
-/

namespace Udaf

open ByteString Posix FrameLog Runs

def Wal.facing (faults : List Outcome) (wal : Wal) : Wal :=
  { wal with fd := { wal.fd with faults := faults } }

def Wal.settled (wal : Wal) : Wal := wal.facing []

/-- `after` is `wal` as if the failed append had not been called. -/
structure AppendUndone (wal after : Wal) : Prop where
  sequence : after.currentSequence = wal.currentSequence
  count : after.entryCount = wal.entryCount
  size : after.sizeBytes.toNat = after.fd.bytes.length
  replay : after.replay.1 = wal.replay.1
  later : ∀ events final, Run WalStep after events final →
    (∀ event ∈ events, event.Acknowledged) →
      ∃ entries, wal.replay.1 = .ok entries ∧ final.replay.1 = .ok (entries ++ logOf events)

theorem Holds.replays {wal : Wal} {log : List WalEntry} (holds : Holds wal log) :
    wal.replay.1 = .ok log := by
  obtain ⟨pos, replayed⟩ := replay_holds holds
  rw [replayed]

theorem Holds.settled {wal after : Wal} {log : List WalEntry} (holds : Holds wal log)
    (bytes : after.fd.bytes = wal.fd.bytes) (size : after.sizeBytes = wal.sizeBytes)
    (count : after.entryCount = wal.entryCount) : Holds after.settled log := by
  refine ⟨rfl, bytes.trans holds.bytes, holds.storable, ?_, ?_, ?_⟩
  all_goals simp only [Wal.settled, Wal.facing, bytes, size, count]
  · exact holds.size
  · exact holds.count
  · exact holds.offsets

theorem undone_of_same {wal after : Wal} {log : List WalEntry} (holds : Holds wal log)
    (bytes : after.fd.bytes = wal.fd.bytes) (sequence : after.nextSeq = wal.nextSeq)
    (size : after.sizeBytes = wal.sizeBytes) (count : after.entryCount = wal.entryCount) :
    AppendUndone wal after.settled := by
  have held := holds.settled bytes size count
  refine ⟨sequence, count, held.size, by rw [held.replays, holds.replays], ?_⟩
  intro events final run acknowledged
  have kept := run_holds run held
  rw [acknowledged_log acknowledged] at kept
  exact ⟨log, holds.replays, kept.replays⟩

/-- What a failed append leaves behind, limits apart. -/
theorem append_failing {wal : Wal} {timestamp : Int64} {type : WalEntryType}
    {action payload : Bytes} (accepted : ¬ wal.Refuses action payload) {code : ErrorCode}
    (failed : (wal.append timestamp type action payload).1 = .error code) :
    ∃ stored, stored < (encodeEntry (wal.nextEntry timestamp type action payload)).length ∧
      (wal.append timestamp type action payload).2.fd.bytes = wal.fd.bytes ++
        (encodeEntry (wal.nextEntry timestamp type action payload)).take stored ∧
      (wal.append timestamp type action payload).2.nextSeq = wal.nextSeq ∧
      (wal.append timestamp type action payload).2.sizeBytes = wal.sizeBytes ∧
      (wal.append timestamp type action payload).2.entryCount = wal.entryCount ∧
      (stored = 0 ↔ WritesNothing wal.fd.faults) := by
  obtain ⟨stored, kept⟩ := writeEntry_end { wal with nextSeq := wal.nextSeq + 1 }
    (wal.nextEntry timestamp type action payload)
  cases written : Wal.writeEntry (wal.nextEntry timestamp type action payload)
      { wal with nextSeq := wal.nextSeq + 1 } with
  | mk result after =>
      rw [written] at kept
      have unfolded := written
      simp only [Wal.nextEntry] at unfolded
      cases result with
      | ok seq =>
          simp [Wal.append, if_neg (fun full => accepted (.inl full)),
            if_neg (fun large => accepted (.inr large)), unfolded] at failed
      | error reason =>
          have appended : wal.append timestamp type action payload =
              (.error reason, { after with nextSeq := after.nextSeq - 1 }) := by
            simp only [Wal.append, if_neg (fun full => accepted (.inl full)),
              if_neg (fun large => accepted (.inr large)), unfolded]
          rw [appended]
          rcases kept.outcome with ⟨succeeded, -⟩ | ⟨-, short, size, count⟩
          · cases succeeded
          · have restored : after.nextSeq - 1 = wal.nextSeq := by
              rw [show after.nextSeq = wal.nextSeq + 1 from kept.sequence]
              simp
            exact ⟨stored, short, kept.bytes, restored, size, count, kept.nothing⟩

/-- A failed append is undone exactly when it failed before it stored anything. -/
theorem append_undone_iff {events : List WalEvent} {wal : Wal}
    (reached : Reached WalStep events wal) (faults : List Outcome) {timestamp : Int64}
    {type : WalEntryType} {action payload : Bytes} {code : ErrorCode}
    (failed : ((wal.facing faults).append timestamp type action payload).1 = .error code) :
    AppendUndone wal ((wal.facing faults).append timestamp type action payload).2.settled ↔
      wal.Refuses action payload ∨ WritesNothing faults := by
  have holds := reached.holds
  by_cases refused : wal.Refuses action payload
  · have same := @append_refused (wal.facing faults) action payload refused timestamp type
    rw [same]
    exact ⟨fun _ => .inl refused, fun _ => undone_of_same holds rfl rfl rfl rfl⟩
  · obtain ⟨stored, short, bytes, sequence, size, count, nothing⟩ :=
      @append_failing (wal.facing faults) timestamp type action payload refused code failed
    constructor
    · intro undone
      refine .inr (nothing.mp ?_)
      have total := undone.size
      simp only [Wal.settled, Wal.facing] at total size bytes
      have before := holds.size
      rw [size, bytes, List.length_append, List.length_take] at total
      simp only [Wal.facing] at short
      omega
    · rintro (limit | quiet)
      · exact absurd limit refused
      · rw [nothing.mpr quiet, List.take_zero, List.append_nil] at bytes
        exact undone_of_same holds bytes sequence size count

theorem append_undone_seek : AppendUndone oneEntryWal
    ((oneEntryWal.facing [.fail]).append 7 .custom [1, 2] [3]).2.settled := by
  have failed : ((oneEntryWal.facing [.fail]).append 7 .custom [1, 2] [3]).1 = .error .internal := rfl
  exact (append_undone_iff oneEntry_reached [.fail] failed).mpr (.inr trivial)

def halfHeader : List Outcome := [.done, .short 10, .short 0]

theorem append_not_undone :
    ¬ ∀ {events : List WalEvent} {wal : Wal}, Reached WalStep events wal →
      ∀ {faults timestamp type action payload code},
        ((wal.facing faults).append timestamp type action payload).1 = .error code →
          AppendUndone wal ((wal.facing faults).append timestamp type action payload).2.settled := by
  intro undone
  have failed : (((freshWal plainConfig true).facing halfHeader).append 0 .custom [] []).1 =
      .error .internal := by
    rfl
  have size := (undone (freshWal_reached plainConfig true) failed).size
  exact absurd size (by decide +kernel)

end Udaf
