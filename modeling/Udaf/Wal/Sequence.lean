import Udaf.Lib.Numbering
import Udaf.Wal.History

/-!
Sequence numbers over whole runs. The counter lives in memory only: `create`
rebuilds it from the entries left in the file, so it survives every reopening
but that of a log from which everything was cut.
-/

namespace Udaf

open ByteString Posix FrameLog Runs Numbering

def seqOf (entry : WalEntry) : Nat := entry.seq.toNat

theorem keeps_eq (keepSequence : UInt64) :
    keeps keepSequence = fun entry => decide (keepSequence.toNat ≤ seqOf entry) := by
  funext entry
  simp only [keeps, seqOf]
  exact decide_eq_decide.mpr UInt64.le_iff_toNat_le

theorem laterSeq_eq {maxSeq : UInt64} {entry : WalEntry} (most : maxSeq.toNat ≤ seqOf entry) :
    laterSeq maxSeq entry = entry.seq := by
  simp only [laterSeq, UInt64.lt_iff_toNat_lt]
  split
  · rfl
  · apply UInt64.toNat_inj.mp
    simp only [seqOf] at most
    omega

theorem maxSeqOf_ordered {log : List WalEntry} {next : Nat} (numbered : Numbered seqOf log next) :
    (maxSeqOf log).toNat + 1 = follow seqOf log := by
  rcases List.eq_nil_or_concat log with empty | ⟨front, last, split⟩
  · simp [empty, maxSeqOf, follow]
  · rw [List.concat_eq_append] at split
    have reach : ∀ entry ∈ front, seqOf entry ≤ seqOf last := by
      intro entry member
      have final : last ∈ log.getLast? := by simp [split]
      exact numbered.le_last (by simp [split, member]) final
    have most : (maxSeqOf front).toNat ≤ seqOf last := by
      clear split numbered
      have start : (0 : UInt64).toNat ≤ seqOf last := Nat.zero_le _
      rw [maxSeqOf]
      generalize (0 : UInt64) = maxSeq at start
      induction front generalizing maxSeq with
      | nil => exact start
      | cons first rest ih =>
          have bound := reach first (by simp)
          refine ih (fun entry member => reach entry (by simp [member])) _ ?_
          simp only [laterSeq]
          split
          · exact bound
          · exact start
    rw [split, maxSeqOf, List.foldl_append, ← maxSeqOf]
    simp [laterSeq_eq most, follow, seqOf]

theorem seqAfter_follow {log : List WalEntry} {next : Nat} (numbered : Numbered seqOf log next)
    (bound : next < 2 ^ 64) : (seqAfter (maxSeqOf log)).toNat = follow seqOf log := by
  have counted := maxSeqOf_ordered numbered
  have fits : follow seqOf log < 2 ^ 64 := by
    by_cases kept : log = []
    · simp [kept, follow]
    · rw [numbered.follow_eq kept]
      exact bound
  have sum : (maxSeqOf log + 1).toNat = follow seqOf log := by
    rw [UInt64.toNat_add, show (1 : UInt64).toNat = 1 from rfl, counted]
    exact Nat.mod_eq_of_lt fits
  have positive : maxSeqOf log + 1 ≠ 0 := by
    intro zero
    rw [zero, show (0 : UInt64).toNat = 0 from rfl] at sum
    omega
  rw [seqAfter, if_neg positive, sum]

def WalEvent.taken : WalEvent → Option UInt64
  | ⟨_, .appended (.ok seq)⟩ => some seq
  | _ => none

structure CountedStep (wal : Wal) (event : WalEvent) (next : Wal) : Prop
    extends WalStep wal event next where
  room : ∀ seq ∈ event.taken, seq.toNat < 2 ^ 64 - 1

theorem run_of_room {wal final : Wal} {events : List WalEvent} (run : Run WalStep wal events final)
    (room : ∀ seq ∈ events.filterMap WalEvent.taken, seq.toNat < 2 ^ 64 - 1) :
    Run CountedStep wal events final := by
  induction run with
  | nil => exact .nil
  | @cons wal next final event events step _ ih =>
      refine .cons ⟨step, ?_⟩ (ih ?_)
      · intro seq taken
        exact room seq (List.mem_filterMap.mpr ⟨event, by simp, taken⟩)
      · intro seq member
        obtain ⟨other, later, taken⟩ := List.mem_filterMap.mp member
        exact room seq (List.mem_filterMap.mpr ⟨other, by simp [later], taken⟩)

theorem succ_toNat {seq : UInt64} (room : seq.toNat < 2 ^ 64 - 1) :
    (seq + 1).toNat = seq.toNat + 1 := by
  rw [UInt64.toNat_add, show (1 : UInt64).toNat = 1 from rfl]
  omega

theorem Effect.numbered {wal next : Wal} {log : List WalEntry} {event : WalEvent}
    (effect : Effect wal log event next) (room : ∀ seq ∈ event.taken, seq.toNat < 2 ^ 64 - 1)
    (numbered : Numbered seqOf log wal.nextSeq.toNat) :
    Numbered seqOf (logAfter log event) next.nextSeq.toNat := by
  cases effect with
  | refused _ => exact numbered
  | accepted _ sequence _ =>
      rw [sequence, succ_toNat (room wal.nextSeq rfl)]
      exact numbered.push rfl
  | truncate sequence _ =>
      rw [sequence, logAfter, keeps_eq]
      exact numbered.keepFrom _
  | truncateAll sequence _ => exact numbered_nil _
  | replay sequence _ =>
      rw [sequence]
      exact numbered
  | replayStream _ sequence _ =>
      rw [sequence]
      exact numbered
  | fsync => exact numbered
  | reopen sequence _ =>
      rw [sequence, seqAfter_follow numbered (UInt64.toNat_lt _)]
      exact numbered.reload

structure Counted (wal : Wal) (log : List WalEntry) : Prop extends Holds wal log where
  numbered : Numbered seqOf log wal.nextSeq.toNat
  positive : 0 < wal.nextSeq.toNat

theorem Effect.positive {wal next : Wal} {log : List WalEntry} {event : WalEvent}
    (effect : Effect wal log event next) (room : ∀ seq ∈ event.taken, seq.toNat < 2 ^ 64 - 1)
    (counted : Counted wal log) : 0 < next.nextSeq.toNat := by
  have before := counted.positive
  cases effect with
  | refused _ => exact before
  | accepted _ sequence _ =>
      rw [sequence, succ_toNat (room wal.nextSeq rfl)]
      omega
  | truncate sequence _ | truncateAll sequence _ | replay sequence _
    | replayStream _ sequence _ =>
      rw [sequence]
      exact before
  | fsync => exact before
  | reopen sequence _ =>
      rw [sequence, seqAfter_follow counted.numbered (UInt64.toNat_lt _), follow]
      omega

theorem counted_step {wal next : Wal} {log : List WalEntry} {event : WalEvent}
    (counted : Counted wal log) (step : CountedStep wal event next) :
    Effect wal log event next ∧ Counted next (logAfter log event) := by
  obtain ⟨effect, holds⟩ := step_effect counted.toHolds step.toWalStep
  exact ⟨effect, holds, effect.numbered step.room counted.numbered,
    effect.positive step.room counted⟩

theorem run_counted {wal final : Wal} {events : List WalEvent}
    (run : Run CountedStep wal events final) {log : List WalEntry} (counted : Counted wal log) :
    Counted final (events.foldl logAfter log) := by
  induction run generalizing log with
  | nil => exact counted
  | cons step _ ih => exact ih (counted_step counted step).2

theorem counted_fresh (config : WalConfig) (appendMode : Bool) :
    Counted (freshWal config appendMode) [] :=
  ⟨holds_fresh config appendMode, numbered_nil _, Nat.one_pos⟩

theorem Reached.counted {final : Wal} {events : List WalEvent}
    (reached : Reached CountedStep events final) : Counted final (logOf events) := by
  obtain ⟨config, appendMode, wal, created, run⟩ := reached.fresh
  rw [create_fresh] at created
  cases created
  exact run_counted run (counted_fresh config appendMode)

def Wal.Emptied (wal : Wal) : Prop :=
  wal.fd.bytes.length = kFileHeaderSize ∧ wal.currentSequence ≠ 1

theorem Holds.header_only {wal : Wal} {log : List WalEntry} (holds : Holds wal log) :
    wal.fd.bytes.length = kFileHeaderSize ↔ log = [] := by
  have entries := length_le_encodeAll log
  rw [holds.bytes, walBytes_length, kFileHeaderSize]
  constructor
  · intro same
    apply List.eq_nil_of_length_eq_zero
    omega
  · intro empty
    simp [empty]

structure KeptStep (wal : Wal) (event : WalEvent) (next : Wal) : Prop
    extends CountedStep wal event next where
  kept : ∀ config, event.op = .reopen config → ¬ wal.Emptied

theorem reopen_emptied {wal next : Wal} {log : List WalEntry} (counted : Counted wal log)
    (sequence : next.nextSeq = seqAfter (maxSeqOf log)) (emptied : wal.Emptied) :
    next.nextSeq = 1 := by
  have nothing := counted.header_only.mp emptied.1
  rw [sequence, nothing]
  rfl

theorem reopen_kept {wal next : Wal} {log : List WalEntry} (counted : Counted wal log)
    (sequence : next.nextSeq = seqAfter (maxSeqOf log)) (kept : ¬ wal.Emptied) :
    next.nextSeq = wal.nextSeq := by
  by_cases nothing : log = []
  · have first : wal.nextSeq = 1 := by
      by_contra later
      exact kept ⟨counted.header_only.mpr nothing, later⟩
    rw [sequence, nothing, first]
    rfl
  · apply UInt64.toNat_inj.mp
    rw [sequence, seqAfter_follow counted.numbered (UInt64.toNat_lt _),
      counted.numbered.follow_eq nothing]

theorem kept_step {wal next : Wal} {log : List WalEntry} {event : WalEvent}
    (counted : Counted wal log) (step : KeptStep wal event next) :
    event.taken = none ∧ next.nextSeq = wal.nextSeq ∨
      event.taken = some wal.nextSeq ∧ next.nextSeq.toNat = wal.nextSeq.toNat + 1 := by
  have effect := (counted_step counted step.toCountedStep).1
  cases effect with
  | refused _ => exact .inl ⟨rfl, rfl⟩
  | accepted _ sequence _ =>
      refine .inr ⟨rfl, ?_⟩
      rw [sequence, succ_toNat (step.room wal.nextSeq rfl)]
  | truncate sequence _ => exact .inl ⟨rfl, sequence⟩
  | truncateAll sequence _ => exact .inl ⟨rfl, sequence⟩
  | replay sequence _ => exact .inl ⟨rfl, sequence⟩
  | replayStream _ sequence _ => exact .inl ⟨rfl, sequence⟩
  | fsync => exact .inl ⟨rfl, rfl⟩
  | reopen sequence _ =>
      exact .inl ⟨rfl, reopen_kept counted sequence (step.kept _ rfl)⟩

theorem kept_run {wal final : Wal} {events : List WalEvent}
    (run : Run KeptStep wal events final) {log : List WalEntry} (counted : Counted wal log) :
    (events.filterMap WalEvent.taken).Pairwise (· < ·) ∧
      (∀ seq ∈ events.filterMap WalEvent.taken, wal.nextSeq ≤ seq ∧ seq < final.nextSeq) ∧
      wal.nextSeq ≤ final.nextSeq := by
  induction run generalizing log with
  | nil => exact ⟨List.Pairwise.nil, by simp, UInt64.le_refl _⟩
  | @cons wal next final event events step _ ih =>
      obtain ⟨ordered, within, grown⟩ := ih (counted_step counted step.toCountedStep).2
      rcases kept_step counted step with ⟨taken, same⟩ | ⟨taken, advanced⟩
      · rw [List.filterMap_cons_none taken, ← same]
        exact ⟨ordered, within, grown⟩
      · have before : wal.nextSeq < next.nextSeq := by
          rw [UInt64.lt_iff_toNat_lt]
          omega
        rw [List.filterMap_cons_some taken]
        refine ⟨List.pairwise_cons.mpr ⟨?_, ordered⟩, ?_, ?_⟩
        · intro seq member
          exact UInt64.lt_of_lt_of_le before (within seq member).1
        · intro seq member
          rcases List.mem_cons.mp member with first | later
          · rw [first]
            exact ⟨UInt64.le_refl _, UInt64.lt_of_lt_of_le before grown⟩
          · have bounds := within seq later
            exact ⟨UInt64.le_of_lt (UInt64.lt_of_lt_of_le before bounds.1), bounds.2⟩
        · exact UInt64.le_of_lt (UInt64.lt_of_lt_of_le before grown)

/-- From any state a run reaches, sequence numbers grow for as long as no emptied log is
reopened; reopening an emptied log starts them again at 1. -/
theorem append_sequences_increase {before : List WalEvent} {wal : Wal}
    (reached : Reached CountedStep before wal) :
    (∀ {events : List WalEvent} {final : Wal}, Run KeptStep wal events final →
        (events.filterMap WalEvent.taken).Pairwise (· < ·) ∧
          ∀ seq ∈ events.filterMap WalEvent.taken, wal.currentSequence ≤ seq) ∧
      (wal.Emptied → ∀ config, ∃ next,
        wal.exec (.reopen config) = some (.done (.ok ()), next) ∧ next.currentSequence = 1) := by
  have counted := reached.counted
  refine ⟨?_, ?_⟩
  · intro events final run
    obtain ⟨ordered, within, -⟩ := kept_run run counted
    exact ⟨ordered, fun seq member => (within seq member).1⟩
  · intro emptied config
    obtain ⟨next, created, effect, -⟩ := reopen_effect counted.toHolds config
    refine ⟨next, by simp only [Wal.exec, created], ?_⟩
    cases effect with
    | reopen sequence _ => exact reopen_emptied counted sequence emptied

/-! A log from which everything was cut and that is opened again gives out 1 twice. -/

theorem cut_all_empties : ((freshWal plainConfig true).execAll
    [.append 0 .custom [] [], .truncateAll]).map (fun outcome =>
      (outcome.1.filterMap WalEvent.taken, outcome.2.fd.bytes.length, outcome.2.nextSeq)) =
    some ([1], 16, 2) := by
  decide +kernel

theorem append_sequences_restart : ∃ events wal,
    (freshWal plainConfig true).execAll [.append 0 .custom [] [], .truncateAll] = some (events, wal) ∧
      wal.currentSequence = 2 ∧ ∃ next,
        wal.exec (.reopen plainConfig) = some (.done (.ok ()), next) ∧ next.currentSequence = 1 := by
  obtain ⟨⟨events, wal⟩, executed, facts⟩ := Option.map_eq_some_iff.mp cut_all_empties
  simp only [Prod.mk.injEq] at facts
  obtain ⟨taken, length, sequence⟩ := facts
  have run := run_of_room (execAll_run executed) (by
    rw [taken]
    simp)
  have reached : Reached CountedStep events wal :=
    ⟨plainConfig, true, _, create_fresh plainConfig true, run⟩
  have emptied : wal.Emptied := by
    refine ⟨length, ?_⟩
    rw [Wal.currentSequence, sequence]
    decide
  exact ⟨events, wal, executed, sequence, (append_sequences_increase reached).2 emptied plainConfig⟩

theorem restart_repeats : ((freshWal plainConfig true).execAll
    [.append 0 .custom [] [], .truncateAll, .reopen plainConfig, .append 0 .custom [] []]).map
      (fun outcome => outcome.1.filterMap WalEvent.taken) = some [1, 1] := by
  decide +kernel

theorem append_sequences_not_unique :
    ¬ ∀ {events : List WalEvent} {wal : Wal}, Reached CountedStep events wal →
      (events.filterMap WalEvent.taken).Pairwise (· < ·) := by
  intro unique
  obtain ⟨⟨events, final⟩, executed, taken⟩ := Option.map_eq_some_iff.mp restart_repeats
  have run := run_of_room (execAll_run executed) (by
    rw [taken]
    simp)
  have increasing := unique ⟨plainConfig, true, _, create_fresh plainConfig true, run⟩
  rw [taken] at increasing
  exact absurd increasing (by decide)

end Udaf
