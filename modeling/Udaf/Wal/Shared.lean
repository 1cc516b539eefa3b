import Udaf.Lib.ChainWriters
import Udaf.Wal.Ordering
import Udaf.Wal.Sequence

/-!
Any number of `Wal` objects on one file. Each reads the largest sequence when it is created and
counts on by itself, so the numbers in the file are those of several counters.
-/

namespace Udaf

open ByteString ChainWriters FrameLog HashChain Numbering Posix Runs

variable {ι : Type}

/-- The objects, each as its last call left it, and what stands in the file now. -/
structure SharedWal (ι : Type) where
  wals : ι → Option Wal
  file : Option Bytes

def Wal.on (wal : Wal) (file : Bytes) : Wal := { wal with fd := { wal.fd with bytes := file } }

inductive WalUse where
  | create (config : WalConfig)
  | append (timestamp : Int64) (type : WalEntryType) (action payload : Bytes)
      (result : Except ErrorCode UInt64)

namespace SharedWal

def unopened : SharedWal ι := ⟨fun _ => none, none⟩

/-- Calls one after the other in which every file operation succeeds, with room for the numbers
and for the bytes. -/
inductive Step [DecidableEq ι] (appendMode : Bool) :
    SharedWal ι → ι × WalUse → SharedWal ι → Prop where
  | create {shared : SharedWal ι} {config : WalConfig} {wal : Wal} (who : ι)
      (created : (Wal.create config ⟨shared.file, appendMode, []⟩).1 = .ok wal) :
      Step appendMode shared (who, .create config)
        ⟨Function.update shared.wals who (some wal), some wal.fd.bytes⟩
  | append {shared : SharedWal ι} {wal next : Wal} {file : Bytes} {timestamp : Int64}
      {type : WalEntryType} {action payload : Bytes} {result : Except ErrorCode UInt64} (who : ι)
      (holds : shared.wals who = some wal) (there : shared.file = some file)
      (appended : (wal.on file).append timestamp type action payload = (result, next))
      (room : ∀ seq, result = .ok seq → seq.toNat < 2 ^ 64 - 1)
      (fields : action.length < 2 ^ 32 ∧ payload.length < 2 ^ 32)
      (offsets : next.fd.bytes.length < 2 ^ 63) :
      Step appendMode shared (who, .append timestamp type action payload result)
        ⟨Function.update shared.wals who (some next), some next.fd.bytes⟩

def move : ι × WalUse → Option (Move ι)
  | (who, .create _) => some (.look who)
  | (who, .append _ _ _ _ (.ok _)) => some (.write who)
  | (_, .append _ _ _ _ (.error _)) => none

abbrev Contents := Int64 × WalEntryType × Bytes × Bytes

def contents (entry : WalEntry) : Contents :=
  (entry.timestampNs, entry.type, entry.action, entry.payload)

def appended (events : List (ι × WalUse)) : List Contents :=
  events.filterMap fun event =>
    match event.2 with
    | .append timestamp type action payload (.ok _) => some (timestamp, type, action, payload)
    | _ => none

/-! A view of the log is the number that its holder takes for the next one. -/

def after (_view : Nat) (entry : WalEntry) : Nat := seqOf entry + 1

def Takes (view : Nat) (entry : WalEntry) : Prop := seqOf entry = view

def Reaches (view : Nat) (entry : WalEntry) : Prop := view ≤ seqOf entry

theorem takes_reaches (view : Nat) (entry : WalEntry) (takes : Takes view entry) :
    Reaches view entry := Nat.le_of_eq takes.symm

theorem headOf_follow (log : List WalEntry) : headOf after 1 log = follow seqOf log := by
  induction log using List.reverseRecOn with
  | nil => rfl
  | append_singleton log entry ih =>
      rw [headOf_concat, follow, List.getLast?_concat]
      rfl

theorem chain_ascending {log : List WalEntry} {start : Nat} :
    Chain after Reaches start log ↔ Ascending log ∧ ∀ entry ∈ log, start ≤ seqOf entry := by
  induction log generalizing start with
  | nil => simp [Chain, Ascending]
  | cons entry log ih =>
      rw [Chain, ih, Ascending, Ascending, List.pairwise_cons]
      simp only [Precedes, UInt64.lt_iff_toNat_lt, after, seqOf, Reaches, List.mem_cons,
        forall_eq_or_imp]
      constructor
      · rintro ⟨first, ordered, above⟩
        exact ⟨⟨above, ordered⟩, first, fun other member => by have := above other member; omega⟩
      · rintro ⟨⟨above, ordered⟩, first, -⟩
        exact ⟨first, ordered, above⟩

theorem chain_numbers {log : List WalEntry} {start : Nat} (chain : Chain after Takes start log) :
    log.map seqOf = List.range' start log.length ∧ headOf after start log = start + log.length := by
  induction log generalizing start with
  | nil => exact ⟨rfl, rfl⟩
  | cons entry log ih =>
      have taken : seqOf entry = start := chain.1
      obtain ⟨numbers, last⟩ := ih chain.2
      rw [after, taken] at numbers
      rw [headOf_cons, last, after, taken, List.map_cons, numbers, taken, List.length_cons,
        List.range'_succ]
      exact ⟨rfl, by omega⟩

theorem views_apart (front back : List WalEntry) (entry : WalEntry) (more : back ≠ [])
    (chain : Chain after Takes 1 (front ++ back)) (takes : Takes (headOf after 1 front) entry) :
    ¬ Reaches (headOf after 1 (front ++ back)) entry := by
  have earlier : Chain after Takes 1 front := by
    clear takes
    generalize (1 : Nat) = start at chain
    induction front generalizing start with
    | nil => trivial
    | cons first front ih => exact ⟨chain.1, ih _ chain.2⟩
  have whole := (chain_numbers chain).2
  have part := (chain_numbers earlier).2
  have some : 0 < back.length := List.length_pos_iff.mpr more
  rw [Reaches, whole, takes, part, List.length_append]
  omega

def views (shared : SharedWal ι) (who : ι) : Option Nat :=
  (shared.wals who).map fun wal => wal.nextSeq.toNat

structure Shows (shared : SharedWal ι) (log : List WalEntry) : Prop where
  file : shared.file = some (walBytes log)
  storable : ∀ entry ∈ log, Storable entry
  numbers : ∀ entry ∈ log, 1 ≤ seqOf entry ∧ seqOf entry < 2 ^ 64 - 1
  offsets : (walBytes log).length < 2 ^ 63
  quiet : ∀ who wal, shared.wals who = some wal → wal.fd.faults = []
  positive : ∀ who wal, shared.wals who = some wal → 1 ≤ wal.nextSeq.toNat

section Steps

variable {appendMode : Bool} {shared next : SharedWal ι} {log : List WalEntry}

theorem seqAfter_positive (maxSeq : UInt64) : 1 ≤ (seqAfter maxSeq).toNat := by
  rw [seqAfter]
  split
  · exact Nat.le_refl _
  · rename_i nonzero
    have positive : (maxSeq + 1).toNat ≠ 0 := fun zero => nonzero (UInt64.toNat_inj.mp zero)
    omega

theorem create_views {config : WalConfig} {wal : Wal} (shown : Shows shared log)
    (created : (Wal.create config ⟨shared.file, appendMode, []⟩).1 = .ok wal) :
    wal.fd.faults = [] ∧ wal.fd.bytes = walBytes log ∧ 1 ≤ wal.nextSeq.toNat ∧
      (Chain after Reaches 1 log → wal.nextSeq.toNat = headOf after 1 log) := by
  obtain ⟨opened, result, holds, sequence, -⟩ :=
    create_holds config appendMode shown.storable shown.offsets
  rw [shown.file, result] at created
  cases created
  refine ⟨holds.quiet, holds.bytes, ?_, fun chain => ?_⟩
  · rw [sequence]
    exact seqAfter_positive _
  · have ordered := (chain_ascending.mp chain).1
    have numbered : Numbered seqOf log (follow seqOf log) := by
      refine ⟨ordered.imp fun precedes => UInt64.lt_iff_toNat_lt.mp precedes, fun last final => ?_⟩
      rw [follow, Option.mem_def.mp final]
      rfl
    have bound : follow seqOf log < 2 ^ 64 := by
      rcases List.eq_nil_or_concat log with rfl | ⟨front, last, rfl⟩
      · decide
      · have fits := (shown.numbers last (by simp)).2
        rw [List.concat_eq_append, follow, List.getLast?_concat]
        simp only [Option.map_some, Option.getD_some]
        omega
    rw [sequence, seqAfter_follow numbered bound, headOf_follow]

theorem append_views {wal next : Wal} {timestamp : Int64} {type : WalEntryType}
    {action payload : Bytes} {result : Except ErrorCode UInt64} (quiet : wal.fd.faults = [])
    (done : (wal.on (walBytes log)).append timestamp type action payload = (result, next))
    (fields : action.length < 2 ^ 32 ∧ payload.length < 2 ^ 32) :
    (∃ code, result = .error code ∧ next = wal.on (walBytes log)) ∨
      ∃ entry, result = .ok wal.nextSeq ∧ Storable entry ∧ entry.seq = wal.nextSeq ∧
        contents entry = (timestamp, type, action, payload) ∧ next.fd.faults = [] ∧
        next.fd.bytes = walBytes (log ++ [entry]) ∧ next.nextSeq = wal.nextSeq + 1 := by
  by_cases refused : (wal.on (walBytes log)).Refuses action payload
  · rw [append_refused refused] at done
    cases done
    exact Or.inl ⟨_, rfl, rfl⟩
  · rw [@append_accepted (wal.on (walBytes log)) action payload quiet refused] at done
    cases done
    refine Or.inr ⟨(wal.on (walBytes log)).nextEntry timestamp type action payload, rfl,
      ⟨rfl, fields.1, fields.2⟩, rfl, rfl, quiet, ?_, rfl⟩
    rw [walBytes_append]
    simp [Wal.on, entryCodec]

variable [DecidableEq ι]

theorem views_update (wals : ι → Option Wal) (who : ι) (wal : Wal) (file after : Option Bytes) :
    views ⟨Function.update wals who (some wal), after⟩ =
      Function.update (views ⟨wals, file⟩) who (some wal.nextSeq.toNat) := by
  funext other
  by_cases same : other = who
  · subst same
    simp [views]
  · simp [views, Function.update_of_ne same]

theorem held_update {wals : ι → Option Wal} {holds : Wal → Prop} {who : ι} {wal : Wal}
    (before : ∀ other wal, wals other = some wal → holds wal) (now : holds wal) :
    ∀ other held, Function.update wals who (some wal) other = some held → holds held := by
  intro other held found
  by_cases same : other = who
  · subst same
    rw [Function.update_self, Option.some.injEq] at found
    rw [← found]
    exact now
  · rw [Function.update_of_ne same] at found
    exact before other held found

theorem Shows.step {event : ι × WalUse} (shown : Shows shared log)
    (step : Step appendMode shared event next) :
    ∃ longer, Shows next longer ∧ longer.map contents = log.map contents ++ appended [event] ∧
      Run (ChainWriters.Step after Takes Reaches 1) ⟨log, views shared⟩ (move event).toList
        ⟨longer, views next⟩ := by
  cases step with
  | create who created =>
      rename_i config wal
      obtain ⟨quiet, bytes, positive, honest⟩ := create_views shown created
      refine ⟨log, ⟨?_, shown.storable, shown.numbers, shown.offsets, ?_, ?_⟩, ?_, ?_⟩
      · exact congrArg some bytes
      · exact held_update shown.quiet quiet
      · exact held_update shown.positive positive
      · simp [appended]
      · rw [views_update shared.wals who wal shared.file]
        exact .cons (.look honest) .nil
  | append who holds there done room fields offsets =>
      rename_i wal next file timestamp type action payload result
      cases shown.file.symm.trans there
      have view : views shared who = some wal.nextSeq.toNat := by rw [views, holds]; rfl
      rcases append_views (shown.quiet who wal holds) done fields with
        ⟨code, rfl, rfl⟩ | ⟨entry, rfl, storable, seq, content, quiet, bytes, following⟩
      · refine ⟨log, ⟨rfl, shown.storable, shown.numbers, shown.offsets, ?_, ?_⟩, ?_, ?_⟩
        · exact held_update shown.quiet (shown.quiet who wal holds)
        · exact held_update shown.positive (shown.positive who wal holds)
        · simp [appended]
        · have same : Function.update (views shared) who (some wal.nextSeq.toNat) = views shared := by
            rw [← view]
            exact Function.update_eq_self who (views shared)
          rw [views_update shared.wals who (wal.on (walBytes log)) shared.file]
          rw [show (wal.on (walBytes log)).nextSeq = wal.nextSeq from rfl, same]
          exact .nil
      · have small := room wal.nextSeq rfl
        have advanced : next.nextSeq.toNat = seqOf entry + 1 := by
          rw [following, succ_toNat small, seqOf, seq]
        refine ⟨log ++ [entry], ⟨?_, ?_, ?_, ?_, ?_, ?_⟩, ?_, ?_⟩
        · exact congrArg some bytes
        · intro other member
          rcases List.mem_append.mp member with old | new
          · exact shown.storable other old
          · rw [List.mem_singleton.mp new]
            exact storable
        · intro other member
          rcases List.mem_append.mp member with old | new
          · exact shown.numbers other old
          · rw [List.mem_singleton.mp new, seqOf, seq]
            exact ⟨shown.positive who wal holds, small⟩
        · rw [← bytes]
          exact offsets
        · exact held_update shown.quiet quiet
        · refine held_update shown.positive ?_
          omega
        · rw [List.map_append, List.map_singleton, content]
          rfl
        · rw [views_update shared.wals who next shared.file, advanced]
          exact .cons (.write view (by rw [Takes, seqOf, seq])) .nil

theorem first_step {event : ι × WalUse} (step : Step appendMode unopened event next) :
    Shows next [] ∧ appended [event] = [] ∧
      Run (ChainWriters.Step after Takes Reaches 1) Desk.empty (move event).toList
        ⟨[], views next⟩ := by
  cases step with
  | create who created =>
      rename_i config wal
      rw [unopened, create_fresh] at created
      cases created
      have fresh := holds_fresh config appendMode
      refine ⟨⟨congrArg some fresh.bytes, by simp, by simp, by simp [walBytes], ?_, ?_⟩, rfl, ?_⟩
      · exact held_update (fun _ _ none => by cases none) fresh.quiet
      · exact held_update (fun _ _ none => by cases none) (Nat.le_refl 1)
      · rw [views_update unopened.wals who (freshWal config appendMode) none]
        exact .cons (.look fun _ => rfl) .nil
  | append who holds there done room fields offsets => cases holds

theorem run_shows {events : List (ι × WalUse)} (run : Run (Step appendMode) unopened events shared)
    (opened : events ≠ []) :
    ∃ log, Shows shared log ∧ log.map contents = appended events ∧
      Run (ChainWriters.Step after Takes Reaches 1) Desk.empty (events.filterMap move)
        ⟨log, views shared⟩ := by
  have all := @Run.history _ _ (Step appendMode) (fun past shared => past = [] ∧ shared = unopened ∨
      ∃ log, Shows shared log ∧ log.map contents = appended past ∧
        Run (ChainWriters.Step after Takes Reaches 1) Desk.empty (past.filterMap move)
          ⟨log, views shared⟩) (by
      rintro past shared event next step (⟨rfl, rfl⟩ | ⟨log, shown, told, before⟩)
      · obtain ⟨shown, none, first⟩ := first_step step
        refine Or.inr ⟨[], shown, none.symm, ?_⟩
        rw [List.nil_append, List.filterMap_cons, List.filterMap_nil]
        cases moved : move event with
        | none => simpa [moved] using first
        | some one => simpa [moved] using first
      · obtain ⟨longer, shows, more, further⟩ := shown.step step
        refine Or.inr ⟨longer, shows, ?_, ?_⟩
        · rw [more, told, appended, appended, appended, List.filterMap_append]
        · have last : [event].filterMap move = (move event).toList := by
            cases moved : move event with
            | none => simp [moved]
            | some one => simp [moved]
          rw [List.filterMap_append, last]
          exact before.append further) [] _ _ _ run (Or.inl ⟨rfl, rfl⟩)
  rcases all with ⟨none, -⟩ | shows
  · exact absurd none opened
  · exact shows

/-- Replay delivers all that anyone has appended, in order. The numbers ascend exactly if each append
is made by an object that was created or has appended since the last append of any other, and then
they have no gap; out of turn some number repeats or goes back, and replay does not say so. -/
theorem shared_wal_ordered {events : List (ι × WalUse)}
    (run : Run (Step appendMode) unopened events shared) (opened : events ≠ []) :
    ∃ log, shared.file = some (walBytes log) ∧ log.map contents = appended events ∧
      (∀ who wal, shared.wals who = some wal → (wal.on (walBytes log)).replay.1 = .ok log) ∧
      (Ascending log ↔ InTurn (events.filterMap move)) ∧
      (InTurn (events.filterMap move) → log.map seqOf = List.range' 1 log.length) := by
  obtain ⟨log, shown, told, writers⟩ := run_shows run opened
  have kept := run_kept takes_reaches
    (fun front back entry more chain takes => views_apart front back entry more chain takes) writers
  have ordered := inTurn_iff takes_reaches
    (fun front back entry more chain takes => views_apart front back entry more chain takes) writers
  refine ⟨log, shown.file, told, ?_, ?_, fun turns => (chain_numbers (kept.chain turns)).1⟩
  · intro who wal holds
    have quiet : (wal.on (walBytes log)).fd.faults = [] := shown.quiet who wal holds
    rw [replay_ok quiet]
    change scan entryCodec ((walBytes log).drop kFileHeaderSize) = (log, none)
    rw [walBytes_drop]
    exact scan_encodeAll entryCodec shown.storable
  · rw [ordered, chain_ascending]
    exact ⟨fun ascending => ⟨ascending, fun entry member => (shown.numbers entry member).1⟩, And.left⟩

def sampleUses : List (Bool × WalUse) :=
  [(true, .create plainConfig), (false, .create plainConfig),
    (true, .append 0 .custom [] [] (.ok 1)), (false, .append 0 .custom [] [] (.ok 1))]

theorem sampleUses_run : ∃ shared : SharedWal Bool, Run (Step true) unopened sampleUses shared := by
  have empty : (Wal.create plainConfig ⟨some fileHeader, true, []⟩).1 =
      .ok (openedWal plainConfig fileHeader true) := create_valid plainConfig (by
        have valid := fileHeader_valid []
        rwa [List.append_nil] at valid) true
  refine ⟨_, .cons (.create true (create_fresh plainConfig true)) (.cons (.create false empty)
    (.cons (.append true rfl rfl rfl ?_ (by decide) ?_)
      (.cons (.append false rfl rfl rfl ?_ (by decide) ?_) .nil)))⟩
  · intro seq taken
    cases taken
    decide
  · decide +kernel
  · intro seq taken
    cases taken
    decide
  · decide +kernel

theorem shared_wal_ordered_sample : ∃ (shared : SharedWal Bool) (log : List WalEntry),
    Run (Step true) unopened sampleUses shared ∧ shared.file = some (walBytes log) ∧
      log.map contents = [(0, .custom, [], []), (0, .custom, [], [])] ∧ ¬ Ascending log := by
  obtain ⟨shared, run⟩ := sampleUses_run
  obtain ⟨log, file, told, -, ordered, -⟩ := shared_wal_ordered run (by simp [sampleUses])
  refine ⟨shared, log, run, file, told, fun ascending => ?_⟩
  have turns : InTurn (([.look true, .look false] ++ [.write true]) ++ [.write false]) :=
    ordered.mp ascending
  exact absurd (current_write.mp (inTurn_write.mp turns).2) (by decide)

end Steps

end SharedWal

end Udaf
