import Udaf.Lib.Run
import Udaf.Wal.Operations

/-!
Runs of a write-ahead log on one path, with objects destroyed and created again
on the way. Every file operation of a run succeeds, so the file stays below the
largest offset. `Effect` says once what one step can do.
-/

namespace Udaf

open ByteString Posix FrameLog Runs

inductive WalOp where
  | append (timestamp : Int64) (type : WalEntryType) (action payload : Bytes)
  | truncate (keepSequence : UInt64)
  | truncateAll
  | replay
  | replayStream (callback : Option WalCallback)
  | fsync
  | reopen (config : WalConfig)

inductive WalReply where
  | appended (result : Except ErrorCode UInt64)
  | done (result : Except ErrorCode Unit)
  | replayed (result : Except ErrorCode (List WalEntry))
  | streamed (result : Except ErrorCode Unit) (seen : List WalEntry)

structure WalEvent where
  op : WalOp
  reply : WalReply

/-- One operation; a `create` that fails leaves no object to go on with. -/
def Wal.exec (wal : Wal) : WalOp → Option (WalReply × Wal)
  | .append timestamp type action payload =>
      let (result, next) := wal.append timestamp type action payload
      some (.appended result, next)
  | .truncate keepSequence =>
      let (result, next) := wal.truncate keepSequence
      some (.done result, next)
  | .truncateAll =>
      let (result, next) := wal.truncateAll
      some (.done result, next)
  | .replay =>
      let (result, next) := wal.replay
      some (.replayed result, next)
  | .replayStream callback =>
      let ((result, seen), next) := wal.replayStream callback
      some (.streamed result seen, next)
  | .fsync =>
      let (result, next) := wal.fsync
      some (.done result, next)
  | .reopen config =>
      match (Wal.create config wal.fd.disk).1 with
      | .ok next => some (.done (.ok ()), next)
      | .error _ => none

structure WalStep (wal : Wal) (event : WalEvent) (next : Wal) : Prop where
  effect : wal.exec event.op = some (event.reply, next)
  offsets : next.fd.bytes.length < 2 ^ 63

def Wal.execAll : List WalOp → Wal → Option (List WalEvent × Wal)
  | [], wal => some ([], wal)
  | op :: ops, wal =>
      match wal.exec op with
      | none => none
      | some (reply, next) =>
          if next.fd.bytes.length < 2 ^ 63 then
            (Wal.execAll ops next).map fun (events, final) => (⟨op, reply⟩ :: events, final)
          else none

theorem execAll_run {ops : List WalOp} {wal final : Wal} {events : List WalEvent}
    (executed : wal.execAll ops = some (events, final)) : Run WalStep wal events final := by
  induction ops generalizing wal events with
  | nil =>
      cases executed
      exact .nil
  | cons op ops ih =>
      simp only [Wal.execAll] at executed
      split at executed
      · simp at executed
      · rename_i reply next effect
        split at executed
        · rename_i offsets
          simp only [Option.map_eq_some_iff, Prod.mk.injEq] at executed
          obtain ⟨⟨rest, reached⟩, tail, rfl, rfl⟩ := executed
          exact .cons ⟨effect, offsets⟩ (ih tail)
        · simp at executed

theorem execAll_ops {ops : List WalOp} {wal final : Wal} {events : List WalEvent}
    (executed : wal.execAll ops = some (events, final)) : events.map WalEvent.op = ops := by
  induction ops generalizing wal events with
  | nil =>
      cases executed
      rfl
  | cons op ops ih =>
      simp only [Wal.execAll] at executed
      split at executed
      · simp at executed
      · split at executed
        · simp only [Option.map_eq_some_iff, Prod.mk.injEq] at executed
          obtain ⟨⟨rest, reached⟩, tail, rfl, rfl⟩ := executed
          rw [List.map_cons, ih tail]
        · simp at executed

def logAfter (log : List WalEntry) : WalEvent → List WalEntry
  | ⟨.append timestamp type action payload, .appended (.ok seq)⟩ =>
      log ++ [storedEntry {
        seq := seq
        timestampNs := timestamp
        type := type
        action := action
        payload := payload }]
  | ⟨.truncate keepSequence, .done (.ok _)⟩ => log.filter (keeps keepSequence)
  | ⟨.truncateAll, .done (.ok _)⟩ => []
  | _ => log

def logOf (events : List WalEvent) : List WalEntry := events.foldl logAfter []

inductive Effect (wal : Wal) (log : List WalEntry) : WalEvent → Wal → Prop where
  | refused {timestamp : Int64} {type : WalEntryType} {action payload : Bytes} :
      wal.Refuses action payload →
      Effect wal log ⟨.append timestamp type action payload, .appended (.error .resDiskFull)⟩ wal
  | accepted {timestamp : Int64} {type : WalEntryType} {action payload : Bytes} {next : Wal} :
      ¬ wal.Refuses action payload → next.nextSeq = wal.nextSeq + 1 → next.config = wal.config →
      Effect wal log ⟨.append timestamp type action payload, .appended (.ok wal.nextSeq)⟩ next
  | truncate {keepSequence : UInt64} {next : Wal} :
      next.nextSeq = wal.nextSeq → next.config = wal.config →
      Effect wal log ⟨.truncate keepSequence, .done (.ok ())⟩ next
  | truncateAll {next : Wal} :
      next.nextSeq = wal.nextSeq → next.config = wal.config →
      Effect wal log ⟨.truncateAll, .done (.ok ())⟩ next
  | replay {next : Wal} :
      next.nextSeq = wal.nextSeq → next.config = wal.config →
      Effect wal log ⟨.replay, .replayed (.ok log)⟩ next
  | replayStream {callback : Option WalCallback} {result : Except ErrorCode Unit}
      {seen : List WalEntry} {next : Wal} :
      (result, seen) = (callback.map fun call => visitAll (deliver call) [] (log, none)).getD
        (.error .invalidArg, []) →
      next.nextSeq = wal.nextSeq → next.config = wal.config →
      Effect wal log ⟨.replayStream callback, .streamed result seen⟩ next
  | fsync : Effect wal log ⟨.fsync, .done (.ok ())⟩ wal
  | reopen {config : WalConfig} {next : Wal} :
      next.nextSeq = seqAfter (maxSeqOf log) → next.config = config →
      Effect wal log ⟨.reopen config, .done (.ok ())⟩ next

theorem append_effect {wal next : Wal} {log : List WalEntry} (holds : Holds wal log)
    {timestamp : Int64} {type : WalEntryType} {action payload : Bytes}
    {result : Except ErrorCode UInt64}
    (appended : wal.append timestamp type action payload = (result, next))
    (offsets : next.fd.bytes.length < 2 ^ 63) :
    Effect wal log ⟨.append timestamp type action payload, .appended result⟩ next ∧
      Holds next (logAfter log ⟨.append timestamp type action payload, .appended result⟩) := by
  by_cases refused : wal.Refuses action payload
  · rw [append_refused refused] at appended
    cases appended
    exact ⟨.refused refused, holds⟩
  · have held := @append_holds wal log holds action payload refused timestamp type
    rw [appended] at held
    rw [append_accepted holds.quiet refused] at appended
    simp only [Prod.mk.injEq] at appended
    obtain ⟨sequence, rest⟩ := appended
    subst sequence
    refine ⟨.accepted refused ?_ ?_, held offsets⟩ <;> rw [← rest]

theorem replayStream_effect {wal next : Wal} {log : List WalEntry} (holds : Holds wal log)
    {callback : Option WalCallback} {result : Except ErrorCode Unit} {seen : List WalEntry}
    (streamed : wal.replayStream callback = ((result, seen), next)) :
    Effect wal log ⟨.replayStream callback, .streamed result seen⟩ next ∧ Holds next log := by
  cases callback with
  | none =>
      cases streamed
      exact ⟨.replayStream rfl rfl rfl, holds⟩
  | some call =>
      obtain ⟨pos, visited⟩ := replayStream_quiet holds.quiet call
      rw [holds.scan_entries, streamed, Prod.mk.injEq] at visited
      obtain ⟨outcome, rest⟩ := visited
      subst rest
      exact ⟨.replayStream outcome rfl rfl, holds.seek pos⟩

theorem reopen_effect {wal : Wal} {log : List WalEntry} (holds : Holds wal log)
    (config : WalConfig) :
    ∃ next, (Wal.create config wal.fd.disk).1 = .ok next ∧
      Effect wal log ⟨.reopen config, .done (.ok ())⟩ next ∧ Holds next log := by
  have offsets := holds.offsets
  rw [holds.bytes] at offsets
  obtain ⟨next, created, held, sequence, same⟩ :=
    create_holds config wal.fd.appendMode holds.storable offsets
  refine ⟨next, ?_, .reopen sequence same, held⟩
  rw [File.disk, holds.bytes, holds.quiet]
  exact created

theorem step_effect {wal next : Wal} {log : List WalEntry} {event : WalEvent}
    (holds : Holds wal log) (step : WalStep wal event next) :
    Effect wal log event next ∧ Holds next (logAfter log event) := by
  obtain ⟨effect, offsets⟩ := step
  obtain ⟨op, reply⟩ := event
  cases op with
  | append timestamp type action payload =>
      simp only [Wal.exec, Option.some.injEq, Prod.mk.injEq] at effect
      obtain ⟨rfl, rfl⟩ := effect
      exact append_effect holds rfl offsets
  | truncate keepSequence =>
      simp only [Wal.exec, Option.some.injEq, Prod.mk.injEq] at effect
      obtain ⟨rfl, rfl⟩ := effect
      obtain ⟨succeeded, held, sequence, config⟩ := truncate_holds holds keepSequence
      rw [succeeded]
      exact ⟨.truncate sequence config, held⟩
  | truncateAll =>
      simp only [Wal.exec, Option.some.injEq, Prod.mk.injEq] at effect
      obtain ⟨rfl, rfl⟩ := effect
      obtain ⟨succeeded, held, sequence, config⟩ := truncateAll_holds holds
      rw [succeeded]
      exact ⟨.truncateAll sequence config, held⟩
  | replay =>
      obtain ⟨pos, replayed⟩ := replay_holds holds
      simp only [Wal.exec, replayed, Option.some.injEq, Prod.mk.injEq] at effect
      obtain ⟨rfl, rfl⟩ := effect
      exact ⟨.replay rfl rfl, holds.seek pos⟩
  | replayStream callback =>
      simp only [Wal.exec, Option.some.injEq, Prod.mk.injEq] at effect
      obtain ⟨rfl, rfl⟩ := effect
      exact replayStream_effect holds rfl
  | fsync =>
      simp only [Wal.exec, fsync_holds holds, Option.some.injEq, Prod.mk.injEq] at effect
      obtain ⟨rfl, rfl⟩ := effect
      exact ⟨.fsync, holds⟩
  | reopen config =>
      obtain ⟨opened, created, outcome, held⟩ := reopen_effect holds config
      simp only [Wal.exec, created, Option.some.injEq, Prod.mk.injEq] at effect
      obtain ⟨rfl, rfl⟩ := effect
      exact ⟨outcome, held⟩

theorem run_holds {wal final : Wal} {events : List WalEvent}
    (run : Run WalStep wal events final) {log : List WalEntry} (holds : Holds wal log) :
    Holds final (events.foldl logAfter log) := by
  induction run generalizing log with
  | nil => exact holds
  | cons step _ ih => exact ih (step_effect holds step).2

/-- `final` is reached from a `create` on a path that did not exist. -/
structure Reached (Step : Wal → WalEvent → Wal → Prop) (events : List WalEvent) (final : Wal) :
    Prop where
  fresh : ∃ config appendMode wal, (Wal.create config ⟨none, appendMode, []⟩).1 = .ok wal ∧
    Run Step wal events final

theorem Reached.holds {final : Wal} {events : List WalEvent}
    (reached : Reached WalStep events final) : Holds final (logOf events) := by
  obtain ⟨config, appendMode, wal, created, run⟩ := reached.fresh
  rw [create_fresh] at created
  cases created
  exact run_holds run (holds_fresh config appendMode)

def WalEvent.Acknowledged : WalEvent → Prop
  | ⟨.append _ _ _ _, .appended (.ok _)⟩ => True
  | _ => False

theorem WalEvent.Acknowledged.adds {event : WalEvent} (acknowledged : event.Acknowledged) :
    ∃ entry, ∀ log, logAfter log event = log ++ [entry] := by
  obtain ⟨op, reply⟩ := event
  cases op with
  | append timestamp type action payload =>
      cases reply with
      | appended result =>
          cases result with
          | ok seq => exact ⟨_, fun _ => rfl⟩
          | error code => exact acknowledged.elim
      | _ => exact acknowledged.elim
  | _ => exact acknowledged.elim

theorem acknowledged_log {events : List WalEvent}
    (acknowledged : ∀ event ∈ events, event.Acknowledged) (log : List WalEntry) :
    events.foldl logAfter log = log ++ logOf events := by
  induction events generalizing log with
  | nil => simp [logOf]
  | cons event events ih =>
      have rest : ∀ other ∈ events, other.Acknowledged :=
        fun other member => acknowledged other (by simp [member])
      obtain ⟨entry, adds⟩ := (acknowledged event (by simp)).adds
      rw [logOf, List.foldl_cons, List.foldl_cons, ih rest, ih rest, adds, adds]
      simp

theorem Holds.delivers {wal : Wal} {log : List WalEntry} (holds : Holds wal log) :
    (wal.replayStream (some always)).1.2 = log := by
  rw [replayStream_always holds.quiet holds.scan_entries]

/-! A log without limits, and the same log with one entry without action and payload. -/

def plainConfig : WalConfig := { path := ascii "wal.log" }

def oneEntryEvents : List WalEvent := [⟨.append 0 .custom [] [], .appended (.ok 1)⟩]

def oneEntryWal : Wal := ((freshWal plainConfig true).append 0 .custom [] []).2

theorem oneEntry_bytes : oneEntryWal.fd.bytes.length = 56 := by
  decide +kernel

theorem freshWal_reached (config : WalConfig) (appendMode : Bool) :
    Reached WalStep [] (freshWal config appendMode) :=
  ⟨config, appendMode, _, create_fresh config appendMode, .nil⟩

theorem oneEntry_reached : Reached WalStep oneEntryEvents oneEntryWal := by
  have step : WalStep (freshWal plainConfig true)
      ⟨.append 0 .custom [] [], .appended (.ok 1)⟩ oneEntryWal := by
    refine ⟨rfl, ?_⟩
    rw [oneEntry_bytes]
    decide
  exact ⟨plainConfig, true, _, create_fresh plainConfig true, .cons step .nil⟩

end Udaf
