import Udaf.Wal.Sequence

/-!
What a write-ahead log is for, as a machine over a list of numbered entries, and
the proof that the log of bytes, descriptor and counters answers as it does.
-/

namespace Udaf

open ByteString Posix FrameLog Runs Numbering

structure AbstractLog where
  config : WalConfig
  entries : List WalEntry
  nextSeq : Nat
  numbered : Numbered seqOf entries nextSeq

def AbstractLog.fresh (config : WalConfig) : AbstractLog where
  config := config
  entries := []
  nextSeq := 1
  numbered := numbered_nil 1

def entrySize (entry : WalEntry) : Nat := 40 + entry.action.length + entry.payload.length

def AbstractLog.sizeBytes (log : AbstractLog) : Nat := 16 + (log.entries.map entrySize).sum

/-- One more entry would exceed a limit; a limit of 0 is none. -/
def AbstractLog.Full (log : AbstractLog) (action payload : Bytes) : Prop :=
  (log.config.maxEntries.toNat ≠ 0 ∧ log.config.maxEntries.toNat < log.entries.length + 1) ∨
    (log.config.maxSizeBytes.toNat ≠ 0 ∧
      log.config.maxSizeBytes.toNat < log.sizeBytes + (40 + action.length + payload.length))

instance (log : AbstractLog) (action payload : Bytes) : Decidable (log.Full action payload) :=
  inferInstanceAs (Decidable (_ ∨ _))

def AbstractLog.append (timestamp : Int64) (type : WalEntryType) (action payload : Bytes)
    (log : AbstractLog) : Except ErrorCode UInt64 × AbstractLog :=
  if log.Full action payload then (.error .resDiskFull, log)
  else if room : log.nextSeq < 2 ^ 64 then
    let entry : WalEntry := {
      seq := UInt64.ofNat log.nextSeq
      timestampNs := timestamp
      type := type
      action := action
      payload := payload }
    (.ok entry.seq, {
      config := log.config
      entries := log.entries ++ [entry]
      nextSeq := log.nextSeq + 1
      numbered := log.numbered.push (UInt64.toNat_ofNat_of_lt' room) })
  else (.error .internal, log)

def AbstractLog.truncate (keepSequence : UInt64) (log : AbstractLog) : AbstractLog where
  config := log.config
  entries := log.entries.filter fun entry => decide (keepSequence.toNat ≤ seqOf entry)
  nextSeq := log.nextSeq
  numbered := log.numbered.keepFrom _

def AbstractLog.truncateAll (log : AbstractLog) : AbstractLog where
  config := log.config
  entries := []
  nextSeq := log.nextSeq
  numbered := numbered_nil _

def AbstractLog.reopen (config : WalConfig) (log : AbstractLog) : AbstractLog where
  config := config
  entries := log.entries
  nextSeq := follow seqOf log.entries
  numbered := log.numbered.reload

def deliveredTo (callback : WalCallback) : List WalEntry → List WalEntry → List WalEntry
  | seen, [] => seen
  | seen, entry :: rest =>
      if callback seen entry then deliveredTo callback (seen ++ [entry]) rest else seen ++ [entry]

def AbstractLog.exec (log : AbstractLog) : WalOp → WalReply × AbstractLog
  | .append timestamp type action payload =>
      let (result, next) := log.append timestamp type action payload
      (.appended result, next)
  | .truncate keepSequence => (.done (.ok ()), log.truncate keepSequence)
  | .truncateAll => (.done (.ok ()), log.truncateAll)
  | .replay => (.replayed (.ok log.entries), log)
  | .replayStream none => (.streamed (.error .invalidArg) [], log)
  | .replayStream (some callback) => (.streamed (.ok ()) (deliveredTo callback [] log.entries), log)
  | .fsync => (.done (.ok ()), log)
  | .reopen config => (.done (.ok ()), log.reopen config)

def AbstractLog.execAll : List WalOp → AbstractLog → List WalReply × AbstractLog
  | [], log => ([], log)
  | op :: ops, log =>
      let (reply, next) := log.exec op
      let (replies, final) := AbstractLog.execAll ops next
      (reply :: replies, final)

structure Refines (wal : Wal) (log : AbstractLog) : Prop where
  counted : Counted wal log.entries
  sequence : wal.nextSeq.toNat = log.nextSeq
  config : wal.config = log.config

def WalOp.Short : WalOp → Prop
  | .append _ _ action payload => action.length < 2 ^ 32 ∧ payload.length < 2 ^ 32
  | _ => True

structure BoundedStep (wal : Wal) (event : WalEvent) (next : Wal) : Prop
    extends CountedStep wal event next where
  short : event.op.Short

theorem run_of_short {wal final : Wal} {events : List WalEvent}
    (run : Run CountedStep wal events final)
    (short : ∀ op ∈ events.map WalEvent.op, op.Short) : Run BoundedStep wal events final := by
  induction run with
  | nil => exact .nil
  | @cons wal next final event events step _ ih =>
      refine .cons ⟨step, short event.op (by simp)⟩ (ih ?_)
      intro op member
      exact short op (by simp only [List.map_cons, List.mem_cons, member, or_true])

theorem visitAll_deliver (callback : WalCallback) (seen entries : List WalEntry) :
    visitAll (deliver callback) seen (entries, (none : Option ErrorCode)) =
      (.ok (), deliveredTo callback seen entries) := by
  induction entries generalizing seen with
  | nil => simp [visitAll, deliveredTo]
  | cons entry entries ih =>
      by_cases goOn : callback seen entry
      · simp only [visitAll_cons, deliver, deliveredTo, goOn, if_true]
        exact ih (seen ++ [entry])
      · simp [visitAll_cons, deliver, deliveredTo, goOn]

theorem encodeAll_size {log : List WalEntry} (storable : ∀ entry ∈ log, Storable entry) :
    (encodeAll entryCodec log).length = (log.map entrySize).sum := by
  induction log with
  | nil => rfl
  | cons entry log ih =>
      have first := storable entry (by simp)
      have size : (entryCodec.encode entry).length = entrySize entry := by
        simp only [entryCodec, encodeEntry_length, length32, Nat.mod_eq_of_lt first.action,
          Nat.mod_eq_of_lt first.payload, entrySize]
      rw [encodeAll_cons, List.length_append, size, List.map_cons, List.sum_cons,
        ih fun other member => storable other (by simp [member])]

theorem Refines.length {wal : Wal} {log : AbstractLog} (refines : Refines wal log) :
    wal.fd.bytes.length = log.sizeBytes := by
  rw [refines.counted.bytes, walBytes_length, encodeAll_size refines.counted.storable,
    AbstractLog.sizeBytes]

theorem refuses_iff_full {wal : Wal} {log : AbstractLog} (refines : Refines wal log)
    {action payload : Bytes} (actionShort : action.length < 2 ^ 32)
    (payloadShort : payload.length < 2 ^ 32) :
    wal.Refuses action payload ↔ log.Full action payload := by
  have offsets := refines.counted.offsets
  have size := refines.counted.size
  have count := refines.counted.count
  have entries := refines.counted.length_lt
  have length := refines.length
  have total : (wal.sizeBytes + UInt64.ofNat kEntryHeaderSize + UInt64.ofNat action.length +
      UInt64.ofNat payload.length).toNat =
      log.sizeBytes + (40 + action.length + payload.length) := by
    simp only [UInt64.toNat_add, UInt64.toNat_ofNat', kEntryHeaderSize]
    omega
  simp only [Wal.Refuses, AbstractLog.Full, UInt64.lt_iff_toNat_lt, UInt64.le_iff_toNat_le,
    UInt32.lt_iff_toNat_lt, UInt32.toNat_toUInt64, total, ← refines.config, count,
    show (0 : UInt32).toNat = 0 from rfl, show (0 : UInt64).toNat = 0 from rfl]
  omega

theorem storedEntry_short {timestamp : Int64} {type : WalEntryType} {action payload : Bytes}
    {seq : UInt64} (actionShort : action.length < 2 ^ 32) (payloadShort : payload.length < 2 ^ 32) :
    storedEntry {
      seq := seq
      timestampNs := timestamp
      type := type
      action := action
      payload := payload } = {
      seq := seq
      timestampNs := timestamp
      type := type
      action := action
      payload := payload } :=
  storedEntry_of_storable ⟨rfl, actionShort, payloadShort⟩

theorem step_refines {wal next : Wal} {log : AbstractLog} {event : WalEvent}
    (refines : Refines wal log) (step : BoundedStep wal event next) :
    event.reply = (log.exec event.op).1 ∧ Refines next (log.exec event.op).2 := by
  obtain ⟨effect, counted⟩ := counted_step refines.counted step.toCountedStep
  have sequence := refines.sequence
  have bounded := step.short
  have config := refines.config
  cases effect with
  | @refused timestamp type action payload refused =>
      have full := (refuses_iff_full refines bounded.1 bounded.2).mp refused
      simp only [AbstractLog.exec, AbstractLog.append, if_pos full]
      exact ⟨trivial, refines⟩
  | @accepted timestamp type action payload next accepted advanced same =>
      have space : ¬ log.Full action payload := fun full =>
        accepted ((refuses_iff_full refines bounded.1 bounded.2).mpr full)
      have room : log.nextSeq < 2 ^ 64 := by
        rw [← sequence]
        exact UInt64.toNat_lt _
      have seq : UInt64.ofNat log.nextSeq = wal.nextSeq := by
        rw [← sequence, UInt64.ofNat_toNat]
      have stored := @storedEntry_short timestamp type action payload wal.nextSeq bounded.1
        bounded.2
      have advance := succ_toNat (step.room wal.nextSeq rfl)
      simp only [AbstractLog.exec, AbstractLog.append, if_neg space, dif_pos room, seq]
      simp only [logAfter, stored] at counted
      refine ⟨trivial, counted, ?_, ?_⟩
      · rw [advanced, advance, sequence]
      · rw [same, config]
  | truncate kept same =>
      rw [logAfter, keeps_eq] at counted
      exact ⟨rfl, counted, kept.symm ▸ sequence, same.trans config⟩
  | truncateAll kept same => exact ⟨rfl, counted, kept.symm ▸ sequence, same.trans config⟩
  | replay kept same => exact ⟨rfl, counted, kept.symm ▸ sequence, same.trans config⟩
  | @replayStream callback result seen next visited kept same =>
      cases callback with
      | none =>
          simp only [Option.map_none, Option.getD_none, Prod.mk.injEq] at visited
          obtain ⟨rfl, rfl⟩ := visited
          exact ⟨rfl, counted, kept.symm ▸ sequence, same.trans config⟩
      | some call =>
          simp only [Option.map_some, Option.getD_some, visitAll_deliver, Prod.mk.injEq] at visited
          obtain ⟨rfl, rfl⟩ := visited
          exact ⟨rfl, counted, kept.symm ▸ sequence, same.trans config⟩
  | fsync => exact ⟨rfl, refines⟩
  | reopen restarted same =>
      refine ⟨rfl, counted, ?_, same⟩
      rw [restarted, seqAfter_follow refines.counted.numbered (UInt64.toNat_lt _)]
      rfl

theorem run_refines {wal final : Wal} {events : List WalEvent}
    (run : Run BoundedStep wal events final) {log : AbstractLog} (refines : Refines wal log) :
    events.map WalEvent.reply = (log.execAll (events.map WalEvent.op)).1 ∧
      Refines final (log.execAll (events.map WalEvent.op)).2 := by
  induction run generalizing log with
  | nil => exact ⟨rfl, refines⟩
  | cons step _ ih =>
      obtain ⟨reply, kept⟩ := step_refines refines step
      obtain ⟨replies, final⟩ := ih kept
      simp only [List.map_cons, AbstractLog.execAll]
      exact ⟨by rw [reply, replies], final⟩

theorem refines_fresh (config : WalConfig) (appendMode : Bool) :
    Refines (freshWal config appendMode) (.fresh config) :=
  ⟨counted_fresh config appendMode, rfl, rfl⟩

theorem append_full {wal : Wal} {log : AbstractLog} (refines : Refines wal log)
    {action payload : Bytes} (actionShort : action.length < 2 ^ 32)
    (payloadShort : payload.length < 2 ^ 32) (timestamp : Int64) (type : WalEntryType) :
    (wal.append timestamp type action payload).1 = .error .resDiskFull ↔
      log.Full action payload := by
  rw [← refuses_iff_full refines actionShort payloadShort]
  constructor
  · intro failed
    by_contra accepted
    rw [append_accepted refines.counted.quiet accepted] at failed
    cases failed
  · intro refused
    rw [append_refused refused]

/-- Any appends, truncations and reopenings answer as the abstract log does, down to the bytes and the
counters. -/
theorem wal_refines_log {config : WalConfig} {appendMode : Bool} {wal final : Wal}
    {events : List WalEvent} (created : (Wal.create config ⟨none, appendMode, []⟩).1 = .ok wal)
    (run : Run BoundedStep wal events final) :
    ∃ replies log,
      (AbstractLog.fresh config).execAll (events.map WalEvent.op) = (replies, log) ∧
      events.map WalEvent.reply = replies ∧
      final.replay.1 = .ok log.entries ∧
      log.entries.Pairwise (fun earlier later => earlier.seq < later.seq) ∧
      (∀ entry ∈ log.entries, entry.seq < final.currentSequence) ∧
      final.currentSequence.toNat = log.nextSeq ∧
      final.sizeBytes.toNat = final.fd.bytes.length ∧
      final.fd.bytes.length = 16 + (log.entries.map fun entry =>
        40 + entry.action.length + entry.payload.length).sum ∧
      final.entryCount.toNat = log.entries.length ∧
      ∀ timestamp type action payload, action.length < 2 ^ 32 → payload.length < 2 ^ 32 →
        ((final.append timestamp type action payload).1 = .error .resDiskFull ↔
          log.Full action payload) := by
  rw [create_fresh] at created
  cases created
  obtain ⟨replies, refines⟩ := run_refines run (refines_fresh config appendMode)
  generalize outcome : (AbstractLog.fresh config).execAll (events.map WalEvent.op) = pair at *
  obtain ⟨answers, log⟩ := pair
  have held := refines.counted
  have numbers := held.numbered
  obtain ⟨pos, replayed⟩ := replay_holds held.toHolds
  refine ⟨answers, log, rfl, replies, by rw [replayed], ?_, ?_, refines.sequence, held.size,
    refines.length, held.count, ?_⟩
  · exact numbers.ordered.imp fun less => UInt64.lt_iff_toNat_lt.mpr less
  · intro entry member
    exact UInt64.lt_iff_toNat_lt.mpr (numbers.below member)
  · intro timestamp type action payload actionShort payloadShort
    exact append_full refines actionShort payloadShort timestamp type

def pairConfig : WalConfig := { path := ascii "wal.log", maxEntries := 2 }

def pairOps : List WalOp :=
  [.append 7 .addNode (ascii "a") [1, 2], .append 8 .custom [] [], .append 9 .custom [] [],
    .truncate 2, .reopen pairConfig, .append 10 .connect (ascii "bc") [], .replay]

theorem pairOps_taken : ((freshWal pairConfig true).execAll pairOps).map
    (fun outcome => outcome.1.filterMap WalEvent.taken) = some [1, 2, 3] := by
  decide +kernel

theorem wal_refines_log_pair : ∃ events final,
    (freshWal pairConfig true).execAll pairOps = some (events, final) ∧
      final.replay.1 = .ok [
        { seq := 2, timestampNs := 8, type := .custom, action := [], payload := [] },
        { seq := 3, timestampNs := 10, type := .connect, action := ascii "bc", payload := [] }] := by
  obtain ⟨⟨events, final⟩, executed, taken⟩ := Option.map_eq_some_iff.mp pairOps_taken
  have counted := run_of_room (execAll_run executed) (by
    rw [taken]
    simp)
  have ops := execAll_ops executed
  have run := run_of_short counted (by
    rw [ops]
    simp [pairOps, WalOp.Short, ascii])
  obtain ⟨replies, log, outcome, -, replayed, -⟩ :=
    wal_refines_log (create_fresh pairConfig true) run
  refine ⟨events, final, executed, ?_⟩
  rw [ops] at outcome
  have entries : log.entries = ((AbstractLog.fresh pairConfig).execAll pairOps).2.entries := by
    rw [outcome]
  rw [replayed, entries]
  exact congrArg Except.ok (by decide +kernel)

end Udaf
