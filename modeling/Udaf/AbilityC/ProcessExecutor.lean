import Udaf.Core.ErrorCode
import Udaf.Lib.Bytes
import Udaf.Lib.Run
import Mathlib.Logic.Function.Basic

/-!
`ability_c/executor/process_executor.cpp`: a child writes to two pipes, and its parent reads
the one to its end before it looks at the other. A pipe holds `capacity` bytes.
-/

namespace Udaf

open ByteString Runs

namespace ProcessExecutor

structure Options where
  executable : Bytes
  args : List Bytes := []
  allowedExecutables : List Bytes := []

structure Result where
  exitCode : Int := -1
  stdoutText : Bytes := []
  stderrText : Bytes := []

def inWhitelist (exe : Bytes) (allow : List Bytes) : Bool :=
  if allow.isEmpty then false else allow.any fun a => a == exe

inductive Stream where
  | stdout
  | stderr
  deriving DecidableEq

inductive Status where
  | exited (code : UInt8)
  | signaled

def Status.exitCode : Status → Int
  | .exited code => code.toNat
  | .signaled => -1

/-- A child that was spawned: what it writes, byte by byte, and how it ends. -/
structure Child where
  writes : List (Stream × UInt8)
  status : Status

inductive Parent where
  | reading (stream : Stream)
  | waiting
  | returned (result : Result)

def Parent.behind : Stream → Parent
  | .stdout => .reading .stderr
  | .stderr => .waiting

structure Execution where
  writes : List (Stream × UInt8)
  status : Status
  exited : Bool := false
  pipe : Stream → Bytes := fun _ => []
  text : Stream → Bytes := fun _ => []
  parent : Parent := .reading .stdout

def started (child : Child) : Execution := { writes := child.writes, status := child.status }

/-- The part of `execute` up to the first read; the system makes the pipes and runs the program
with the arguments, or fails. -/
def spawn (opts : Options) (piped : Bool) (posixSpawnp : List Bytes → Option Child) :
    Except ErrorCode Execution :=
  if opts.executable.isEmpty then .error .invalidArg
  else if inWhitelist opts.executable opts.allowedExecutables = false then .error .bizAuthUntrusted
  else if piped = false then .error .internal
  else
    match posixSpawnp (opts.executable :: opts.args) with
    | none => .error .internal
    | some child => .ok (started child)

inductive Event where
  | wrote (stream : Stream) (byte : UInt8)
  | exited
  | read (stream : Stream) (buf : Bytes)
  | ended (stream : Stream)
  | reaped

/-- A read takes what is there, up to the size of the buffer, and comes to the end of a pipe once
the child has gone. -/
inductive Step (capacity : Nat) : Execution → Event → Execution → Prop where
  | write {execution : Execution} {stream : Stream} {byte : UInt8} {rest : List (Stream × UInt8)}
      (next : execution.writes = (stream, byte) :: rest)
      (room : (execution.pipe stream).length < capacity) :
      Step capacity execution (.wrote stream byte)
        { execution with
          writes := rest
          pipe := Function.update execution.pipe stream (execution.pipe stream ++ [byte]) }
  | exit {execution : Execution} (done : execution.writes = []) (alive : execution.exited = false) :
      Step capacity execution .exited { execution with exited := true }
  | read {execution : Execution} {stream : Stream} (reads : execution.parent = .reading stream)
      (filled : execution.pipe stream ≠ []) :
      Step capacity execution (.read stream ((execution.pipe stream).take 4096))
        { execution with
          pipe := Function.update execution.pipe stream ((execution.pipe stream).drop 4096)
          text := Function.update execution.text stream
            (execution.text stream ++ (execution.pipe stream).take 4096) }
  | ends {execution : Execution} {stream : Stream} (reads : execution.parent = .reading stream)
      (empty : execution.pipe stream = []) (gone : execution.exited = true) :
      Step capacity execution (.ended stream) { execution with parent := .behind stream }
  | waitpid {execution : Execution} (waits : execution.parent = .waiting)
      (gone : execution.exited = true) :
      Step capacity execution .reaped
        { execution with parent := .returned ⟨execution.status.exitCode, execution.text .stdout,
            execution.text .stderr⟩ }

def Execution.ParentBlocked (execution : Execution) : Prop :=
  ∃ stream, execution.parent = .reading stream ∧ execution.pipe stream = [] ∧
    execution.exited = false

def Execution.ChildBlocked (capacity : Nat) (execution : Execution) : Prop :=
  ∃ stream byte rest, execution.writes = (stream, byte) :: rest ∧
    capacity ≤ (execution.pipe stream).length

def bytesOf (stream : Stream) (writes : List (Stream × UInt8)) : Bytes :=
  writes.filterMap fun write => if write.1 = stream then some write.2 else none

/-- No state of any run is a deadlock, and what `execute` returns is what the child wrote. -/
def Sound (capacity : Nat) (child : Child) : Prop :=
  ∀ events final, Run (Step capacity) (started child) events final →
    ¬ (final.ParentBlocked ∧ final.ChildBlocked capacity) ∧
      ∀ result, final.parent = .returned result →
        result.stdoutText = bytesOf .stdout child.writes ∧
          result.stderrText = bytesOf .stderr child.writes

@[simp] theorem bytesOf_nil (stream : Stream) : bytesOf stream [] = [] := rfl

@[simp] theorem bytesOf_same (stream : Stream) (byte : UInt8) (rest : List (Stream × UInt8)) :
    bytesOf stream ((stream, byte) :: rest) = byte :: bytesOf stream rest := by
  simp [bytesOf]

theorem bytesOf_other {stream other : Stream} (apart : other ≠ stream) (byte : UInt8)
    (rest : List (Stream × UInt8)) :
    bytesOf stream ((other, byte) :: rest) = bytesOf stream rest := by
  simp [bytesOf, apart]

structure Invariant (writes : List (Stream × UInt8)) (execution : Execution) : Prop where
  balance : ∀ stream, execution.text stream ++ execution.pipe stream ++
    bytesOf stream execution.writes = bytesOf stream writes
  finished : execution.exited = true → execution.writes = []
  first : execution.parent = .reading .stdout → execution.text .stderr = []
  past : execution.parent ≠ .reading .stdout → execution.exited = true ∧ execution.pipe .stdout = []
  drained : (∀ stream, execution.parent ≠ .reading stream) → execution.pipe .stderr = []
  result : ∀ result, execution.parent = .returned result →
    result.stdoutText = execution.text .stdout ∧ result.stderrText = execution.text .stderr

theorem inWhitelist_iff {exe : Bytes} {allow : List Bytes} :
    inWhitelist exe allow = true ↔ exe ∈ allow := by
  cases allow with
  | nil => simp [inWhitelist]
  | cons first rest =>
      rw [inWhitelist, if_neg (by simp), List.any_eq_true]
      constructor
      · rintro ⟨a, member, same⟩
        rwa [← beq_iff_eq.mp same]
      · intro member
        exact ⟨exe, member, beq_iff_eq.mpr rfl⟩

theorem spawn_ok_iff {opts : Options} {piped : Bool} {posixSpawnp : List Bytes → Option Child}
    {execution : Execution} :
    spawn opts piped posixSpawnp = .ok execution ↔
      opts.executable ≠ [] ∧ opts.executable ∈ opts.allowedExecutables ∧ piped = true ∧
        ∃ child, posixSpawnp (opts.executable :: opts.args) = some child ∧
          execution = started child := by
  rw [spawn, ← inWhitelist_iff]
  by_cases unnamed : opts.executable = []
  · simp [unnamed]
  · cases allowed : inWhitelist opts.executable opts.allowedExecutables with
    | false => simp [unnamed]
    | true =>
        cases piped with
        | false => simp [unnamed]
        | true =>
            cases posixSpawnp (opts.executable :: opts.args) with
            | none => simp [unnamed]
            | some child =>
                have swap : started child = execution ↔ execution = started child := eq_comm
                simp [unnamed, swap]

theorem start_invariant (child : Child) : Invariant child.writes (started child) where
  balance := by simp [started]
  finished := by simp [started]
  first := by simp [started]
  past := by simp [started]
  drained := fun nothing => absurd rfl (nothing .stdout)
  result := by simp [started]

theorem Invariant.write {writes rest : List (Stream × UInt8)} {execution : Execution}
    (invariant : Invariant writes execution) {stream : Stream} {byte : UInt8}
    (next : execution.writes = (stream, byte) :: rest) :
    Invariant writes { execution with
      writes := rest
      pipe := Function.update execution.pipe stream (execution.pipe stream ++ [byte]) } := by
  have alive : execution.exited = false := by
    by_contra gone
    rw [invariant.finished (Bool.of_not_eq_false gone)] at next
    cases next
  have reads : execution.parent = .reading .stdout := by
    by_contra later
    rw [(invariant.past later).1] at alive
    cases alive
  refine ⟨?_, ?_, invariant.first, ?_, ?_, invariant.result⟩
  · intro other
    have balance := invariant.balance other
    rw [next] at balance
    by_cases same : other = stream
    · subst same
      rw [bytesOf_same] at balance
      simp only [Function.update_self, ← balance, List.append_assoc, List.singleton_append]
    · rw [bytesOf_other (Ne.symm same)] at balance
      simp only [Function.update_of_ne same, balance]
  · intro gone
    rw [alive] at gone
    cases gone
  · intro later
    exact absurd reads later
  · intro nothing
    exact absurd reads (nothing .stdout)

theorem Invariant.read {writes : List (Stream × UInt8)} {execution : Execution}
    (invariant : Invariant writes execution) {stream : Stream}
    (reads : execution.parent = .reading stream) (count : Nat) :
    Invariant writes { execution with
      pipe := Function.update execution.pipe stream ((execution.pipe stream).drop count)
      text := Function.update execution.text stream
        (execution.text stream ++ (execution.pipe stream).take count) } := by
  refine ⟨?_, invariant.finished, ?_, ?_, ?_, ?_⟩
  · intro other
    have balance := invariant.balance other
    by_cases same : other = stream
    · subst same
      simp only [Function.update_self]
      rw [List.append_assoc (execution.text other), List.take_append_drop, balance]
    · simp only [Function.update_of_ne same, balance]
  · intro first
    have other : Stream.stderr ≠ stream := by
      rintro rfl
      rw [reads] at first
      cases first
    exact (Function.update_of_ne other _ _).trans (invariant.first first)
  · intro later
    obtain ⟨gone, empty⟩ := invariant.past later
    have other : Stream.stdout ≠ stream := by
      rintro rfl
      exact later reads
    exact ⟨gone, (Function.update_of_ne other _ _).trans empty⟩
  · intro nothing
    exact absurd reads (nothing stream)
  · intro result returned
    rw [reads] at returned
    cases returned

theorem Invariant.ends {writes : List (Stream × UInt8)} {execution : Execution}
    (invariant : Invariant writes execution) {stream : Stream}
    (reads : execution.parent = .reading stream) (empty : execution.pipe stream = [])
    (gone : execution.exited = true) :
    Invariant writes { execution with parent := .behind stream } := by
  cases stream with
  | stdout =>
      refine ⟨invariant.balance, invariant.finished, ?_, fun _ => ⟨gone, empty⟩, ?_, ?_⟩
      · intro first
        cases first
      · intro nothing
        exact absurd rfl (nothing .stderr)
      · intro result returned
        cases returned
  | stderr =>
      have before := invariant.past (by rw [reads]; simp)
      refine ⟨invariant.balance, invariant.finished, ?_, fun _ => before, fun _ => empty, ?_⟩
      · intro first
        cases first
      · intro result returned
        cases returned

theorem step_invariant {capacity : Nat} {writes : List (Stream × UInt8)}
    {execution next : Execution} {event : Event} (step : Step capacity execution event next)
    (invariant : Invariant writes execution) : Invariant writes next := by
  cases step with
  | write head room => exact invariant.write head
  | exit done alive =>
      exact ⟨invariant.balance, fun _ => done, invariant.first,
        fun later => ⟨rfl, (invariant.past later).2⟩, invariant.drained, invariant.result⟩
  | read reads filled => exact invariant.read reads 4096
  | ends reads empty gone => exact invariant.ends reads empty gone
  | waitpid waits gone =>
      have before := invariant.past (by rw [waits]; simp)
      have drained := invariant.drained (by rw [waits]; simp)
      refine ⟨invariant.balance, invariant.finished, ?_, fun _ => before, fun _ => drained, ?_⟩
      · intro first
        cases first
      · intro result returned
        cases returned
        exact ⟨rfl, rfl⟩

theorem run_invariant {capacity : Nat} {child : Child} {events : List Event} {final : Execution}
    (run : Run (Step capacity) (started child) events final) : Invariant child.writes final :=
  @Run.history _ _ _ (fun _ execution => Invariant child.writes execution)
    (fun step invariant => step_invariant step invariant) [] _ _ _ run (start_invariant child)

theorem Invariant.returned {writes : List (Stream × UInt8)} {execution : Execution}
    (invariant : Invariant writes execution) {result : Result}
    (returned : execution.parent = .returned result) :
    result.stdoutText = bytesOf .stdout writes ∧ result.stderrText = bytesOf .stderr writes := by
  obtain ⟨gone, emptyOut⟩ := invariant.past (by rw [returned]; simp)
  have emptyErr := invariant.drained (by rw [returned]; simp)
  have out := invariant.balance .stdout
  have err := invariant.balance .stderr
  rw [invariant.finished gone, emptyOut, bytesOf_nil, List.append_nil, List.append_nil] at out
  rw [invariant.finished gone, emptyErr, bytesOf_nil, List.append_nil, List.append_nil] at err
  rw [← out, ← err]
  exact invariant.result result returned

theorem Invariant.no_deadlock {writes : List (Stream × UInt8)} {execution : Execution}
    (invariant : Invariant writes execution) {capacity : Nat} (positive : 0 < capacity)
    (fits : (bytesOf .stderr writes).length ≤ capacity) :
    ¬ (execution.ParentBlocked ∧ execution.ChildBlocked capacity) := by
  rintro ⟨⟨stream, reads, empty, alive⟩, other, byte, rest, next, full⟩
  have first : execution.parent = .reading .stdout := by
    by_contra later
    rw [(invariant.past later).1] at alive
    cases alive
  rw [first] at reads
  cases reads
  cases other with
  | stdout =>
      rw [empty, List.length_nil] at full
      omega
  | stderr =>
      have balance := congrArg List.length (invariant.balance .stderr)
      rw [invariant.first first, next, bytesOf_same] at balance
      simp only [List.length_append, List.length_cons, List.length_nil] at balance
      omega

theorem deadlock_reachable {capacity : Nat} (positive : 0 < capacity) {execution : Execution}
    (reads : execution.parent = .reading .stdout) (empty : execution.pipe .stdout = [])
    (alive : execution.exited = false)
    (more : capacity < (execution.pipe .stderr ++ bytesOf .stderr execution.writes).length)
    (within : (execution.pipe .stderr).length ≤ capacity) :
    ∃ events final, Run (Step capacity) execution events final ∧ final.ParentBlocked ∧
      final.ChildBlocked capacity := by
  obtain ⟨writes, status, exited, pipe, text, parent⟩ := execution
  simp only at reads empty alive more within
  induction writes generalizing pipe text with
  | nil =>
      rw [bytesOf_nil, List.append_nil] at more
      omega
  | cons write rest ih =>
      obtain ⟨stream, byte⟩ := write
      cases stream with
      | stdout =>
          rw [bytesOf_other (by decide)] at more
          have wrote := @Step.write capacity ⟨(.stdout, byte) :: rest, status, exited, pipe, text, parent⟩
            .stdout byte rest rfl (by simpa [empty] using positive)
          simp only [empty, List.nil_append] at wrote
          have read := @Step.read capacity
            ⟨rest, status, exited, Function.update pipe .stdout [byte], text, parent⟩ .stdout reads
            (by simp)
          obtain ⟨events, final, run, blocked⟩ := ih
            (Function.update (Function.update pipe .stdout [byte]) .stdout
              ((Function.update pipe .stdout [byte] .stdout).drop 4096)) _ (by simp)
            (by simpa using more) (by simpa using within)
          exact ⟨_, final, .cons wrote (.cons read run), blocked⟩
      | stderr =>
          by_cases room : (pipe .stderr).length < capacity
          · have wrote := @Step.write capacity
              ⟨(.stderr, byte) :: rest, status, exited, pipe, text, parent⟩ .stderr byte rest rfl room
            obtain ⟨events, final, run, blocked⟩ := ih
              (Function.update pipe .stderr (pipe .stderr ++ [byte])) text (by simpa using empty)
              (by simpa [bytesOf_same] using more)
              (by rwa [Function.update_self, List.length_append])
            exact ⟨_, final, .cons wrote run, blocked⟩
          · exact ⟨[], _, .nil, ⟨.stdout, reads, empty, alive⟩,
              .stderr, byte, rest, rfl, Nat.le_of_not_lt room⟩

/-- No interleaving blocks exactly when stderr fits into its pipe. -/
theorem sound_iff {capacity : Nat} (positive : 0 < capacity) (child : Child) :
    Sound capacity child ↔ (bytesOf .stderr child.writes).length ≤ capacity := by
  constructor
  · intro sound
    by_contra more
    obtain ⟨events, final, run, blocked⟩ := @deadlock_reachable capacity positive (started child)
      rfl rfl rfl (Nat.lt_of_not_le more) (Nat.zero_le _)
    exact (sound events final run).1 blocked
  · intro fits events final run
    have invariant := run_invariant run
    exact ⟨invariant.no_deadlock positive fits, fun result returned => invariant.returned returned⟩

def writing (stream : Stream) (count : Nat) (byte : UInt8) : Child where
  writes := List.replicate count (stream, byte)
  status := .exited 0

theorem bytesOf_writing (stream : Stream) (count : Nat) (byte : UInt8) :
    bytesOf stream (writing stream count byte).writes = List.replicate count byte :=
  List.filterMap_replicate_of_some (if_pos rfl)

/-- A child that writes one byte more to stderr than a pipe of 64 KiB holds. -/
theorem stderr_deadlock :
    ¬ ∀ (capacity : Nat) (child : Child), 0 < capacity → Sound capacity child := by
  intro claimed
  have more : 65536 < (bytesOf .stderr (writing .stderr 65537 0x65).writes).length := by
    rw [bytesOf_writing, List.length_replicate]
    decide
  obtain ⟨events, final, run, blocked⟩ := @deadlock_reachable 65536 (by decide)
    (started (writing .stderr 65537 0x65)) rfl rfl rfl more (Nat.zero_le _)
  exact (claimed 65536 _ (by decide) events final run).1 blocked

theorem sound_iff_full : Sound 65536 (writing .stderr 65536 0x65) := by
  refine (sound_iff (by decide) _).mpr ?_
  rw [bytesOf_writing, List.length_replicate]

end ProcessExecutor

end Udaf
