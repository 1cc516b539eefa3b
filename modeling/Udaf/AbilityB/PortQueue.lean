import Udaf.AbilityB.Port

/-!
A port loses nothing: at every moment of a run, what was accepted is what was returned,
in that order, and then what is queued.
-/

namespace Udaf

open Runs

namespace InputPort

variable {τ ι : Type}

def Label.accepted : Label τ → List τ
  | .pushed v (.ok _) => [v]
  | _ => []

def Label.returned : Label τ → List τ
  | .received (.ok v) => [v]
  | _ => []

def accepted (events : List (Event τ ι)) : List τ := events.flatMap fun event => event.label.accepted

def returned (events : List (Event τ ι)) : List τ := events.flatMap fun event => event.label.returned

inductive Effect (port : InputPort τ) : Label τ → InputPort τ → Prop where
  | accepts (v : τ) (room : 0 < port.capacity → port.queue.length < port.capacity) :
      Effect port (.pushed v (.ok ())) { port with queue := port.queue ++ [v] }
  | refuses (v : τ) (bounded : 0 < port.capacity) (full : port.capacity ≤ port.queue.length) :
      Effect port (.pushed v (.error .resourceBusy)) port
  | returns {front : τ} {behind : List τ} (holds : port.queue = front :: behind) :
      Effect port (.received (.ok front)) { port with queue := behind }
  | finds (code : ErrorCode) (reported : code = .bizServiceNotFound ∨ code = .netTimeout)
      (empty : port.queue = []) : Effect port (.received (.error code)) port
  | waits : Effect port .waits port
  | roused : Effect port .roused port
  | timedOut : Effect port .timedOut port

theorem Effect.queue {port after : InputPort τ} {label : Label τ} (effect : Effect port label after) :
    port.queue ++ label.accepted = label.returned ++ after.queue := by
  cases effect with
  | returns holds => exact (List.append_nil _).trans holds
  | accepts => rfl
  | refuses | finds | waits | roused | timedOut => exact List.append_nil _

theorem push_effect (port : InputPort τ) (v : τ) :
    Effect port (.pushed v (port.push v).1) (port.push v).2 := by
  rw [push]
  by_cases full : 0 < port.capacity ∧ port.capacity ≤ port.queue.length
  · rw [if_pos full]
    exact .refuses v full.1 full.2
  · rw [if_neg full]
    exact .accepts v (by omega)

theorem takeFront_effect (port : InputPort τ) {code : ErrorCode}
    (reported : code = .bizServiceNotFound ∨ code = .netTimeout) :
    Effect port (.received (port.takeFront code).1) (port.takeFront code).2 := by
  rw [takeFront]
  cases holds : port.queue with
  | nil => exact .finds code reported holds
  | cons front behind => exact .returns holds

theorem recheck_effect (port : InputPort τ) (expired : Bool) :
    Effect port (port.recheck expired).1.label (port.recheck expired).2 := by
  rw [recheck]
  by_cases again : port.queue.isEmpty ∧ expired = false
  · rw [if_pos again]
    exact .waits
  · rw [if_neg again]
    exact takeFront_effect port (.inr rfl)

theorem recvEnter_effect (port : InputPort τ) (timeoutMs : Int) :
    Effect port (port.recvEnter timeoutMs).1.label (port.recvEnter timeoutMs).2 := by
  rw [recvEnter]
  by_cases enters : port.queue.isEmpty ∧ timeoutMs ≠ 0
  · rw [if_pos enters]
    exact recheck_effect port false
  · rw [if_neg enters]
    exact takeFront_effect port (.inr rfl)

theorem Sends.effect {port after : InputPort τ} {v : τ} {result : Except ErrorCode Unit}
    (sends : Sends port v result after) : Effect port (.pushed v result) after := by
  have pushed := push_effect port v
  rcases sends with direct | bound
  · rw [direct] at pushed
    exact pushed
  · cases bound
    exact pushed

theorem step_effect [DecidableEq ι] {system next : System τ ι} {event : Event τ ι}
    (step : Step system event next) :
    event.before = system.port ∧ event.after = next.port ∧
      Effect event.before event.label event.after := by
  cases step with
  | refused _ sends => exact ⟨rfl, rfl, sends.effect⟩
  | notifies _ sends => exact ⟨rfl, rfl, sends.effect⟩
  | unheard _ sends => exact ⟨rfl, rfl, sends.effect⟩
  | tries _ tried =>
      have effect := takeFront_effect system.port (.inl rfl)
      rw [tryRecv] at tried
      rw [tried] at effect
      exact ⟨rfl, rfl, effect⟩
  | recvEnters _ timeoutMs entered =>
      have effect := recvEnter_effect system.port timeoutMs
      rw [entered] at effect
      exact ⟨rfl, rfl, effect⟩
  | rouse => exact ⟨rfl, rfl, .roused⟩
  | timeOut => exact ⟨rfl, rfl, .timedOut⟩
  | rechecks _ rechecked =>
      have effect := recheck_effect system.port false
      rw [rechecked] at effect
      exact ⟨rfl, rfl, effect⟩
  | rechecksLast _ rechecked =>
      have effect := recheck_effect system.port true
      rw [rechecked] at effect
      exact ⟨rfl, rfl, effect⟩

structure Ledger (port : InputPort τ) (accepted returned : List τ) : Prop where
  balance : accepted = returned ++ port.queue
  room : 0 < port.capacity → port.queue.length ≤ port.capacity

theorem Ledger.effect {port after : InputPort τ} {accepted returned : List τ} {label : Label τ}
    (ledger : port.Ledger accepted returned) (effect : Effect port label after) :
    after.Ledger (accepted ++ label.accepted) (returned ++ label.returned) := by
  obtain ⟨balance, room⟩ := ledger
  cases effect with
  | accepts v below =>
      constructor
      · simp [Label.accepted, Label.returned, balance]
      · intro bounded
        have spare := below bounded
        simp only [List.length_append, List.length_singleton]
        omega
  | refuses => exact ⟨by simp [Label.accepted, Label.returned, balance], room⟩
  | returns holds =>
      constructor
      · simp [Label.accepted, Label.returned, balance, holds]
      · intro bounded
        have full := room bounded
        rw [holds, List.length_cons] at full
        exact Nat.le_of_succ_le full
  | finds => exact ⟨by simp [Label.accepted, Label.returned, balance], room⟩
  | waits => exact ⟨by simp [Label.accepted, Label.returned, balance], room⟩
  | roused => exact ⟨by simp [Label.accepted, Label.returned, balance], room⟩
  | timedOut => exact ⟨by simp [Label.accepted, Label.returned, balance], room⟩

theorem Effect.capacity_eq {port after : InputPort τ} {label : Label τ}
    (effect : Effect port label after) : after.capacity = port.capacity := by
  cases effect <;> rfl

theorem Effect.busy_iff {port after : InputPort τ} {v : τ} {result : Except ErrorCode Unit}
    (effect : Effect port (.pushed v result) after) :
    (result = .error .resourceBusy ↔ 0 < port.capacity ∧ port.capacity ≤ port.queue.length) ∧
      (result ≠ .error .resourceBusy → result = .ok ()) := by
  cases effect with
  | accepts _ room =>
      constructor
      · constructor
        · intro busy
          cases busy
        · intro full
          have below := room full.1
          omega
      · intro _
        rfl
  | refuses _ bounded full => exact ⟨⟨fun _ => ⟨bounded, full⟩, fun _ => rfl⟩, fun other => absurd rfl other⟩

theorem Effect.empty_of_error {port after : InputPort τ} {code : ErrorCode}
    (effect : Effect port (.received (.error code)) after) :
    port.queue = [] ∧ after.queue = port.queue := by
  cases effect with
  | finds _ _ empty => exact ⟨empty, rfl⟩

/-- A queue of one capacity, over a whole run. -/
structure BoundedLossless (capacity : Nat) (events : List (Event τ ι)) (port : InputPort τ) :
    Prop where
  /-- The values come back in the order in which they were accepted, each once. -/
  balance : accepted events = returned events ++ port.queue
  bounded : 0 < capacity → port.queue.length ≤ capacity
  /-- Every call met the queue with what was accepted and not yet returned. -/
  before : ∀ past event later, events = past ++ event :: later →
    accepted past = returned past ++ event.before.queue
  busy : ∀ event ∈ events, ∀ v result, event.label = .pushed v result →
    (result = .error .resourceBusy ↔ 0 < capacity ∧ capacity ≤ event.before.queue.length) ∧
      (result ≠ .error .resourceBusy → result = .ok ())
  empty : ∀ event ∈ events, ∀ code, event.label = .received (.error code) →
    event.before.queue = [] ∧ event.after.queue = event.before.queue

def Tracked (capacity : Nat) (past : List (Event τ ι)) (system : System τ ι) : Prop :=
  system.port.Ledger (accepted past) (returned past) ∧ system.port.capacity = capacity

variable [DecidableEq ι]

theorem step_tracked {capacity : Nat} {past : List (Event τ ι)} {system next : System τ ι}
    {event : Event τ ι} (step : Step system event next) (tracked : Tracked capacity past system) :
    Tracked capacity (past ++ [event]) next := by
  obtain ⟨ledger, same⟩ := tracked
  obtain ⟨before, after, effect⟩ := step_effect step
  rw [before, after] at effect
  constructor
  · simpa [accepted, returned] using ledger.effect effect
  · rw [effect.capacity_eq, same]

theorem run_tracked {capacity : Nat} {events : List (Event τ ι)} {final : System τ ι}
    (run : Run Step { port := { capacity := capacity } } events final) :
    Tracked capacity events final := by
  have start : Tracked capacity [] ({ port := { capacity := capacity } } : System τ ι) :=
    ⟨⟨rfl, fun _ => Nat.zero_le _⟩, rfl⟩
  exact run.history step_tracked start

/-- Any interleaving of calls keeps a port a lossless queue of its capacity. -/
theorem ports_boundedLossless {capacity : Nat} {events : List (Event τ ι)} {final : System τ ι}
    (run : Run Step { port := { capacity := capacity } } events final) :
    BoundedLossless capacity events final.port := by
  obtain ⟨⟨balance, room⟩, same⟩ := run_tracked run
  have each : ∀ past event later, events = past ++ event :: later →
      accepted past = returned past ++ event.before.queue ∧ event.before.capacity = capacity ∧
        Effect event.before event.label event.after := by
    intro past event later split
    obtain ⟨middle, next, first, step⟩ := (split ▸ run).before
    obtain ⟨ledger, still⟩ := run_tracked first
    obtain ⟨before, -, effect⟩ := step_effect step
    rw [before] at effect ⊢
    exact ⟨ledger.balance, still, effect⟩
  refine ⟨balance, ?_, ?_, ?_, ?_⟩
  · intro bounded
    rw [same] at room
    exact room bounded
  · intro past event later split
    exact (each past event later split).1
  · intro event member v result pushed
    obtain ⟨past, later, split⟩ := List.append_of_mem member
    obtain ⟨-, still, effect⟩ := each past event later split
    rw [pushed] at effect
    rw [← still]
    exact effect.busy_iff
  · intro event member code received
    obtain ⟨past, later, split⟩ := List.append_of_mem member
    obtain ⟨-, -, effect⟩ := each past event later split
    rw [received] at effect
    exact effect.empty_of_error

def sampleEvents : List (Event Nat Nat) :=
  let none : InputPort Nat := { capacity := 1 }
  let one (v : Nat) : InputPort Nat := { capacity := 1, queue := [v] }
  [⟨0, none, .waits, none⟩, ⟨1, none, .pushed 7 (.ok ()), one 7⟩,
    ⟨2, one 7, .received (.ok 7), none⟩, ⟨0, none, .waits, none⟩,
    ⟨1, none, .pushed 8 (.ok ()), one 8⟩, ⟨2, one 8, .pushed 9 (.error .resourceBusy), one 8⟩,
    ⟨0, one 8, .received (.ok 8), none⟩, ⟨2, none, .received (.error .bizServiceNotFound), none⟩]

theorem sampleEvents_run :
    ∃ final : System Nat Nat, final.port.queue = [] ∧
      Run Step { port := { capacity := 1 } } sampleEvents final := by
  refine ⟨_, ?_, .cons (.recvEnters rfl (-1) rfl)
    (.cons (@Step.notifies _ _ _ _ _ 0 rfl _ _ (.inl rfl) _ rfl)
    (.cons (.tries rfl rfl) (.cons (.rechecks rfl rfl)
    (.cons (@Step.notifies _ _ _ _ _ 0 rfl _ _ (.inr rfl) _ rfl) (.cons (.refused rfl (.inr rfl))
    (.cons (.rechecks rfl rfl) (.cons (.tries rfl rfl) .nil)))))))⟩
  rfl

theorem ports_boundedLossless_sample :
    ∃ final : System Nat Nat, final.port.queue = [] ∧ BoundedLossless 1 sampleEvents final.port ∧
      accepted sampleEvents = [7, 8] ∧ returned sampleEvents = [7, 8] := by
  obtain ⟨final, empty, run⟩ := sampleEvents_run
  exact ⟨final, empty, ports_boundedLossless run, rfl, rfl⟩

end InputPort

namespace OutputPort

variable {τ : Type}

def held (port : OutputPort τ) : List τ :=
  match port.target with
  | none => []
  | some target => target.queue

end OutputPort

end Udaf
