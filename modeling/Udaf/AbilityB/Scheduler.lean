import Udaf.AbilityA.PeerWhitelist

/-!
`Scheduler` of `ability_b/node/node.cpp`: the whitelist comes in as a callback, which
`is_allowed` asks about its arguments and `schedule` about empty ones.
-/

namespace Udaf

open ByteString

abbrev WhitelistCheck := Bytes → Bytes → Bool

structure Scheduler where
  whitelistCheck : Option WhitelistCheck := none

namespace Scheduler

def setWhitelistCheck (_ : Scheduler) (callback : Option WhitelistCheck) : Scheduler := ⟨callback⟩

def schedule (scheduler : Scheduler) (_nodeId _targetHost : Bytes) : Except ErrorCode Unit :=
  match scheduler.whitelistCheck with
  | some check => if check [] [] = false then .error .bizAuthUntrusted else .ok ()
  | none => .ok ()

def isAllowed (scheduler : Scheduler) (target source : Bytes) : Bool :=
  match scheduler.whitelistCheck with
  | none => false
  | some check => check target source

def ObeysWhitelist (scheduler : Scheduler) (nodeId targetHost : Bytes) : Prop :=
  (scheduler.schedule nodeId targetHost = .ok () →
      ∃ source, scheduler.isAllowed targetHost source = true) ∧
    ((∀ source, scheduler.isAllowed targetHost source = false) →
      scheduler.schedule nodeId targetHost = .error .bizAuthUntrusted)

theorem schedule_error_iff {scheduler : Scheduler} {nodeId targetHost : Bytes} :
    scheduler.schedule nodeId targetHost = .error .bizAuthUntrusted ↔
      ∃ check, scheduler.whitelistCheck = some check ∧ check [] [] = false := by
  rw [schedule]
  cases scheduler.whitelistCheck with
  | none => simp
  | some check => cases answer : check [] [] <;> simp [answer]

theorem schedule_ok_iff {scheduler : Scheduler} {nodeId targetHost : Bytes} :
    scheduler.schedule nodeId targetHost = .ok () ↔
      ∀ check, scheduler.whitelistCheck = some check → check [] [] = true := by
  rw [schedule]
  cases scheduler.whitelistCheck with
  | none => simp
  | some check => cases answer : check [] [] <;> simp [answer]

theorem isAllowed_iff {scheduler : Scheduler} {target source : Bytes} :
    scheduler.isAllowed target source = true ↔
      ∃ check, scheduler.whitelistCheck = some check ∧ check target source = true := by
  rw [isAllowed]
  cases scheduler.whitelistCheck with
  | none => simp
  | some check => simp

/-- The callback has to be there, and to approve this target if it approves the empty one. -/
theorem obeysWhitelist_iff (scheduler : Scheduler) (nodeId targetHost : Bytes) :
    scheduler.ObeysWhitelist nodeId targetHost ↔
      ∃ check, scheduler.whitelistCheck = some check ∧
        (check [] [] = true → ∃ source, check targetHost source = true) := by
  constructor
  · rintro ⟨approved, refused⟩
    cases callback : scheduler.whitelistCheck with
    | none =>
        obtain ⟨source, allowed⟩ := approved (schedule_ok_iff.mpr fun check set => by
          rw [callback] at set
          cases set)
        obtain ⟨check, set, _⟩ := isAllowed_iff.mp allowed
        rw [callback] at set
        cases set
    | some check =>
        refine ⟨check, rfl, ?_⟩
        intro empty
        obtain ⟨source, allowed⟩ := approved (schedule_ok_iff.mpr fun other set => by
          rw [callback] at set
          cases set
          exact empty)
        obtain ⟨other, set, answer⟩ := isAllowed_iff.mp allowed
        rw [callback] at set
        cases set
        exact ⟨source, answer⟩
  · rintro ⟨check, callback, agrees⟩
    constructor
    · intro passes
      obtain ⟨source, answer⟩ := agrees (schedule_ok_iff.mp passes check callback)
      exact ⟨source, isAllowed_iff.mpr ⟨check, callback, answer⟩⟩
    · intro nobody
      refine schedule_error_iff.mpr ⟨check, callback, ?_⟩
      by_contra approves
      obtain ⟨source, answer⟩ := agrees (Bool.of_not_eq_false approves)
      have allowed := isAllowed_iff.mpr ⟨check, callback, answer⟩
      rw [nobody] at allowed
      cases allowed

/-- A callback that approves the empty target and no other. -/
theorem schedule_ignores_target :
    ¬ ∀ (scheduler : Scheduler) (nodeId targetHost : Bytes),
      scheduler.ObeysWhitelist nodeId targetHost := by
  intro claimed
  have approved := (claimed ⟨some fun target _ => target.isEmpty⟩ (ascii "n1") (ascii "host")).1 rfl
  obtain ⟨_, allowed⟩ := approved
  obtain ⟨_, set, answer⟩ := isAllowed_iff.mp allowed
  cases set
  have empty : (ascii "host").isEmpty = true := answer
  exact absurd empty (by decide)

theorem schedule_refuses_all (whitelist : PeerWhitelist) (nodeId targetHost : Bytes) :
    schedule ⟨some fun target _ => whitelist.contains target⟩ nodeId targetHost =
      .error .bizAuthUntrusted := by
  refine schedule_error_iff.mpr ⟨_, rfl, ?_⟩
  by_contra known
  obtain ⟨entry, found⟩ := PeerWhitelist.contains_iff.mp (Bool.of_not_eq_false known)
  obtain ⟨named, valid⟩ := whitelist.keyed [] entry found
  exact valid (.inl named)

end Scheduler

end Udaf
