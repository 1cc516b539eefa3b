import Udaf.AbilityA.RegistryDispatch

/-!
No callback after the end of its subscription. A notification works on a copy of the
list of subscribers, so an unsubscription silences its callback only if no notification
that is under way still has that callback to start.
-/

namespace Udaf

open ByteString Runs

namespace Registry

def Frame.Pends (id : UInt64) (since : Nat) : Frame → Prop
  | .notifying _ cbs => ∃ callable < since, (id, some callable) ∈ cbs
  | _ => False

/-- No notification is still going to start what the call that returns has unsubscribed. -/
def Event.Calm (system : System) : Event → Prop
  | .unsubscribed id since => ∀ stack ∈ system.threads, ∀ frame ∈ stack, ¬ frame.Pends id since
  | _ => True

def CalmStep (system : System) (event : Event) (next : System) : Prop :=
  Step system event next ∧ event.Calm system

/-- Whatever is started under an id after an unsubscription of it has returned was subscribed since
the unsubscription. -/
def Silent (events : List Event) : Prop :=
  ∀ past middle rest id since callable notice,
    events = past ++ .unsubscribed id since :: (middle ++ .started id callable notice :: rest) →
      since ≤ callable

structure Erased (id : UInt64) (since : Nat) (shared : Shared) : Prop where
  bound : since ≤ shared.subscriptions
  newer : ∀ callable, shared.registry.subs.lookup id = some (some callable) → since ≤ callable

section Steps

variable {shared after : Shared} {stack next : List Frame} {event : Event} {id : UInt64}
  {since : Nat}

theorem Erased.step (erased : Erased id since shared)
    (step : ThreadStep shared stack event after next) : Erased id since after := by
  cases step with
  | reject free result =>
      cases ServiceRegistry.registerNode_error result
      exact erased
  | register free result about =>
      obtain ⟨_, rfl⟩ := ServiceRegistry.registerNode_ok result
      exact ⟨erased.bound, erased.newer⟩
  | unregisterAbsent free result =>
      cases ServiceRegistry.unregisterNode_none result
      exact erased
  | unregister free result about =>
      obtain ⟨_, rfl⟩ := ServiceRegistry.unregisterNode_some result
      exact ⟨erased.bound, erased.newer⟩
  | subscribe free empty vacant result =>
      cases result
      refine ⟨Nat.le_succ_of_le erased.bound, ?_⟩
      intro callable found
      simp only [Table.lookup_set] at found
      split at found
      · split at found <;> cases found
        exact erased.bound
      · exact erased.newer callable found
  | erase free unsubscribes =>
      refine ⟨erased.bound, ?_⟩
      intro callable found
      simp only [ServiceRegistry.unsubscribe, Table.lookup_remove] at found
      split at found
      · cases found
      · exact erased.newer callable found
  | _ => exact ⟨erased.bound, erased.newer⟩

theorem pends_step (erased : Erased id since shared)
    (step : ThreadStep shared stack event after next)
    (calm : ∀ frame ∈ stack, ¬ frame.Pends id since) : ∀ frame ∈ next, ¬ frame.Pends id since := by
  intro frame member pends
  cases step with
  | copy order =>
      rcases List.mem_cons.mp member with rfl | old
      · obtain ⟨callable, older, copied⟩ := pends
        obtain ⟨entry, inside, same⟩ := List.mem_map.mp (order.mem_iff.mp copied)
        have found : shared.registry.subs.lookup id = some (some callable) := by
          refine Table.lookup_eq_some.mpr ?_
          cases entry
          cases same
          exact inside
        have newer := erased.newer callable found
        omega
      · exact calm frame (List.mem_cons_of_mem _ old) pends
  | start =>
      rcases List.mem_cons.mp member with rfl | old
      · exact pends
      · rcases List.mem_cons.mp old with rfl | older
        · obtain ⟨callable, before, inside⟩ := pends
          exact calm _ (List.mem_cons_self ..)
            ⟨callable, before, List.mem_cons_of_mem _ inside⟩
        · exact calm frame (List.mem_cons_of_mem _ older) pends
  | skip =>
      rcases List.mem_cons.mp member with rfl | old
      · obtain ⟨callable, before, inside⟩ := pends
        exact calm _ (List.mem_cons_self ..) ⟨callable, before, List.mem_cons_of_mem _ inside⟩
      · exact calm frame (List.mem_cons_of_mem _ old) pends
  | register free result about =>
      rcases List.mem_cons.mp member with rfl | old
      · exact pends
      · exact calm frame old pends
  | unregister free result about =>
      rcases List.mem_cons.mp member with rfl | old
      · exact pends
      · exact calm frame old pends
  | erase free unsubscribes =>
      rcases List.mem_cons.mp member with rfl | old
      · exact pends
      · exact calm frame old pends
  | finish => exact calm frame (List.mem_cons_of_mem _ member) pends
  | notified => exact calm frame (List.mem_cons_of_mem _ member) pends
  | unsubscribed => exact calm frame (List.mem_cons_of_mem _ member) pends
  | _ => exact calm frame member pends

def Frame.Underway (shared : Shared) : Frame → Prop
  | .unsubscribing id since _ => Erased id since shared
  | _ => True

theorem Frame.Underway.step {frame : Frame} (underway : frame.Underway shared)
    (step : ThreadStep shared stack event after next) : frame.Underway after := by
  cases frame with
  | unsubscribing id since call => exact Erased.step underway step
  | _ => trivial

theorem underway_step (step : ThreadStep shared stack event after next)
    (underway : ∀ frame ∈ stack, frame.Underway shared) :
    ∀ frame ∈ next, frame.Underway after := by
  have kept : ∀ frame ∈ stack, frame.Underway after :=
    fun frame member => (underway frame member).step step
  intro frame member
  cases step with
  | erase free unsubscribes =>
      rcases List.mem_cons.mp member with rfl | old
      · refine ⟨Nat.le_refl _, ?_⟩
        intro callable found
        simp only [ServiceRegistry.unsubscribe, Table.lookup_remove, if_pos] at found
        cases found
      · exact kept frame old
  | register free result about =>
      rcases List.mem_cons.mp member with rfl | old
      · trivial
      · exact kept frame old
  | unregister free result about =>
      rcases List.mem_cons.mp member with rfl | old
      · trivial
      · exact kept frame old
  | copy order =>
      rcases List.mem_cons.mp member with rfl | old
      · trivial
      · exact kept frame (List.mem_cons_of_mem _ old)
  | start =>
      rcases List.mem_cons.mp member with rfl | old
      · trivial
      · rcases List.mem_cons.mp old with rfl | older
        · trivial
        · exact kept frame (List.mem_cons_of_mem _ older)
  | skip =>
      rcases List.mem_cons.mp member with rfl | old
      · trivial
      · exact kept frame (List.mem_cons_of_mem _ old)
  | finish => exact kept frame (List.mem_cons_of_mem _ member)
  | notified => exact kept frame (List.mem_cons_of_mem _ member)
  | unsubscribed => exact kept frame (List.mem_cons_of_mem _ member)
  | _ => exact kept frame member

end Steps

structure Silenced (past : List Event) (system : System) : Prop where
  erased : ∀ id since, .unsubscribed id since ∈ past → Erased id since system.shared
  calm : ∀ id since, .unsubscribed id since ∈ past →
    ∀ stack ∈ system.threads, ∀ frame ∈ stack, ¬ frame.Pends id since
  underway : ∀ stack ∈ system.threads, ∀ frame ∈ stack, frame.Underway system.shared

theorem mem_replaced {front back : List (List Frame)} {stack next other : List Frame}
    (member : other ∈ front ++ next :: back) :
    other = next ∨ other ∈ front ++ stack :: back := by
  rw [List.mem_append, List.mem_cons] at member ⊢
  tauto

theorem Silenced.step {past : List Event} {system next : System} {event : Event}
    (step : CalmStep system event next) (silenced : Silenced past system) :
    Silenced (past ++ [event]) next := by
  obtain ⟨step, calm⟩ := step
  cases step with
  | @thread shared after front back stack rest event step =>
      have here : stack ∈ front ++ stack :: back := List.mem_append_right _ (List.mem_cons_self ..)
      have before : ∀ id since, Event.unsubscribed id since ∈ past ++ [event] →
          Erased id since shared ∧
            ∀ other ∈ front ++ stack :: back, ∀ frame ∈ other, ¬ frame.Pends id since := by
        intro id since member
        rcases List.mem_append.mp member with old | new
        · exact ⟨silenced.erased id since old, silenced.calm id since old⟩
        · cases List.mem_singleton.mp new
          refine ⟨?_, calm⟩
          cases step with
          | unsubscribed => exact silenced.underway _ here _ (List.mem_cons_self ..)
      refine ⟨?_, ?_, ?_⟩
      · intro id since member
        exact (before id since member).1.step step
      · intro id since member other inside
        obtain ⟨erased, quiet⟩ := before id since member
        rcases mem_replaced inside with rfl | same
        · exact pends_step erased step (quiet stack here)
        · exact quiet other same
      · intro other inside
        rcases mem_replaced inside with rfl | same
        · exact underway_step step (silenced.underway stack here)
        · intro frame member
          exact (silenced.underway other same frame member).step step

theorem initial_silenced (threads : Nat) : Silenced [] { threads := List.replicate threads [] } where
  erased := by
    intro id since member
    cases member
  calm := by
    intro id since member
    cases member
  underway := by
    intro stack member
    rw [List.eq_of_mem_replicate member]
    intro frame inside
    cases inside

theorem run_silenced {threads : Nat} {events : List Event} {final : System}
    (run : Run CalmStep { threads := List.replicate threads [] } events final) :
    Silenced events final :=
  run.history Silenced.step (initial_silenced threads)

/-- In a run of calm steps an unsubscription that has returned is final. -/
theorem calm_run_silent {threads : Nat} {events : List Event} {final : System}
    (run : Run CalmStep { threads := List.replicate threads [] } events final) : Silent events := by
  rintro past middle rest id since callable notice rfl
  rw [← List.cons_append, ← List.append_assoc] at run
  obtain ⟨system, next, before, step, -⟩ := run.before
  have silenced := run_silenced before
  have member : Event.unsubscribed id since ∈ past ++ .unsubscribed id since :: middle :=
    List.mem_append_right _ (List.mem_cons_self ..)
  cases step with
  | thread step =>
      cases step with
      | start =>
          have quiet := silenced.calm id since member _
            (List.mem_append_right _ (List.mem_cons_self ..)) _ (List.mem_cons_self ..)
          by_contra older
          exact quiet ⟨callable, by omega, List.mem_cons_self ..⟩

theorem alone_step {shared after : Shared} {stack next : List Frame} {event : Event}
    (step : ThreadStep shared stack event after next) :
    Step ⟨shared, [stack]⟩ event ⟨after, [next]⟩ :=
  @Step.thread _ _ [] [] _ _ _ step

def Shared.join (shared : Shared) (place : Nat) : Shared where
  registry := (shared.registry.subscribe (some shared.subscriptions)).2
  handles := shared.handles.put place (some ⟨true, shared.registry.nextSubId⟩)
  updates := shared.updates
  subscriptions := shared.subscriptions + 1

theorem join_step {shared : Shared} {place : Nat} (vacant : shared.handles place = none) :
    Step ⟨shared, [[]]⟩ (.subscribed shared.registry.nextSubId) ⟨shared.join place, [[]]⟩ :=
  alone_step (.subscribe (.inl rfl) false vacant rfl)

theorem calm_run_silent_destroyed :
    Silent [.subscribed 1, .erased 1, .unsubscribed 1 1,
      .updated ⟨0, .add, { nodeId := ascii "n" }⟩, .copied, .notified] := by
  have joined := @join_step {} 0 rfl
  have erased := alone_step (@ThreadStep.erase (Shared.join {} 0) [] (.inl rfl) (.destroy 0) 1 rfl)
  have quiet : ∀ stack ∈ [[Frame.unsubscribing 1 1 (.destroy 0)]], ∀ frame ∈ stack,
      ¬ frame.Pends 1 1 := by
    simp [Frame.Pends]
  let last : Shared :=
    { registry := (Shared.join {} 0).registry.unsubscribe 1
      handles := (HandleCall.destroy 0).settle (Shared.join {} 0).handles
      subscriptions := 1 }
  have updated := alone_step (@ThreadStep.register last [] (.inl rfl) { nodeId := ascii "n" } true _
    rfl _ rfl)
  have run : Run CalmStep { threads := List.replicate 1 [] } _ _ :=
    .cons ⟨joined, trivial⟩ (.cons ⟨erased, trivial⟩ (.cons ⟨alone_step .unsubscribed, quiet⟩
      (.cons ⟨updated, trivial⟩ (.cons ⟨alone_step (.copy (.refl [])), trivial⟩
        (.cons ⟨alone_step .notified, trivial⟩ .nil)))))
  exact calm_run_silent run

theorem two_subscribers :
    ∃ shared notice, Run Step { threads := [[]] } [.subscribed 1, .subscribed 2, .updated notice]
        ⟨shared, [[.updated notice]]⟩ ∧
      shared.registry.subs.entries = [⟨2, some 1⟩, ⟨1, some 0⟩] ∧
      shared.handles 1 = some ⟨true, 2⟩ ∧ shared.subscriptions = 2 := by
  have first := @join_step {} 0 rfl
  have second := @join_step (Shared.join {} 0) 1 rfl
  have third := alone_step (@ThreadStep.register ((Shared.join {} 0).join 1) [] (.inl rfl)
    { nodeId := ascii "n" } true _ rfl _ rfl)
  exact ⟨_, _, .cons first (.cons second (.cons third .nil)), rfl, rfl, rfl⟩

/-- The first callback releases the handle of the second, which is started afterwards. -/
theorem released_callback_starts :
    ∃ events final, Run Step { threads := [[]] } events final ∧ ¬ Silent events := by
  obtain ⟨shared, notice, run, subs, handle, count⟩ := two_subscribers
  have order : [((1 : UInt64), some 0), (2, some 1)].Perm
      (shared.registry.subs.entries.map fun entry => (entry.1, entry.2)) := by
    rw [subs]
    decide
  have releases : (HandleCall.release 1).unsubscribes shared.handles = some 2 := by
    rw [HandleCall.unsubscribes, handle]
    rfl
  have rest : Run Step ⟨shared, [[.updated notice]]⟩
      [.copied, .started 1 0 notice, .erased 2, .unsubscribed 2 shared.subscriptions, .finished,
        .started 2 1 notice] _ :=
    .cons (alone_step (.copy order)) (.cons (alone_step .start)
      (.cons (alone_step (.erase (.inr ⟨_, rfl⟩) releases)) (.cons (alone_step .unsubscribed)
        (.cons (alone_step .finish) (.cons (alone_step .start) .nil)))))
  refine ⟨_, _, run.append rest, ?_⟩
  intro silent
  have newer := silent [.subscribed 1, .subscribed 2, .updated notice, .copied,
    .started 1 0 notice, .erased 2] [.finished] [] 2 shared.subscriptions 1 notice rfl
  rw [count] at newer
  omega

end Registry

end Udaf
