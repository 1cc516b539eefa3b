import Udaf.AbilityA.ServiceRegistry
import Udaf.Lib.Ownership
import Udaf.Lib.Run

/-!
The subscriptions of one `ServiceRegistry` and their handles, in one thread: what is stored is
what a valid handle stands for, as long as nobody ends a subscription behind its handle's back.
-/

namespace Udaf

open Ownership Runs

def Handles.holder (handles : Handles) (place : Nat) : Option UInt64 :=
  (handles place).bind SubscriptionHandle.releases

theorem Handles.holder_put (handles : Handles) (place : Nat) (handle : Option SubscriptionHandle) :
    (handles.put place handle).holder =
      Function.update handles.holder place (handle.bind SubscriptionHandle.releases) := by
  funext other
  rw [Handles.holder, Handles.put]
  by_cases same : other = place
  · rw [if_pos same, same, Function.update_self]
  · rw [if_neg same, Function.update_of_ne same, Handles.holder]

theorem Handles.holder_moved (handles : Handles) (target source : Nat) :
    ((handles.put source ((handles source).map fun _ => {})).put target (handles source)).holder =
      move handles.holder target source := by
  have emptied : ((handles source).map fun _ => ({} : SubscriptionHandle)).bind
      SubscriptionHandle.releases = none := by
    cases handles source <;> rfl
  rw [Handles.holder_put, Handles.holder_put, emptied]
  rfl

theorem Handles.holder_released (handles : Handles) (place : Nat) :
    (handles.put place ((handles place).map SubscriptionHandle.released)).holder =
      drop handles.holder place := by
  have emptied : ((handles place).map SubscriptionHandle.released).bind
      SubscriptionHandle.releases = none := by
    cases handles place with
    | none => rfl
    | some handle =>
        obtain ⟨owned, id⟩ := handle
        cases owned <;> rfl
  rw [Handles.holder_put, emptied]
  rfl

namespace HandleCall

def Owning : HandleCall → Prop
  | unsubscribe _ => False
  | _ => True

theorem settle_spec {handles : Handles} (exclusive : Exclusive handles.holder) {call : HandleCall}
    (owning : call.Owning) :
    Exclusive (call.settle handles).holder ∧ ∀ id, Held (call.settle handles).holder id ↔
      Held handles.holder id ∧ call.unsubscribes handles ≠ some id := by
  cases call with
  | unsubscribe id => exact owning.elim
  | release place =>
      rw [settle, Handles.holder_released]
      exact ⟨exclusive.drop place, fun id => exclusive.held_drop⟩
  | destroy place =>
      rw [settle, Handles.holder_put]
      exact ⟨exclusive.drop place, fun id => exclusive.held_drop⟩
  | construct target source =>
      rw [settle, unsubscribes]
      split
      · exact ⟨exclusive, fun id => by simp⟩
      · rename_i vacant
        rw [Handles.holder_moved]
        refine ⟨exclusive.move target source, fun id => ?_⟩
        have none : handles.holder target = none := by
          rw [Handles.holder, Option.not_isSome_iff_eq_none.mp vacant]
          rfl
        rw [exclusive.held_move, none]
        simp
  | assign target source =>
      rw [settle, unsubscribes]
      by_cases same : target = source
      · rw [if_pos (.inl same), if_pos same]
        exact ⟨exclusive, fun id => by simp⟩
      · rw [if_neg same]
        by_cases vacant : (handles target).isNone
        · rw [if_pos (.inr vacant), Option.isNone_iff_eq_none.mp vacant]
          exact ⟨exclusive, fun id => by simp⟩
        · rw [if_neg (not_or.mpr ⟨same, vacant⟩), Handles.holder_moved]
          refine ⟨exclusive.move target source, fun id => ?_⟩
          rw [exclusive.held_move]
          exact and_congr_right fun _ => ⟨fun absent => absent same, fun absent _ => absent⟩

end HandleCall

namespace Subscriptions

variable {κ : Type}

structure System (κ : Type) where
  registry : ServiceRegistry κ := {}
  handles : Handles := fun _ => none

/-- A call on handles, with the unsubscription that it makes. -/
def System.handle (system : System κ) (call : HandleCall) : System κ where
  registry :=
    match call.unsubscribes system.handles with
    | none => system.registry
    | some id => system.registry.unsubscribe id
  handles := call.settle system.handles

inductive Event where
  | subscribed (id : UInt64)
  | unsubscribed (id : UInt64)
  | handled

inductive Step : System κ → Event → System κ → Prop where
  | subscribe {system : System κ} {place : Nat} (vacant : system.handles place = none)
      (cb : RegistryCallback κ) {id : UInt64} {after : ServiceRegistry κ}
      (result : system.registry.subscribe cb = (id, after)) :
      Step system (.subscribed id)
        { registry := after, handles := system.handles.put place (some ⟨true, id⟩) }
  | construct {system : System κ} {place : Nat} (vacant : system.handles place = none) :
      Step system .handled { system with handles := system.handles.put place (some {}) }
  | unsubscribe {system : System κ} (id : UInt64) :
      Step system (.unsubscribed id) { system with registry := system.registry.unsubscribe id }
  | handle {system : System κ} {call : HandleCall} (owning : call.Owning) :
      Step system .handled (system.handle call)

def Event.issues : Event → Option UInt64
  | .subscribed id => some id
  | _ => none

def issued (events : List Event) : List UInt64 := events.filterMap Event.issues

def EndedDirectly (events : List Event) (id : UInt64) : Prop :=
  ∃ front back, events = front ++ .unsubscribed id :: back ∧ id ∈ issued front

/-- Every id has one handle and is given out once, and what is stored is what the valid handles
stand for. -/
structure OwnedOnce (events : List Event) (system : System κ) : Prop where
  exclusive : Exclusive system.handles.holder
  unique : (issued events).Nodup
  stored : ∀ id, id ∈ system.registry.subs ↔
    Held system.handles.holder id ∧ ¬ EndedDirectly events id

theorem issued_concat (events : List Event) (event : Event) :
    issued (events ++ [event]) = issued events ++ event.issues.toList := by
  rw [issued, List.filterMap_append]
  cases event <;> rfl

theorem endedDirectly_concat {events : List Event} {event : Event} {id : UInt64} :
    EndedDirectly (events ++ [event]) id ↔
      EndedDirectly events id ∨ event = .unsubscribed id ∧ id ∈ issued events := by
  constructor
  · rintro ⟨front, back, shape, given⟩
    rcases List.eq_nil_or_concat back with rfl | ⟨back, last, rfl⟩
    · obtain ⟨rfl, same⟩ := List.append_inj' shape rfl
      cases same
      exact .inr ⟨rfl, given⟩
    · rw [List.concat_eq_append, ← List.cons_append, ← List.append_assoc] at shape
      obtain ⟨rfl, _⟩ := List.append_inj' shape rfl
      exact .inl ⟨front, back, rfl, given⟩
  · rintro (⟨front, back, rfl, given⟩ | ⟨rfl, given⟩)
    · exact ⟨front, back ++ [event], by simp, given⟩
    · exact ⟨events, [], rfl, given⟩

structure Invariant (past : List Event) (system : System κ) : Prop where
  next : system.registry.nextSubId = UInt64.ofNat ((issued past).length + 1)
  numbered : issued past = (List.range (issued past).length).map fun index => UInt64.ofNat (index + 1)
  exclusive : Exclusive system.handles.holder
  known : ∀ id, Held system.handles.holder id → id ∈ issued past
  stored : ∀ id, id ∈ system.registry.subs ↔
    Held system.handles.holder id ∧ ¬ EndedDirectly past id

theorem ofNat_succ_inj {first second : Nat} (small : first < 2 ^ 64) (also : second < 2 ^ 64)
    (same : UInt64.ofNat (first + 1) = UInt64.ofNat (second + 1)) : first = second := by
  have values := congrArg UInt64.toNat same
  rw [UInt64.toNat_ofNat', UInt64.toNat_ofNat'] at values
  omega

theorem Invariant.unique {past : List Event} {system : System κ} (invariant : Invariant past system)
    (bounded : (issued past).length ≤ 2 ^ 64) : (issued past).Nodup := by
  rw [invariant.numbered]
  refine List.Nodup.map_on ?_ List.nodup_range
  intro first member second also same
  rw [List.mem_range] at member also
  exact ofNat_succ_inj (by omega) (by omega) same

theorem Invariant.fresh {past : List Event} {system : System κ} (invariant : Invariant past system)
    (room : (issued past).length < 2 ^ 64) :
    UInt64.ofNat ((issued past).length + 1) ∉ issued past := by
  intro member
  rw [invariant.numbered] at member
  obtain ⟨index, inside, same⟩ := List.mem_map.mp member
  rw [List.mem_range] at inside
  have equal := ofNat_succ_inj (by omega) (by simpa using room) same
  simp only [List.length_map, List.length_range] at equal
  omega

theorem EndedDirectly.issued {events : List Event} {id : UInt64} (ended : EndedDirectly events id) :
    id ∈ issued events := by
  obtain ⟨front, back, rfl, given⟩ := ended
  rw [Subscriptions.issued, List.filterMap_append]
  exact List.mem_append_left _ given

theorem mem_unsubscribe {registry : ServiceRegistry κ} {id other : UInt64} :
    other ∈ (registry.unsubscribe id).subs ↔ other ≠ id ∧ other ∈ registry.subs := by
  rw [ServiceRegistry.unsubscribe, AList.mem_erase]

theorem Invariant.subscribe {past : List Event} {system : System κ}
    (invariant : Invariant past system) (room : (issued past).length < 2 ^ 64) {place : Nat}
    (vacant : system.handles place = none) (cb : RegistryCallback κ) :
    Invariant (past ++ [.subscribed (system.registry.subscribe cb).1])
      { registry := (system.registry.subscribe cb).2
        handles := system.handles.put place (some ⟨true, (system.registry.subscribe cb).1⟩) } := by
  have id : (system.registry.subscribe cb).1 = UInt64.ofNat ((issued past).length + 1) := invariant.next
  have fresh := invariant.fresh room
  have giving : (system.handles.put place (some ⟨true, (system.registry.subscribe cb).1⟩)).holder =
      give system.handles.holder place (system.registry.subscribe cb).1 := by
    rw [Handles.holder_put]
    rfl
  have empty : system.handles.holder place = none := by
    rw [Handles.holder, vacant]
    rfl
  have unheld : ¬ Held system.handles.holder (system.registry.subscribe cb).1 := by
    intro held
    exact fresh (id ▸ invariant.known _ held)
  have more : issued (past ++ [.subscribed (system.registry.subscribe cb).1]) =
      issued past ++ [UInt64.ofNat ((issued past).length + 1)] := by
    rw [issued_concat, id]
    rfl
  refine ⟨?_, ?_, ?_, ?_, ?_⟩
  · rw [more, List.length_append, List.length_singleton, UInt64.ofNat_add]
    exact congrArg (· + 1) invariant.next
  · rw [more, List.length_append, List.length_singleton, List.range_succ, List.map_append,
      ← invariant.numbered]
    rfl
  · rw [giving]
    exact invariant.exclusive.give unheld place
  · intro other held
    rw [giving, held_give empty] at held
    rw [more]
    rcases held with rfl | before
    · rw [id]
      exact List.mem_append_right _ List.mem_cons_self
    · exact List.mem_append_left _ (invariant.known other before)
  · intro other
    have inserted : other ∈ (system.registry.subscribe cb).2.subs ↔
        other = (system.registry.subscribe cb).1 ∨ other ∈ system.registry.subs := AList.mem_insert _
    have unended : ¬ EndedDirectly past (system.registry.subscribe cb).1 := by
      intro ended
      exact fresh (id ▸ ended.issued)
    rw [inserted, giving, held_give empty, endedDirectly_concat, invariant.stored]
    constructor
    · rintro (rfl | ⟨held, kept⟩)
      · refine ⟨.inl rfl, ?_⟩
        rintro (ended | ⟨same, _⟩)
        · exact unended ended
        · cases same
      · refine ⟨.inr held, ?_⟩
        rintro (ended | ⟨same, _⟩)
        · exact kept ended
        · cases same
    · rintro ⟨rfl | held, kept⟩
      · exact .inl rfl
      · exact .inr ⟨held, fun ended => kept (.inl ended)⟩

theorem Invariant.handled {past : List Event} {system next : System κ}
    (invariant : Invariant past system) (counter : next.registry.nextSubId = system.registry.nextSubId)
    (exclusive : Exclusive next.handles.holder) {taken : UInt64 → Prop}
    (held : ∀ id, Held next.handles.holder id ↔ Held system.handles.holder id ∧ ¬ taken id)
    (subs : ∀ id, id ∈ next.registry.subs ↔ id ∈ system.registry.subs ∧ ¬ taken id) :
    Invariant (past ++ [.handled]) next := by
  have same : issued (past ++ [.handled]) = issued past := by
    rw [issued_concat]
    exact List.append_nil _
  refine ⟨?_, ?_, exclusive, ?_, ?_⟩
  · rw [same, counter]
    exact invariant.next
  · rw [same]
    exact invariant.numbered
  · intro id holds
    rw [same]
    exact invariant.known id ((held id).mp holds).1
  · intro id
    have silent : EndedDirectly (past ++ [.handled]) id ↔ EndedDirectly past id := by
      rw [endedDirectly_concat]
      refine or_iff_left ?_
      rintro ⟨same, _⟩
      cases same
    rw [subs, held, invariant.stored, silent, and_right_comm]

theorem Invariant.unsubscribe {past : List Event} {system : System κ}
    (invariant : Invariant past system) (id : UInt64) :
    Invariant (past ++ [.unsubscribed id])
      { system with registry := system.registry.unsubscribe id } := by
  have same : issued (past ++ [.unsubscribed id]) = issued past := by
    rw [issued_concat]
    exact List.append_nil _
  refine ⟨?_, ?_, invariant.exclusive, ?_, ?_⟩
  · rw [same]
    exact invariant.next
  · rw [same]
    exact invariant.numbered
  · rw [same]
    exact invariant.known
  · intro other
    rw [mem_unsubscribe, endedDirectly_concat, invariant.stored]
    constructor
    · rintro ⟨apart, held, kept⟩
      refine ⟨held, ?_⟩
      rintro (ended | ⟨same, _⟩)
      · exact kept ended
      · cases same
        exact apart rfl
    · rintro ⟨held, kept⟩
      refine ⟨?_, held, fun ended => kept (.inl ended)⟩
      rintro rfl
      exact kept (.inr ⟨rfl, invariant.known other held⟩)

theorem step_invariant {past : List Event} {system next : System κ} {event : Event}
    (step : Step system event next) (invariant : Invariant past system)
    (bounded : (issued (past ++ [event])).length ≤ 2 ^ 64) : Invariant (past ++ [event]) next := by
  cases step with
  | subscribe vacant cb result =>
      rw [issued_concat, List.length_append] at bounded
      have room : (issued past).length < 2 ^ 64 := bounded
      have after := invariant.subscribe room vacant cb
      rwa [result] at after
  | @construct place vacant =>
      have unchanged : (system.handles.put place (some {})).holder = drop system.handles.holder place := by
        rw [Handles.holder_put]
        rfl
      have empty : system.handles.holder place = none := by
        rw [Handles.holder, vacant]
        rfl
      refine @Invariant.handled _ _ _ _ invariant rfl ?_ (fun _ => False) ?_ (by simp)
      · rw [unchanged]
        exact invariant.exclusive.drop place
      · intro id
        rw [unchanged, invariant.exclusive.held_drop, empty]
        simp
  | unsubscribe id => exact invariant.unsubscribe id
  | @handle call owning =>
      obtain ⟨exclusive, held⟩ := HandleCall.settle_spec invariant.exclusive owning
      refine invariant.handled ?_ exclusive held ?_
      · rw [System.handle]
        cases call.unsubscribes system.handles <;> rfl
      · intro id
        rw [System.handle]
        cases call.unsubscribes system.handles with
        | none => simp
        | some taken =>
            rw [mem_unsubscribe, and_comm, Option.some.injEq, eq_comm (a := taken)]

theorem run_invariant {events : List Event} {final : System κ} (run : Run Step {} events final)
    (bounded : (issued events).length ≤ 2 ^ 64) : Invariant events final := by
  refine @Run.history _ _ _ (fun past system => (issued past).length ≤ 2 ^ 64 → Invariant past system)
    ?_ [] _ _ _ run ?_ bounded
  · intro past system event next step before bounded
    refine step_invariant step (before ?_) bounded
    rw [issued_concat, List.length_append] at bounded
    omega
  · intro _
    have nobody (id : UInt64) : ¬ Held (Handles.holder fun _ => none) id := by
      rintro ⟨_, holds⟩
      cases holds
    refine ⟨rfl, rfl, ?_, fun id held => absurd held (nobody id), ?_⟩
    · intro first second id holds
      cases holds
    intro id
    exact iff_of_false (AList.notMem_empty id) fun held => nobody id held.1

/-- Up to 2^64 subscriptions, the table and the handles keep in step over every run. -/
theorem owned_once {events : List Event} {final : System κ} (run : Run Step {} events final)
    (bounded : (issued events).length ≤ 2 ^ 64) : OwnedOnce events final :=
  have invariant := run_invariant run bounded
  ⟨invariant.exclusive, invariant.unique bounded, invariant.stored⟩

def idle (next : UInt64) : System Nat where
  registry := { nextSubId := next }

def subscribedOnce (next : UInt64) : System Nat where
  registry := { nextSubId := next + 1, subs := AList.insert next none ∅ }
  handles := Handles.put (fun _ => none) 0 (some ⟨true, next⟩)

theorem subscribedOnce_destroy (next : UInt64) :
    (subscribedOnce next).handle (.destroy 0) = idle (next + 1) := by
  have subs : (AList.insert next none ∅ : Table UInt64 (RegistryCallback Nat)).erase next = ∅ := by
    apply AList.ext
    change List.kerase next [(⟨next, none⟩ : (_ : UInt64) × RegistryCallback Nat)] = []
    exact List.kerase_cons_eq rfl
  have handles : ((subscribedOnce next).handle (.destroy 0)).handles = fun _ => none := by
    funext place
    simp only [System.handle, HandleCall.settle, subscribedOnce, Handles.put]
    split <;> rfl
  have registry : ((subscribedOnce next).handle (.destroy 0)).registry = { nextSubId := next + 1 } :=
    congrArg (fun subs => ({ subs := subs, nextSubId := next + 1 } : ServiceRegistry Nat)) subs
  exact congrArg₂ System.mk registry handles

theorem cycle_run (next : UInt64) :
    Run Step (idle next) [.subscribed next, .handled] (idle (next + 1)) := by
  have destroyed := @Step.handle Nat (subscribedOnce next) (.destroy 0) trivial
  rw [subscribedOnce_destroy] at destroyed
  exact .cons (@Step.subscribe Nat (idle next) 0 rfl none _ _ rfl) (.cons destroyed .nil)

theorem cycles_run (count : Nat) (next : UInt64) :
    ∃ events, Run Step (idle next) events (idle (next + UInt64.ofNat count)) := by
  induction count generalizing next with
  | zero => exact ⟨[], by simpa using Run.nil⟩
  | succ count ih =>
      obtain ⟨events, run⟩ := ih (next + 1)
      have same : next + 1 + UInt64.ofNat count = next + UInt64.ofNat (count + 1) := by
        rw [UInt64.ofNat_add, UInt64.add_assoc, UInt64.add_comm 1]
        rfl
      rw [same] at run
      exact ⟨_, (cycle_run next).append run⟩

/-- After 2^64 subscriptions the counter has come round to the id of the first one. -/
theorem id_reused :
    ¬ ∀ (events : List Event) (final : System Nat), Run Step {} events final →
      OwnedOnce events final := by
  intro claimed
  obtain ⟨events, around⟩ := cycles_run (2 ^ 64 - 1) 2
  have back : (2 : UInt64) + UInt64.ofNat (2 ^ 64 - 1) = 1 := by decide
  rw [back] at around
  have owned := claimed _ _ (((cycle_run 1).append around).append (cycle_run 1))
  have twice := owned.unique
  rw [issued, List.filterMap_append, List.filterMap_append, List.append_assoc] at twice
  have first : (1 : UInt64) ∈ [Event.subscribed 1, .handled].filterMap Event.issues := by decide
  exact (List.nodup_append.mp twice).2.2 1 first 1 (List.mem_append_right _ first) rfl

theorem owned_once_assigned : ∃ final : System Nat,
    OwnedOnce [.subscribed 1, .subscribed 2, .handled, .unsubscribed 2] final := by
  have run : Run Step ({} : System Nat) [.subscribed 1, .subscribed 2, .handled, .unsubscribed 2] _ :=
    .cons (@Step.subscribe Nat {} 0 rfl none _ _ rfl)
      (.cons (@Step.subscribe Nat _ 1 rfl none _ _ rfl)
        (.cons (@Step.handle Nat _ (.assign 0 1) trivial) (.cons (.unsubscribe 2) .nil)))
  exact ⟨_, owned_once run (by decide)⟩

end Subscriptions

end Udaf
