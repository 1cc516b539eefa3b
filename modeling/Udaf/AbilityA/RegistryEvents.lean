import Udaf.AbilityA.RegistryDispatch

/-!
What a subscriber is told of the registry. The table is written before the notification
starts, so each write reaches the subscriber once, but the writes of several threads can
reach it in another order than they were made in.
-/

namespace Udaf

open ByteString Runs

namespace Registry

variable {id : UInt64} {callable : Nat}

def Notice.apply (table : Table Bytes RegistryEntry) (notice : Notice) : Table Bytes RegistryEntry :=
  match notice.event with
  | .remove => table.erase notice.entry.nodeId
  | .add => table.insert notice.entry.nodeId notice.entry
  | .update => table.insert notice.entry.nodeId notice.entry

/-- The table that a subscriber keeps by what it is told. -/
def folded (notices : List Notice) : Table Bytes RegistryEntry := notices.foldl Notice.apply ∅

structure Listens (id : UInt64) (callable : Nat) (shared : Shared) : Prop where
  listed : shared.registry.subs.lookup id = some (some callable)
  known : callable < shared.subscriptions
  alone : ∀ other, shared.registry.subs.lookup other = some (some callable) → other = id

def Event.Spares (id : UInt64) : Event → Prop
  | .subscribed other => other ≠ id
  | .erased other => other ≠ id
  | _ => True

instance decidableSpares (id : UInt64) : (event : Event) → Decidable (event.Spares id)
  | .subscribed other => inferInstanceAs (Decidable (other ≠ id))
  | .erased other => inferInstanceAs (Decidable (other ≠ id))
  | .rejected _ | .absent | .updated _ | .copied | .started _ _ _ | .skipped | .finished
  | .notified | .unsubscribed _ _ | .moved => .isTrue trivial

def Frame.owes (callable : Nat) : Frame → List Notice
  | .updated notice => [notice]
  | .notifying notice cbs =>
      (cbs.filter fun entry => entry.2 = some callable).map fun _ => notice
  | _ => []

def stackOwes (callable : Nat) (stack : List Frame) : List Notice :=
  stack.flatMap (Frame.owes callable)

def owed (callable : Nat) (threads : List (List Frame)) : List Notice :=
  threads.flatMap (stackOwes callable)

section Copies

variable {shared : Shared}

theorem Listens.copied (listens : Listens id callable shared)
    {cbs : List (UInt64 × RegistryCallback Nat)}
    (order : cbs.Perm (shared.registry.subs.entries.map fun entry => (entry.1, entry.2))) :
    (cbs.filter fun entry => entry.2 = some callable).length = 1 := by
  rw [(order.filter _).length_eq, List.filter_map, List.length_map]
  have one : (shared.registry.subs.entries.filter fun entry => entry.2 = some callable).Perm
      [⟨id, some callable⟩] := by
    refine (List.perm_ext_iff_of_nodup (shared.registry.subs.nodupKeys.nodup.filter _)
      (List.nodup_singleton _)).mpr ?_
    rintro ⟨other, cb⟩
    rw [List.mem_filter, List.mem_singleton, decide_eq_true_eq, ← Table.lookup_eq_some]
    constructor
    · rintro ⟨found, rfl⟩
      rw [listens.alone other found]
    · rintro same
      cases same
      exact ⟨listens.listed, rfl⟩
  exact one.length_eq

theorem Listens.step (listens : Listens id callable shared) {after : Shared}
    {stack next : List Frame} {event : Event} (step : ThreadStep shared stack event after next)
    (spared : event.Spares id) : Listens id callable after := by
  cases step with
  | reject free result =>
      cases ServiceRegistry.registerNode_error result
      exact listens
  | register free result about =>
      obtain ⟨_, rfl⟩ := ServiceRegistry.registerNode_ok result
      exact ⟨listens.listed, listens.known, listens.alone⟩
  | unregisterAbsent free result =>
      cases ServiceRegistry.unregisterNode_none result
      exact listens
  | unregister free result about =>
      obtain ⟨_, rfl⟩ := ServiceRegistry.unregisterNode_some result
      exact ⟨listens.listed, listens.known, listens.alone⟩
  | copy order => exact listens
  | start => exact listens
  | skip => exact listens
  | finish => exact listens
  | notified => exact listens
  | subscribe free empty vacant result =>
      cases result
      refine ⟨?_, Nat.lt_succ_of_lt listens.known, ?_⟩
      · simp only [Table.lookup_set, if_neg (Ne.symm spared)]
        exact listens.listed
      · intro other found
        simp only [Table.lookup_set] at found
        split at found
        · have known := listens.known
          split at found
          · cases found
          · cases found
            omega
        · exact listens.alone other found
  | erase free unsubscribes =>
      refine ⟨?_, listens.known, ?_⟩
      · rw [ServiceRegistry.unsubscribe, Table.lookup_remove, if_neg (Ne.symm spared)]
        exact listens.listed
      · intro other found
        rw [ServiceRegistry.unsubscribe, Table.lookup_remove] at found
        split at found
        · cases found
        · exact listens.alone other found
  | unsubscribed => exact ⟨listens.listed, listens.known, listens.alone⟩
  | move free silent => exact ⟨listens.listed, listens.known, listens.alone⟩

theorem ThreadStep.owes (listens : Listens id callable shared) {after : Shared}
    {stack next : List Frame} {event : Event} (step : ThreadStep shared stack event after next) :
    (updates [event] ++ stackOwes callable stack).Perm
      (delivered callable [event] ++ stackOwes callable next) := by
  cases step with
  | reject free result => exact .refl _
  | register free result about => exact .refl _
  | unregisterAbsent free result => exact .refl _
  | unregister free result about => exact .refl _
  | copy order =>
      obtain ⟨entry, one⟩ := List.length_eq_one_iff.mp (listens.copied order)
      simp only [stackOwes, List.flatMap_cons, Frame.owes, one]
      exact .refl _
  | @start rest notice other owner cbs =>
      by_cases same : owner = callable
      · subst same
        simp [stackOwes, Frame.owes, updates, delivered]
      · simp [stackOwes, Frame.owes, updates, delivered, same]
  | skip => exact .refl _
  | finish => exact .refl _
  | notified => exact .refl _
  | subscribe free empty vacant result => exact .refl _
  | erase free unsubscribes => exact .refl _
  | unsubscribed => exact .refl _
  | move free silent => exact .refl _

end Copies

def Keyed (table : Table Bytes RegistryEntry) : Prop :=
  ∀ nodeId entry, table.lookup nodeId = some entry → entry.nodeId = nodeId

theorem Keyed.apply {table : Table Bytes RegistryEntry} (keyed : Keyed table) (notice : Notice) :
    Keyed (notice.apply table) := by
  intro nodeId entry found
  unfold Notice.apply at found
  split at found
  · rw [Table.lookup_remove] at found
    split at found
    · cases found
    · exact keyed nodeId entry found
  all_goals
    rw [Table.lookup_set] at found
    split at found
    · rename_i same
      cases found
      exact same.symm
    · exact keyed nodeId entry found

theorem ThreadStep.writes {shared after : Shared} {stack next : List Frame} {event : Event}
    (step : ThreadStep shared stack event after next) (keyed : Keyed shared.registry.nodes) :
    (updates [event] = [] ∧ after.registry.nodes = shared.registry.nodes ∧
      after.updates = shared.updates) ∨
    ∃ notice, updates [event] = [notice] ∧ notice.stamp = shared.updates ∧
      after.updates = shared.updates + 1 ∧
      after.registry.nodes = notice.apply shared.registry.nodes := by
  cases step with
  | reject free result =>
      cases ServiceRegistry.registerNode_error result
      exact .inl ⟨rfl, rfl, rfl⟩
  | register free result about =>
      obtain ⟨rfl, rfl⟩ := ServiceRegistry.registerNode_ok result
      refine .inr ⟨_, rfl, by rw [about], rfl, ?_⟩
      rw [about, Notice.apply]
      cases (shared.registry.nodes.lookup _).isNone <;> rfl
  | unregisterAbsent free result =>
      cases ServiceRegistry.unregisterNode_none result
      exact .inl ⟨rfl, rfl, rfl⟩
  | unregister free result about =>
      obtain ⟨found, rfl⟩ := ServiceRegistry.unregisterNode_some result
      refine .inr ⟨_, rfl, by rw [about], rfl, ?_⟩
      rw [about, Notice.apply, keyed _ _ found]
  | subscribe free empty vacant result =>
      cases result
      exact .inl ⟨rfl, rfl, rfl⟩
  | _ => exact .inl ⟨rfl, rfl, rfl⟩

structure Accounts (id : UInt64) (callable : Nat) (past : List Event) (system : System) : Prop where
  listens : Listens id callable system.shared
  keyed : Keyed system.shared.registry.nodes
  table : system.shared.registry.nodes = folded (updates past)
  stamps : (updates past).map Notice.stamp = List.range system.shared.updates
  owed : (updates past).Perm (delivered callable past ++ owed callable system.threads)

theorem Accounts.step {past : List Event} {system next : System} {event : Event}
    (step : Step system event next) (spared : event.Spares id)
    (accounts : Accounts id callable past system) :
    Accounts id callable (past ++ [event]) next := by
  cases step with
  | @thread shared after front back stack rest event step =>
      have owes := step.owes accounts.listens
      have owing : (updates (past ++ [event])).Perm (delivered callable (past ++ [event]) ++
          Registry.owed callable (front ++ rest :: back)) := by
        have owed := accounts.owed
        rw [List.perm_iff_count] at owes owed ⊢
        intro notice
        have new := owes notice
        have old := owed notice
        simp only [Registry.owed, updates_append, delivered_append, List.flatMap_append,
          List.flatMap_cons, List.count_append] at new old ⊢
        omega
      rcases step.writes accounts.keyed with ⟨silent, same, count⟩ |
          ⟨notice, written, stamp, count, table⟩
      · refine ⟨accounts.listens.step step spared, ?_, ?_, ?_, owing⟩
        · rw [same]
          exact accounts.keyed
        · rw [same, updates_append, silent, List.append_nil]
          exact accounts.table
        · rw [count, updates_append, silent, List.append_nil]
          exact accounts.stamps
      · refine ⟨accounts.listens.step step spared, ?_, ?_, ?_, owing⟩
        · rw [table]
          exact accounts.keyed.apply notice
        · rw [table, updates_append, written, folded, List.foldl_append, ← folded,
            ← accounts.table]
          rfl
        · rw [count, updates_append, written, List.map_append, accounts.stamps, List.range_succ,
            List.map_singleton, stamp]

structure Ready (id : UInt64) (callable : Nat) (system : System) : Prop where
  listens : Listens id callable system.shared
  nodes : system.shared.registry.nodes = ∅
  updates : system.shared.updates = 0
  idle : ∀ stack ∈ system.threads, stack = []

theorem owed_idle {threads : List (List Frame)} (idle : ∀ stack ∈ threads, stack = []) :
    owed callable threads = [] := by
  refine List.flatMap_eq_nil_iff.mpr fun stack member => ?_
  rw [idle stack member]
  rfl

theorem Ready.accounts {system : System} (ready : Ready id callable system) :
    Accounts id callable [] system where
  listens := ready.listens
  keyed := by
    intro nodeId entry found
    rw [ready.nodes, AList.lookup_empty] at found
    cases found
  table := ready.nodes
  stamps := by
    rw [ready.updates]
    rfl
  owed := by
    rw [owed_idle ready.idle]
    exact .refl _

theorem Accounts.run {past events : List Event} {start final : System}
    (run : Run Step start events final) (spared : ∀ event ∈ events, event.Spares id)
    (accounts : Accounts id callable past start) :
    Accounts id callable (past ++ events) final := by
  induction run generalizing past with
  | nil => simpa using accounts
  | @cons _ _ _ event _ step _ ih =>
      have next := accounts.step step (spared event (List.mem_cons_self ..))
      have rest := ih (fun other member => spared other (List.mem_cons_of_mem event member)) next
      simpa using rest

/-- The notices about one node are told in the order of their table updates. -/
def InOrder (notices : List Notice) : Prop :=
  notices.Pairwise fun first second =>
    first.entry.nodeId = second.entry.nodeId → first.stamp < second.stamp

instance decidableInOrder (notices : List Notice) : Decidable (InOrder notices) :=
  inferInstanceAs (Decidable (notices.Pairwise _))

def Notice.leaves (notice : Notice) : Option RegistryEntry :=
  match notice.event with
  | .remove => none
  | .add => some notice.entry
  | .update => some notice.entry

theorem lookup_apply (table : Table Bytes RegistryEntry) (notice : Notice) (nodeId : Bytes) :
    (notice.apply table).lookup nodeId =
      if nodeId = notice.entry.nodeId then notice.leaves else table.lookup nodeId := by
  unfold Notice.apply Notice.leaves
  split
  · exact Table.lookup_remove ..
  · exact Table.lookup_set ..
  · exact Table.lookup_set ..

theorem lookup_folded (notices : List Notice) (table : Table Bytes RegistryEntry) (nodeId : Bytes) :
    (notices.foldl Notice.apply table).lookup nodeId =
      (notices.filter fun notice => nodeId = notice.entry.nodeId).foldl
        (fun _ notice => notice.leaves) (table.lookup nodeId) := by
  induction notices generalizing table with
  | nil => rfl
  | cons notice notices ih =>
      rw [List.foldl_cons, ih, lookup_apply]
      by_cases same : nodeId = notice.entry.nodeId
      · rw [if_pos same, List.filter_cons_of_pos (by simpa using same), List.foldl_cons]
      · rw [if_neg same, List.filter_cons_of_neg (by simpa using same)]

theorem stamps_increase {notices : List Notice} {count : Nat}
    (stamps : notices.map Notice.stamp = List.range count) :
    notices.Pairwise fun first second => first.stamp < second.stamp := by
  rw [← List.pairwise_map, stamps]
  exact List.pairwise_lt_range

theorem filter_inOrder {told made : List Notice} (all : told.Perm made) (order : InOrder told)
    (increase : made.Pairwise fun first second => first.stamp < second.stamp) (nodeId : Bytes) :
    (told.filter fun notice => nodeId = notice.entry.nodeId) =
      made.filter fun notice => nodeId = notice.entry.nodeId := by
  refine (all.filter _).eq_of_pairwise (fun first second _ _ less more => absurd less (by omega))
    ?_ (increase.filter _)
  refine (order.filter _).imp_of_mem ?_
  intro first second member member' less
  have left : nodeId = first.entry.nodeId := by simpa using (List.mem_filter.mp member).2
  have right : nodeId = second.entry.nodeId := by simpa using (List.mem_filter.mp member').2
  exact less (left.symm.trans right)

theorem folded_inOrder {told made : List Notice} (all : told.Perm made) (order : InOrder told)
    (increase : made.Pairwise fun first second => first.stamp < second.stamp) :
    (Table.values (folded told)).Perm (Table.values (folded made)) := by
  refine (List.lookup_ext (folded told).nodupKeys (folded made).nodupKeys ?_).map _
  intro nodeId entry
  have same : (folded told).lookup nodeId = (folded made).lookup nodeId := by
    rw [folded, folded, lookup_folded, lookup_folded, filter_inOrder all order increase]
  exact iff_of_eq (congrArg (fun found => entry ∈ found) same)

/-- When all calls are over, the subscriber has been told of each table update once; if in order, it
knows the table. -/
theorem subscriber_converges {start final : System} {events : List Event}
    (ready : Ready id callable start) (run : Run Step start events final)
    (spared : ∀ event ∈ events, event.Spares id) (done : ∀ stack ∈ final.threads, stack = []) :
    (delivered callable events).Perm (updates events) ∧
      (InOrder (delivered callable events) →
        (Table.values (folded (delivered callable events))).Perm final.shared.registry.snapshot) := by
  have accounts : Accounts id callable events final := ready.accounts.run run spared
  have all : (delivered callable events).Perm (updates events) := by
    have owed := accounts.owed
    rw [owed_idle done, List.append_nil] at owed
    exact owed.symm
  refine ⟨all, fun order => ?_⟩
  rw [ServiceRegistry.snapshot, accounts.table]
  exact folded_inOrder all order (stamps_increase accounts.stamps)

def duet : System where
  shared := { registry := { subs := AList.singleton 1 (some 0), nextSubId := 2 }, subscriptions := 1 }
  threads := [[], []]

theorem duet_ready : Ready 1 0 duet where
  listens := by
    refine ⟨by decide, by decide, ?_⟩
    intro other found
    have member := Table.lookup_eq_some.mp found
    rw [show duet.shared.registry.subs.entries = [⟨1, some 0⟩] from rfl, List.mem_singleton] at member
    cases member
    rfl
  nodes := rfl
  updates := rfl
  idle := by decide

theorem tell_run {shared : Shared} (subs : shared.registry.subs = duet.shared.registry.subs)
    (front back : List (List Frame)) (notice : Notice) :
    Run Step ⟨shared, front ++ [.updated notice] :: back⟩
      [.copied, .started 1 0 notice, .finished, .notified] ⟨shared, front ++ [] :: back⟩ := by
  have copy := @ThreadStep.copy shared [] notice [(1, some 0)] (by rw [subs]; exact .refl _)
  exact .cons (.thread copy) (.cons (.thread .start) (.cons (.thread .finish)
    (.cons (.thread .notified) .nil)))

def host (name : String) : RegistryEntry := { nodeId := ascii "n", hostname := ascii name }

def firstNotice : Notice := ⟨0, .add, host "a"⟩

def secondNotice : Notice := ⟨1, .update, host "b"⟩

def written (entry : RegistryEntry) (updates : Nat) : Shared where
  registry := { duet.shared.registry with nodes := AList.singleton (ascii "n") entry }
  updates := updates
  subscriptions := 1

theorem written_run : Run Step duet [.updated firstNotice, .updated secondNotice]
    ⟨written (host "b") 2, [[.updated firstNotice], [.updated secondNotice]]⟩ := by
  have first : ThreadStep duet.shared [] (.updated firstNotice) (written (host "a") 1)
      [.updated firstNotice] :=
    @ThreadStep.register _ _ (.inl rfl) (host "a") true _ rfl firstNotice rfl
  have second : ThreadStep (written (host "a") 1) [] (.updated secondNotice)
      (written (host "b") 2) [.updated secondNotice] :=
    @ThreadStep.register _ _ (.inl rfl) (host "b") false _ rfl secondNotice rfl
  exact .cons (@Step.thread _ _ [] [[]] _ _ _ first)
    (.cons (@Step.thread _ _ [[.updated firstNotice]] [] _ _ _ second) .nil)

theorem subscriber_converges_duet :
    ∃ events final, Run Step duet events final ∧ delivered 0 events = [firstNotice, secondNotice] ∧
      (Table.values (folded (delivered 0 events))).Perm final.shared.registry.snapshot := by
  have run := (written_run.append (@tell_run (written (host "b") 2) rfl [] _ firstNotice)).append
    (@tell_run (written (host "b") 2) rfl [[]] [] secondNotice)
  refine ⟨_, _, run, rfl, (subscriber_converges duet_ready run ?_ (by decide)).2 (by decide)⟩
  decide

/-- The later write is told first. -/
theorem subscriber_diverges :
    ∃ events final, Run Step duet events final ∧ (∀ event ∈ events, event.Spares 1) ∧
      (∀ stack ∈ final.threads, stack = []) ∧
      ¬ (Table.values (folded (delivered 0 events))).Perm final.shared.registry.snapshot := by
  have run := (written_run.append (@tell_run (written (host "b") 2) rfl [_] [] secondNotice)).append
    (@tell_run (written (host "b") 2) rfl [] [[]] firstNotice)
  refine ⟨_, _, run, ?_, by decide, ?_⟩
  · decide
  · decide

end Registry

end Udaf
