import Udaf.AbilityA.ServiceRegistry
import Udaf.Lib.Run

/-!
Threads on one `ServiceRegistry`. Each critical section is a step, and so is the start of
a callback; a callback makes calls of its own before it returns. The callable that the
`n`-th `subscribe` is given is `n`.
-/

namespace Udaf

open ByteString

namespace Registry

/-- What a notification says, with the number of table updates before its own. -/
structure Notice where
  stamp : Nat
  event : RegistryEvent
  entry : RegistryEntry
  deriving DecidableEq

inductive Frame where
  | updated (notice : Notice)
  | notifying (notice : Notice) (cbs : List (UInt64 × RegistryCallback Nat))
  | inside
  | unsubscribing (id : UInt64) (since : Nat) (call : HandleCall)

/-- The registry with its handles, and the numbers of table updates and of subscriptions so far. -/
structure Shared where
  registry : ServiceRegistry Nat := {}
  handles : Handles := fun _ => none
  updates : Nat := 0
  subscriptions : Nat := 0

/-- What a step does: `since` is the number of subscriptions when the unsubscription took effect. -/
inductive Event where
  | rejected (code : ErrorCode)
  | absent
  | updated (notice : Notice)
  | copied
  | started (id : UInt64) (callable : Nat) (notice : Notice)
  | skipped
  | finished
  | notified
  | subscribed (id : UInt64)
  | erased (id : UInt64)
  | unsubscribed (id : UInt64) (since : Nat)
  | moved

def Free (stack : List Frame) : Prop := stack = [] ∨ ∃ rest, stack = .inside :: rest

inductive ThreadStep : Shared → List Frame → Event → Shared → List Frame → Prop where
  | reject {shared : Shared} {stack : List Frame} (free : Free stack) {entry : RegistryEntry}
      {code : ErrorCode} {after : ServiceRegistry Nat}
      (result : shared.registry.registerNode entry = (.error code, after)) :
      ThreadStep shared stack (.rejected code) { shared with registry := after } stack
  | register {shared : Shared} {stack : List Frame} (free : Free stack) {entry : RegistryEntry}
      {isNew : Bool} {after : ServiceRegistry Nat}
      (result : shared.registry.registerNode entry = (.ok isNew, after)) {notice : Notice}
      (about : notice = ⟨shared.updates, if isNew then .add else .update, entry⟩) :
      ThreadStep shared stack (.updated notice)
        { shared with registry := after, updates := shared.updates + 1 } (.updated notice :: stack)
  | unregisterAbsent {shared : Shared} {stack : List Frame} (free : Free stack) {nodeId : Bytes}
      {after : ServiceRegistry Nat}
      (result : shared.registry.unregisterNode nodeId = (none, after)) :
      ThreadStep shared stack .absent { shared with registry := after } stack
  | unregister {shared : Shared} {stack : List Frame} (free : Free stack) {nodeId : Bytes}
      {removed : RegistryEntry} {after : ServiceRegistry Nat}
      (result : shared.registry.unregisterNode nodeId = (some removed, after)) {notice : Notice}
      (about : notice = ⟨shared.updates, .remove, removed⟩) :
      ThreadStep shared stack (.updated notice)
        { shared with registry := after, updates := shared.updates + 1 } (.updated notice :: stack)
  | copy {shared : Shared} {rest : List Frame} {notice : Notice}
      {cbs : List (UInt64 × RegistryCallback Nat)}
      (order : cbs.Perm (shared.registry.subs.entries.map fun entry => (entry.1, entry.2))) :
      ThreadStep shared (.updated notice :: rest) .copied shared (.notifying notice cbs :: rest)
  | start {shared : Shared} {rest : List Frame} {notice : Notice} {id : UInt64} {callable : Nat}
      {cbs : List (UInt64 × RegistryCallback Nat)} :
      ThreadStep shared (.notifying notice ((id, some callable) :: cbs) :: rest)
        (.started id callable notice) shared (.inside :: .notifying notice cbs :: rest)
  | skip {shared : Shared} {rest : List Frame} {notice : Notice} {id : UInt64}
      {cbs : List (UInt64 × RegistryCallback Nat)} :
      ThreadStep shared (.notifying notice ((id, none) :: cbs) :: rest) .skipped shared
        (.notifying notice cbs :: rest)
  | finish {shared : Shared} {rest : List Frame} :
      ThreadStep shared (.inside :: rest) .finished shared rest
  | notified {shared : Shared} {rest : List Frame} {notice : Notice} :
      ThreadStep shared (.notifying notice [] :: rest) .notified shared rest
  | subscribe {shared : Shared} {stack : List Frame} (free : Free stack) (empty : Bool)
      {place : Nat} (vacant : shared.handles place = none) {id : UInt64}
      {after : ServiceRegistry Nat}
      (result : shared.registry.subscribe (if empty then none else some shared.subscriptions) =
        (id, after)) :
      ThreadStep shared stack (.subscribed id)
        { shared with
          registry := after
          handles := shared.handles.put place (some ⟨true, id⟩)
          subscriptions := shared.subscriptions + 1 } stack
  | erase {shared : Shared} {stack : List Frame} (free : Free stack) {call : HandleCall}
      {id : UInt64} (unsubscribes : call.unsubscribes shared.handles = some id) :
      ThreadStep shared stack (.erased id)
        { shared with registry := shared.registry.unsubscribe id }
        (.unsubscribing id shared.subscriptions call :: stack)
  | unsubscribed {shared : Shared} {rest : List Frame} {id : UInt64} {since : Nat}
      {call : HandleCall} :
      ThreadStep shared (.unsubscribing id since call :: rest) (.unsubscribed id since)
        { shared with handles := call.settle shared.handles } rest
  | move {shared : Shared} {stack : List Frame} (free : Free stack) {call : HandleCall}
      (silent : call.unsubscribes shared.handles = none) :
      ThreadStep shared stack .moved { shared with handles := call.settle shared.handles } stack

structure System where
  shared : Shared := {}
  threads : List (List Frame)

inductive Step : System → Event → System → Prop where
  | thread {shared after : Shared} {front back : List (List Frame)} {stack next : List Frame}
      {event : Event} (step : ThreadStep shared stack event after next) :
      Step ⟨shared, front ++ stack :: back⟩ event ⟨after, front ++ next :: back⟩

def updates (events : List Event) : List Notice :=
  events.filterMap fun event =>
    match event with
    | .updated notice => some notice
    | _ => none

def delivered (callable : Nat) (events : List Event) : List Notice :=
  events.filterMap fun event =>
    match event with
    | .started _ other notice => if other = callable then some notice else none
    | _ => none

@[simp] theorem updates_append (front back : List Event) :
    updates (front ++ back) = updates front ++ updates back :=
  List.filterMap_append

@[simp] theorem delivered_append (callable : Nat) (front back : List Event) :
    delivered callable (front ++ back) = delivered callable front ++ delivered callable back :=
  List.filterMap_append

end Registry

end Udaf
