import Udaf.Core.ErrorCode
import Udaf.Lib.Bytes
import Udaf.Lib.Table

/-!
`ability_a/registry/service_registry.cpp`: the table of nodes, the table of subscribers,
and the handle whose end is the end of a subscription.
-/

namespace Udaf

open ByteString

structure ServiceDescriptor where
  serviceName : Bytes
  port : UInt16 := 0
  protocol : Bytes := []
  deriving DecidableEq

structure RegistryEntry where
  nodeId : Bytes := []
  hostname : Bytes := []
  bindAddress : Bytes := []
  bindPort : UInt16 := 0
  services : List ServiceDescriptor := []
  lastHeartbeatNs : Int := 0
  deriving DecidableEq

inductive RegistryEvent where
  | add
  | remove
  | update
  deriving DecidableEq

/-- A `std::function`: the callable of type `κ` in it, if there is one. -/
abbrev RegistryCallback (κ : Type) := Option κ

structure ServiceRegistry (κ : Type) where
  nodes : Table Bytes RegistryEntry := ∅
  subs : Table UInt64 (RegistryCallback κ) := ∅
  nextSubId : UInt64 := 1

namespace ServiceRegistry

variable {κ : Type}

/-- `register_node` up to the notification, which is about `entry`. -/
def registerNode (registry : ServiceRegistry κ) (entry : RegistryEntry) :
    Except ErrorCode Bool × ServiceRegistry κ :=
  if entry.nodeId.isEmpty then (.error .invalidArg, registry)
  else
    let isNew := (registry.nodes.lookup entry.nodeId).isNone
    (.ok isNew, { registry with nodes := registry.nodes.insert entry.nodeId entry })

def unregisterNode (registry : ServiceRegistry κ) (nodeId : Bytes) :
    Option RegistryEntry × ServiceRegistry κ :=
  match registry.nodes.lookup nodeId with
  | none => (none, registry)
  | some removed => (some removed, { registry with nodes := registry.nodes.erase nodeId })

def getNode (registry : ServiceRegistry κ) (nodeId : Bytes) : Except ErrorCode RegistryEntry :=
  match registry.nodes.lookup nodeId with
  | none => .error .bizFileNotFound
  | some entry => .ok entry

def snapshot (registry : ServiceRegistry κ) : List RegistryEntry := Table.values registry.nodes

def subscribe (registry : ServiceRegistry κ) (cb : RegistryCallback κ) : UInt64 × ServiceRegistry κ :=
  let id := registry.nextSubId
  (id, { registry with subs := registry.subs.insert id cb, nextSubId := id + 1 })

def unsubscribe (registry : ServiceRegistry κ) (handleId : UInt64) : ServiceRegistry κ :=
  { registry with subs := registry.subs.erase handleId }

variable {registry after : ServiceRegistry κ}

theorem registerNode_error {entry : RegistryEntry} {code : ErrorCode}
    (result : registry.registerNode entry = (.error code, after)) : after = registry := by
  unfold registerNode at result
  split at result <;> cases result
  rfl

theorem registerNode_ok {entry : RegistryEntry} {isNew : Bool}
    (result : registry.registerNode entry = (.ok isNew, after)) :
    isNew = (registry.nodes.lookup entry.nodeId).isNone ∧
      after = { registry with nodes := registry.nodes.insert entry.nodeId entry } := by
  unfold registerNode at result
  split at result <;> cases result
  exact ⟨rfl, rfl⟩

theorem unregisterNode_none {nodeId : Bytes}
    (result : registry.unregisterNode nodeId = (none, after)) : after = registry := by
  unfold unregisterNode at result
  split at result <;> cases result
  rfl

theorem unregisterNode_some {nodeId : Bytes} {removed : RegistryEntry}
    (result : registry.unregisterNode nodeId = (some removed, after)) :
    registry.nodes.lookup nodeId = some removed ∧
      after = { registry with nodes := registry.nodes.erase nodeId } := by
  unfold unregisterNode at result
  split at result <;> cases result
  exact ⟨by assumption, rfl⟩

end ServiceRegistry

/-- A handle, `owned` while its owner is set. -/
structure SubscriptionHandle where
  owned : Bool := false
  id : UInt64 := 0

namespace SubscriptionHandle

def releases (handle : SubscriptionHandle) : Option UInt64 :=
  if handle.owned then some handle.id else none

def released (handle : SubscriptionHandle) : SubscriptionHandle :=
  if handle.owned then {} else handle

end SubscriptionHandle

abbrev Handles := Nat → Option SubscriptionHandle

def Handles.put (handles : Handles) (place : Nat) (handle : Option SubscriptionHandle) : Handles :=
  fun other => if other = place then handle else handles other

inductive HandleCall where
  | unsubscribe (id : UInt64)
  | release (place : Nat)
  | destroy (place : Nat)
  | construct (target source : Nat)
  | assign (target source : Nat)

namespace HandleCall

def unsubscribes (handles : Handles) : HandleCall → Option UInt64
  | unsubscribe id => some id
  | release place => (handles place).bind SubscriptionHandle.releases
  | destroy place => (handles place).bind SubscriptionHandle.releases
  | construct _ _ => none
  | assign target source =>
      if target = source then none else (handles target).bind SubscriptionHandle.releases

def settle (handles : Handles) : HandleCall → Handles
  | unsubscribe _ => handles
  | release place => handles.put place ((handles place).map SubscriptionHandle.released)
  | destroy place => handles.put place none
  | construct target source =>
      if (handles target).isSome then handles
      else (handles.put source ((handles source).map fun _ => {})).put target (handles source)
  | assign target source =>
      if target = source ∨ (handles target).isNone then handles
      else (handles.put source ((handles source).map fun _ => {})).put target (handles source)

end HandleCall

end Udaf
