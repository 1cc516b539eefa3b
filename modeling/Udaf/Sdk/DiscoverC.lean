import Udaf.Lib.Run
import Udaf.Sdk.CApi

/-!
What the C caller reads from the entries of `udaf_client_discover`, whatever it has called
before, and until it asks for a list again.
-/

namespace Udaf

open ByteString Runs

structure SeenNode where
  nodeId : Bytes
  hostname : Bytes
  bindAddress : Bytes
  bindPort : UInt16
  serviceCount : UInt32
  deriving DecidableEq

structure CCall where
  op : COp
  occasion : Occasion
  reply : CReply

def CStep (sha512 : Bytes → Bytes) (handle : CHandle) (call : CCall) (next : CHandle) : Prop :=
  handle.exec sha512 call.occasion call.op = (call.reply, next)

/-- The calls that fill the buffers which the entries of a list point into. -/
def COp.Lists : COp → Prop
  | .discover _ _ _ => True
  | .trustList _ _ => True
  | _ => False

def CCall.sets (nodeId : Bytes) (call : CCall) : Option (Option SeenNode) :=
  match call.op, call.reply with
  | .registerNode (some registered) (some hostname) (some bindAddress) bindPort, .status .ok =>
      if registered.1 = nodeId then
        some (some ⟨registered.1, hostname.1, bindAddress.1, bindPort, 0⟩)
      else none
  | .unregisterNode (some removed), .status .ok =>
      if removed.1 = nodeId then some none else none
  | _, _ => none

namespace CHandle

def seenAt (handle : CHandle) (entries place : Nat) : Option SeenNode := do
  let entry ← handle.nodeEntries.at? entries place
  let nodeId ← handle.rep.text entry.nodeId
  let hostname ← handle.rep.text entry.hostname
  let bindAddress ← handle.rep.text entry.bindAddress
  return ⟨nodeId, hostname, bindAddress, entry.bindPort, entry.serviceCount⟩

def texts (entries : List RegistryEntry) : List Bytes :=
  entries.flatMap fun e => [e.nodeId, e.hostname, e.bindAddress]

def nodeEntry (storage place : Nat) (e : RegistryEntry) : CNodeEntry where
  nodeId := .strBuf storage (3 * place)
  hostname := .strBuf storage (3 * place + 1)
  bindAddress := .strBuf storage (3 * place + 2)
  bindPort := e.bindPort
  serviceCount := UInt32.ofNat e.services.length

def listed (handle : CHandle) (entries : List RegistryEntry) : CHandle :=
  { handle with
    rep := { handle.rep with strBuf := { handle.rep.strBuf with strings := texts entries } }
    nodeEntries := { handle.nodeEntries with
      items := entries.mapIdx (nodeEntry handle.rep.strBuf.storage) } }

theorem texts_length (entries : List RegistryEntry) : (texts entries).length = 3 * entries.length := by
  simp [texts, List.length_flatMap, Nat.mul_comm]

theorem string_room {vector : StringVector} (room : vector.strings.length < vector.capacity)
    (string : Bytes) :
    vector.pushBack string = { vector with strings := vector.strings ++ [string] } := if_pos room

theorem three_room {vector : StringVector} (room : vector.strings.length + 3 ≤ vector.capacity)
    (first second third : Bytes) :
    ((vector.pushBack first).pushBack second).pushBack third =
      { vector with strings := vector.strings ++ [first] ++ [second] ++ [third] } := by
  rw [@string_room vector (by omega) first]
  rw [@string_room { vector with strings := vector.strings ++ [first] } (by simp; omega) second]
  refine string_room ?_ third
  simp
  omega

theorem addNode_listed {handle : CHandle} {entries : List RegistryEntry}
    (strings : 3 * (entries.length + 1) ≤ handle.rep.strBuf.capacity)
    (items : entries.length + 1 ≤ handle.nodeEntries.capacity) (e : RegistryEntry) :
    (handle.listed entries).addNode e = handle.listed (entries ++ [e]) := by
  have size := texts_length entries
  have texts : ((((handle.listed entries).rep.strBuf.pushBack e.nodeId).pushBack
      e.hostname).pushBack e.bindAddress) = { handle.rep.strBuf with
        strings := texts entries ++ [e.nodeId] ++ [e.hostname] ++ [e.bindAddress] } := by
    refine three_room ?_ _ _ _
    simp only [listed]
    omega
  have room : (handle.listed entries).nodeEntries.items.length <
      (handle.listed entries).nodeEntries.capacity := by
    simp only [listed, List.length_mapIdx]
    omega
  have added : CHandle.texts (entries ++ [e]) =
      CHandle.texts entries ++ [e.nodeId] ++ [e.hostname] ++ [e.bindAddress] := by
    simp [CHandle.texts]
  simp only [addNode, texts, Buffer.pushBack_room room, List.length_append, List.length_singleton,
    size]
  simp [listed, added, nodeEntry, List.mapIdx_concat]

theorem foldl_addNode {handle : CHandle} {entries : List RegistryEntry}
    (strings : 3 * entries.length ≤ handle.rep.strBuf.capacity)
    (items : entries.length ≤ handle.nodeEntries.capacity) (empty : handle.listed [] = handle) :
    entries.foldl addNode handle = handle.listed entries := by
  induction entries using List.reverseRecOn with
  | nil => exact empty.symm
  | append_singleton entries e ih =>
      rw [List.length_append, List.length_singleton] at strings items
      rw [List.foldl_append, ih (by omega) (by omega), List.foldl_cons, List.foldl_nil,
        addNode_listed strings items]

theorem cleared_room (handle : CHandle) (count : Nat) :
    count * 3 ≤ (handle.cleared count).rep.strBuf.capacity ∧
      count ≤ (handle.cleared count).nodeEntries.capacity ∧
      (handle.cleared count).listed [] = handle.cleared count := by
  refine ⟨?_, Buffer.reserve_room _ _, ?_⟩
  · simp only [cleared, StringVector.reserve]
    split
    · exact Nat.le_refl _
    · omega
  · have strings : (handle.rep.strBuf.clear.reserve (count * 3)).strings = [] := by
      rw [StringVector.reserve]
      split <;> rfl
    have items : (handle.nodeEntries.clear.reserve count).items = [] := by
      rw [Buffer.reserve_items]
      rfl
    simp only [listed, cleared, texts, List.flatMap_nil, List.mapIdx_nil]
    rw [← strings, ← items]

theorem discover_listed (handle : CHandle) (capabilityFilter : Option CString) :
    handle.discover capabilityFilter true true =
      (.nodes (handle.cleared handle.site.client.registry.snapshot.length).nodeEntries.storage
          (UInt32.ofNat handle.site.client.registry.snapshot.length),
        (handle.cleared handle.site.client.registry.snapshot.length).listed
          handle.site.client.registry.snapshot) := by
  obtain ⟨strings, items, empty⟩ :=
    cleared_room handle handle.site.client.registry.snapshot.length
  have filled := foldl_addNode (by omega) items empty
  simp only [discover, Bool.and_self, if_true, filled]
  simp [listed]

theorem texts_getElem? {entries : List RegistryEntry} {place : Nat} {e : RegistryEntry}
    (found : entries[place]? = some e) : (texts entries)[3 * place]? = some e.nodeId ∧
      (texts entries)[3 * place + 1]? = some e.hostname ∧
      (texts entries)[3 * place + 2]? = some e.bindAddress := by
  induction entries generalizing place with
  | nil => cases found
  | cons head entries ih =>
      cases place with
      | zero =>
          cases found
          exact ⟨rfl, rfl, rfl⟩
      | succ place => exact ih found

theorem seenAt_listed (handle : CHandle) {entries : List RegistryEntry} {place : Nat}
    {e : RegistryEntry} (found : entries[place]? = some e)
    (whole : 0 ∉ e.nodeId ∧ 0 ∉ e.hostname ∧ 0 ∉ e.bindAddress) :
    (handle.listed entries).seenAt handle.nodeEntries.storage place =
      some ⟨e.nodeId, e.hostname, e.bindAddress, e.bindPort, UInt32.ofNat e.services.length⟩ := by
  obtain ⟨nodeId, hostname, bindAddress⟩ := texts_getElem? found
  have entry : (handle.listed entries).nodeEntries.at? handle.nodeEntries.storage place =
      some (nodeEntry handle.rep.strBuf.storage place e) := by
    rw [listed, Buffer.at?, if_pos rfl, List.getElem?_mapIdx, found, Option.map_some]
  have read : ∀ index string, (texts entries)[index]? = some string → 0 ∉ string →
      (handle.listed entries).rep.text (.strBuf handle.rep.strBuf.storage index) = some string := by
    intro index string stored clean
    refine (if_pos rfl).trans ?_
    rw [← ClientRep.whole_iff] at clean
    exact (congrArg (Option.map _) stored).trans (congrArg some clean)
  simp only [seenAt, entry, nodeEntry, Option.bind_eq_bind, Option.bind_some,
    read _ _ nodeId whole.1, read _ _ hostname whole.2.1, read _ _ bindAddress whole.2.2]
  rfl

section Runs

variable {sha512 : Bytes → Bytes} {handle next : CHandle} {call : CCall} {past : List CCall}

theorem exec_registry {site : ClientSite} {occasion : Occasion} {op : ClientOp}
    (noRegister : ∀ nodeId hostname bindAddr bindPort,
      op ≠ .registerNode nodeId hostname bindAddr bindPort)
    (noUnregister : ∀ nodeId, op ≠ .unregisterNode nodeId) :
    (site.exec sha512 occasion op).2.client.registry = site.client.registry := by
  have effect := @exec_effect sha512 site occasion op
  generalize site.exec sha512 occasion op = outcome at effect ⊢
  obtain ⟨reply, next⟩ := outcome
  cases effect with
  | refused failed same sequence => exact same.2
  | recorded noAdd noRemove trusted same following current => exact same.2
  | added printed entries same advanced => exact same
  | removed entries same advanced => exact same
  | registered same sequence => exact absurd rfl (noRegister _ _ _ _)
  | unregistered same sequence => exact absurd rfl (noUnregister _)

theorem start_registry (site : ClientSite) (occasion : Occasion) :
    (site.start sha512 occasion).client.registry = site.client.registry := by
  rw [ClientSite.start]
  split
  · exact (audit_recorded site occasion .nodeRegister _ _).advanced.1.2
  · rfl

theorem stop_registry (site : ClientSite) (occasion : Occasion) :
    (site.stop sha512 occasion).client.registry = site.client.registry := by
  rw [ClientSite.stop]
  split
  · exact (audit_recorded site occasion .nodeUnregister _ _).advanced.1.2
  · rfl

end Runs

end CHandle

def SeenNode.entry (node : SeenNode) : RegistryEntry where
  nodeId := node.nodeId
  hostname := node.hostname
  bindAddress := node.bindAddress
  bindPort := node.bindPort

structure SeenNode.Fits (node : SeenNode) (nodeId : Bytes) : Prop where
  here : node.nodeId = nodeId
  nodeId : 0 ∉ node.nodeId
  hostname : 0 ∉ node.hostname
  bindAddress : 0 ∉ node.bindAddress
  serviceless : node.serviceCount = 0

namespace CHandle

section Steps

variable {sha512 : Bytes → Bytes} {handle next : CHandle} {call : CCall} {past : List CCall}

theorem sets_fits {nodeId : Bytes} {node : SeenNode} (set : call.sets nodeId = some (some node)) :
    node.Fits nodeId := by
  rw [CCall.sets] at set
  split at set
  · split_ifs at set with same
    cases set
    rename_i registered hostname bindAddress bindPort _ _
    exact ⟨same, registered.2, hostname.2, bindAddress.2, rfl⟩
  · split_ifs at set
    cases set
  · cases set

structure Kept (handle : CHandle) (call : CCall) (next : CHandle) : Prop where
  rep : next.rep = handle.rep
  nodeEntries : next.nodeEntries = handle.nodeEntries
  registry : ∀ nodeId, next.site.client.registry.nodes.lookup nodeId =
    ((call.sets nodeId).map (Option.map SeenNode.entry)).getD
      (handle.site.client.registry.nodes.lookup nodeId)

theorem kept_same {op : COp} {occasion : Occasion} {reply : CReply} {site : ClientSite}
    (unset : ∀ nodeId, CCall.sets nodeId ⟨op, occasion, reply⟩ = none)
    (same : site.client.registry = handle.site.client.registry) :
    Kept handle ⟨op, occasion, reply⟩ { handle with site := site } := by
  refine ⟨rfl, rfl, fun nodeId => ?_⟩
  rw [unset, same]
  rfl

theorem registerNode_kept (occasion : Occasion) (nodeId hostname bindAddress : Option CString)
    (bindPort : UInt16) :
    Kept handle ⟨.registerNode nodeId hostname bindAddress bindPort, occasion,
        (handle.registerNode nodeId hostname bindAddress bindPort).1⟩
      (handle.registerNode nodeId hostname bindAddress bindPort).2 := by
  match nodeId, hostname, bindAddress with
  | some nodeId, some hostname, some bindAddress =>
      simp only [registerNode, ClientSite.registerNode, ServiceRegistry.registerNode]
      by_cases blank : nodeId.1.isEmpty = true
      · simp only [blank, if_true, Except.isOk, Except.toBool, Bool.false_eq_true, if_false]
        exact kept_same (fun _ => rfl) rfl
      · simp only [blank, if_true, Except.isOk, Except.toBool, Bool.false_eq_true, if_false]
        refine ⟨rfl, rfl, fun other => ?_⟩
        simp only [CCall.sets]
        rw [Table.lookup_set]
        by_cases same : other = nodeId.1
        · rw [if_pos same, if_pos same.symm]
          rfl
        · rw [if_neg same, if_neg (Ne.symm same)]
          rfl
  | none, _, _ => exact kept_same (fun _ => rfl) rfl
  | some _, none, _ => exact kept_same (fun _ => rfl) rfl
  | some _, some _, none => exact kept_same (fun _ => rfl) rfl

theorem unregisterNode_kept (occasion : Occasion) (nodeId : Option CString) :
    Kept handle ⟨.unregisterNode nodeId, occasion, (handle.unregisterNode nodeId).1⟩
      (handle.unregisterNode nodeId).2 := by
  cases nodeId with
  | none => exact kept_same (fun _ => rfl) rfl
  | some nodeId =>
      simp only [unregisterNode, ClientSite.unregisterNode, ServiceRegistry.unregisterNode]
      cases found : handle.site.client.registry.nodes.lookup nodeId.1 with
      | none => exact kept_same (fun _ => rfl) rfl
      | some removed =>
          refine ⟨rfl, rfl, fun other => ?_⟩
          simp only [CCall.sets, Option.isSome_some]
          rw [Table.lookup_remove]
          by_cases same : other = nodeId.1
          · rw [if_pos same, if_pos same.symm]
            rfl
          · rw [if_neg same, if_neg (Ne.symm same)]
            rfl

theorem step_kept (step : CStep sha512 handle call next) (quiet : ¬ call.op.Lists) :
    Kept handle call next := by
  obtain ⟨op, occasion, reply⟩ := call
  rw [CStep, Prod.ext_iff] at step
  obtain ⟨replies, after⟩ := step
  dsimp only at replies after
  subst replies after
  cases op with
  | start => exact kept_same (fun _ => rfl) (start_registry _ _)
  | stop => exact kept_same (fun _ => rfl) (stop_registry _ _)
  | discover capabilityFilter outEntries outCount => exact absurd trivial quiet
  | registerNode nodeId hostname bindAddress bindPort =>
      exact registerNode_kept occasion nodeId hostname bindAddress bindPort
  | unregisterNode nodeId => exact unregisterNode_kept occasion nodeId
  | topologyNodeCount => exact kept_same (fun _ => rfl) rfl
  | trustAdd nodeId fingerprintHex capabilities =>
      match nodeId, fingerprintHex with
      | some nodeId, some fingerprintHex =>
          exact kept_same (fun _ => rfl) (@exec_registry sha512 _ occasion
            (.trustAdd nodeId.1 fingerprintHex.1 (capabilities.map copyCstr)) (by simp) (by simp))
      | none, _ => exact kept_same (fun _ => rfl) rfl
      | some _, none => exact kept_same (fun _ => rfl) rfl
  | trustRemove nodeId =>
      cases nodeId with
      | none => exact kept_same (fun _ => rfl) rfl
      | some nodeId =>
          exact kept_same (fun _ => rfl) (@exec_registry sha512 _ occasion
            (.trustRemove nodeId.1) (by simp) (by simp))
  | trustList outEntries outCount => exact absurd trivial quiet
  | runRemote nodeId command args out =>
      match nodeId, command, out with
      | some nodeId, some command, true =>
          exact kept_same (fun _ => rfl) (@exec_registry sha512 _ occasion
            (.runRemote nodeId.1 command.1 (args.map copyCstr)) (by simp) (by simp))
      | none, _, _ => exact kept_same (fun _ => rfl) rfl
      | some _, none, _ => exact kept_same (fun _ => rfl) rfl
      | some _, some _, false => exact kept_same (fun _ => rfl) rfl
  | pushFile srcPath dstNode dstPath out =>
      match srcPath, dstNode, dstPath, out with
      | some srcPath, some dstNode, some dstPath, true =>
          exact kept_same (fun _ => rfl) (@exec_registry sha512 _ occasion
            (.pushFile srcPath.1 dstNode.1 dstPath.1) (by simp) (by simp))
      | none, _, _, _ => exact kept_same (fun _ => rfl) rfl
      | some _, none, _, _ => exact kept_same (fun _ => rfl) rfl
      | some _, some _, none, _ => exact kept_same (fun _ => rfl) rfl
      | some _, some _, some _, false => exact kept_same (fun _ => rfl) rfl
  | pullFile srcNode srcPath dstPath out =>
      match srcNode, srcPath, dstPath, out with
      | some srcNode, some srcPath, some dstPath, true =>
          exact kept_same (fun _ => rfl) (@exec_registry sha512 _ occasion
            (.pullFile srcNode.1 srcPath.1 dstPath.1) (by simp) (by simp))
      | none, _, _, _ => exact kept_same (fun _ => rfl) rfl
      | some _, none, _, _ => exact kept_same (fun _ => rfl) rfl
      | some _, some _, none, _ => exact kept_same (fun _ => rfl) rfl
      | some _, some _, some _, false => exact kept_same (fun _ => rfl) rfl

def Tells (past : List CCall) (handle : CHandle) : Prop :=
  ∀ nodeId, handle.site.client.registry.nodes.lookup nodeId =
    (latest (CCall.sets nodeId) past).map SeenNode.entry

theorem list_site (step : CStep sha512 handle call next) (lists : call.op.Lists) :
    next.site = handle.site ∧ ∀ nodeId, call.sets nodeId = none := by
  obtain ⟨op, occasion, reply⟩ := call
  rw [CStep, Prod.ext_iff] at step
  obtain ⟨-, after⟩ := step
  dsimp only at after
  subst after
  cases op with
  | discover capabilityFilter outEntries outCount =>
      refine ⟨?_, fun _ => rfl⟩
      match outEntries, outCount with
      | true, true =>
          change (handle.discover capabilityFilter true true).2.site = handle.site
          rw [discover_listed]
          rfl
      | true, false => rfl
      | false, _ => rfl
  | trustList outEntries outCount =>
      refine ⟨?_, fun _ => rfl⟩
      match outEntries, outCount with
      | true, true => rfl
      | true, false => rfl
      | false, _ => rfl
  | _ => cases lists

theorem Tells.step (tells : Tells past handle) (step : CStep sha512 handle call next) :
    Tells (past ++ [call]) next := by
  intro nodeId
  rw [latest_concat]
  by_cases lists : call.op.Lists
  · obtain ⟨site, unset⟩ := list_site step lists
    rw [site, unset]
    exact tells nodeId
  · rw [(step_kept step lists).registry, tells]
    cases call.sets nodeId with
    | none => rfl
    | some set => rfl

theorem created_tells (cfg : CConfig) (file : Option Bytes) (genesis : Genesis)
    (occasion : Occasion) : Tells [] (create sha512 cfg file genesis occasion) := by
  intro nodeId
  rw [create, start_registry, ClientSite.opened]
  split_ifs <;> rfl

theorem latest_fits {nodeId : Bytes} {node : SeenNode}
    (found : latest (CCall.sets nodeId) past = some node) : node.Fits nodeId := by
  obtain ⟨before, setter, later, -, set, -⟩ := latest_eq_some.mp found
  exact sets_fits set

def seenOf (e : RegistryEntry) : SeenNode :=
  ⟨e.nodeId, e.hostname, e.bindAddress, e.bindPort, UInt32.ofNat e.services.length⟩

theorem seenOf_entry {node : SeenNode} {nodeId : Bytes} (fits : node.Fits nodeId) :
    seenOf node.entry = node := by
  have serviceless := fits.serviceless
  obtain ⟨id, hostname, bindAddress, bindPort, serviceCount⟩ := node
  subst serviceless
  rfl

theorem Tells.found (tells : Tells past handle) {nodeId : Bytes} {e : RegistryEntry}
    (found : handle.site.client.registry.nodes.lookup nodeId = some e) :
    (seenOf e).Fits nodeId ∧ e = (seenOf e).entry ∧
      latest (CCall.sets nodeId) past = some (seenOf e) := by
  rw [tells] at found
  obtain ⟨node, set, rfl⟩ := Option.map_eq_some_iff.mp found
  have fits := latest_fits set
  rw [seenOf_entry fits]
  exact ⟨fits, rfl, set⟩

theorem Tells.nodup (tells : Tells past handle) :
    ((handle.site.client.registry.snapshot.map seenOf).map SeenNode.nodeId).Nodup := by
  have keys : (handle.site.client.registry.snapshot.map seenOf).map SeenNode.nodeId =
      handle.site.client.registry.nodes.keys := by
    rw [ServiceRegistry.snapshot, Table.values, List.map_map, List.map_map, AList.keys, List.keys]
    refine List.map_congr_left fun entry member => ?_
    exact (tells.found (Table.lookup_eq_some.mpr member)).1.here
  rw [keys]
  exact handle.site.client.registry.nodes.keys_nodup

theorem Tells.mem (tells : Tells past handle) (node : SeenNode) :
    node ∈ handle.site.client.registry.snapshot.map seenOf ↔
      latest (CCall.sets node.nodeId) past = some node := by
  rw [List.mem_map]
  constructor
  · rintro ⟨e, member, rfl⟩
    obtain ⟨nodeId, found⟩ := Table.mem_values.mp member
    obtain ⟨fits, -, set⟩ := tells.found found
    rw [fits.here]
    exact set
  · intro set
    refine ⟨node.entry, Table.mem_values.mpr ⟨node.nodeId, ?_⟩, seenOf_entry (latest_fits set)⟩
    rw [tells, set]
    rfl

theorem run_quiet {calls : List CCall} (run : Run (CStep sha512) handle calls next)
    (quiet : ∀ other ∈ calls, ¬ other.op.Lists) :
    next.rep = handle.rep ∧ next.nodeEntries = handle.nodeEntries := by
  induction run with
  | nil => exact ⟨rfl, rfl⟩
  | cons step rest ih =>
      have kept := step_kept step (quiet _ (by simp))
      obtain ⟨rep, nodeEntries⟩ := ih fun other member => quiet other (by simp [member])
      exact ⟨rep.trans kept.rep, nodeEntries.trans kept.nodeEntries⟩

/-- The entries of `discover` are the nodes that C has registered and not taken back, each as it
was registered last; they can be read until the next list is asked for. -/
theorem discovered_lasts {cfg : CConfig} {file : Option Bytes} {genesis : Genesis}
    {occasion : Occasion} {later : List CCall} {capabilityFilter : Option CString}
    (run : Run (CStep sha512) (create sha512 cfg file genesis occasion) (past ++ call :: later) handle)
    (asked : call.op = .discover capabilityFilter true true)
    (quiet : ∀ other ∈ later, ¬ other.op.Lists) :
    ∃ (entries : Nat) (count : UInt32) (nodes : List SeenNode),
      call.reply = .nodes entries count ∧ count.toNat = nodes.length % 2 ^ 32 ∧
      (nodes.map SeenNode.nodeId).Nodup ∧
      (∀ node, node ∈ nodes ↔ latest (CCall.sets node.nodeId) past = some node) ∧
      ∀ (place : Nat) (node : SeenNode), nodes[place]? = some node →
        handle.seenAt entries place = some node := by
  obtain ⟨middle, before, after⟩ := run.split
  have tells : Tells past middle := before.history (fun step tells => Tells.step tells step)
    (created_tells cfg file genesis occasion)
  cases after with
  | @cons _ listed _ _ _ step rest =>
      obtain ⟨op, occasion, reply⟩ := call
      dsimp only at asked
      subst asked
      rw [CStep, exec, discover_listed, Prod.mk.injEq] at step
      obtain ⟨replies, left⟩ := step
      obtain ⟨rep, nodeEntries⟩ := run_quiet rest quiet
      refine ⟨_, _, middle.site.client.registry.snapshot.map seenOf, replies.symm, ?_, tells.nodup,
        tells.mem, ?_⟩
      · rw [List.length_map]
        exact UInt32.toNat_ofNat'
      · intro place node found
        rw [List.getElem?_map] at found
        obtain ⟨e, stored, rfl⟩ := Option.map_eq_some_iff.mp found
        obtain ⟨nodeId, inside⟩ := Table.mem_values.mp (List.mem_of_getElem? stored)
        obtain ⟨fits, -, -⟩ := tells.found inside
        have shown := seenAt_listed (middle.cleared middle.site.client.registry.snapshot.length)
          stored ⟨fits.nodeId, fits.hostname, fits.bindAddress⟩
        rw [left] at shown
        rw [seenAt, rep, nodeEntries]
        exact shown

def execAll (sha512 : Bytes → Bytes) : List COp → CHandle → List CCall × CHandle
  | [], handle => ([], handle)
  | op :: ops, handle =>
      let (reply, next) := handle.exec sha512 {} op
      let (calls, final) := execAll sha512 ops next
      (⟨op, {}, reply⟩ :: calls, final)

theorem execAll_run (ops : List COp) (handle : CHandle) :
    Run (CStep sha512) handle (execAll sha512 ops handle).1 (execAll sha512 ops handle).2 := by
  induction ops generalizing handle with
  | nil => exact .nil
  | cons op ops ih => exact .cons rfl (ih _)

def sampleHandle : CHandle := create (fun data => data) ⟨none, none⟩ none ⟨[], 0, {}⟩ {}

def sampleOps : List COp :=
  let name : CString := ⟨[97], by decide⟩
  let other : CString := ⟨[98], by decide⟩
  [.registerNode (some name) (some name) (some name) 1, .registerNode (some other) (some other) (some other) 2,
    .registerNode (some name) (some other) (some name) 3, .unregisterNode (some other),
    .discover none true true, .registerNode (some other) (some other) (some other) 4]

def sampleCalls : List CCall × CHandle := execAll (fun data => data) sampleOps sampleHandle

theorem discovered_lasts_sample :
    sampleCalls.2.seenAt 1 0 = some ⟨[97], [98], [97], 3, 0⟩ ∧
      ∃ (entries : Nat) (nodes : List SeenNode),
        (∀ node, node ∈ nodes ↔
          latest (CCall.sets node.nodeId) (sampleCalls.1.take 4) = some node) ∧
        ∀ (place : Nat) (node : SeenNode), nodes[place]? = some node →
          sampleCalls.2.seenAt entries place = some node := by
  have run := @execAll_run (fun data => data) sampleOps sampleHandle
  have quiet : ∀ other ∈ sampleCalls.1.drop 5, ¬ other.op.Lists := by
    intro other member
    rw [List.mem_singleton.mp member]
    exact id
  obtain ⟨entries, count, nodes, -, -, -, members, seen⟩ :=
    @discovered_lasts (fun data => data) sampleCalls.2 _ (sampleCalls.1.take 4) ⟨none, none⟩ none
      ⟨[], 0, {}⟩ {} (sampleCalls.1.drop 5) none run rfl quiet
  exact ⟨by decide, entries, nodes, members, seen⟩

end Steps

end CHandle

end Udaf
