import Mathlib.Logic.Function.Basic
import Udaf.AbilityB.TopologyGraph

/-!
What a `Topology` was given, the latest node under each id and the latest protocol of
each edge, and what of it the topology gives back.
-/

namespace Udaf

open ByteString

structure Given where
  node : Bytes → Option PeerNode := fun _ => none
  protocol : Bytes × Bytes → Option Bytes := fun _ => none

namespace Given

def apply (given : Given) : TxCall → Given
  | .addNode n => { given with node := Function.update given.node n.nodeId (some n) }
  | .removeNode nodeId =>
      { node := Function.update given.node nodeId none
        protocol := fun pair =>
          if pair.1 ≠ nodeId ∧ pair.2 ≠ nodeId then given.protocol pair else none }
  | .addEdge e =>
      { given with protocol :=
          Function.update given.protocol (e.fromNode, e.toNode) (some e.protocol) }
  | .removeEdge source target =>
      { given with protocol := Function.update given.protocol (source, target) none }

def run (commits : List (List TxCall)) : Given := commits.flatten.foldl apply {}

/-- Nothing present was given more than its ids. -/
structure Bare (given : Given) : Prop where
  nodes : ∀ nodeId n, given.node nodeId = some n → n = { nodeId := n.nodeId }
  edges : ∀ pair protocol, given.protocol pair = some protocol → protocol = []

structure Spans (given : Given) (graph : Graph) : Prop where
  nodes : ∀ nodeId, nodeId ∈ graph.nodes ↔ (given.node nodeId).isSome
  pairs : ∀ pair, pair ∈ graph.pairs ↔ (given.protocol pair).isSome
  named : ∀ nodeId n, given.node nodeId = some n → n.nodeId = nodeId

theorem initial_spans : Spans {} {} where
  nodes := by simp
  pairs := by simp
  named := by
    intro nodeId n given
    cases given

theorem Spans.apply {given : Given} {graph : Graph} (spans : given.Spans graph) (call : TxCall) :
    (given.apply call).Spans (graph.apply call) := by
  cases call with
  | addNode n =>
      refine ⟨?_, spans.pairs, ?_⟩
      · intro nodeId
        simp only [Graph.apply, Given.apply, Finset.mem_insert, Function.update_apply, spans.nodes]
        by_cases same : nodeId = n.nodeId
        · simp [same]
        · simp [same]
      · intro nodeId other latest
        simp only [Given.apply, Function.update_apply] at latest
        split at latest
        · rename_i same
          cases latest
          exact same.symm
        · exact spans.named nodeId other latest
  | removeNode removed =>
      refine ⟨?_, ?_, ?_⟩
      · intro nodeId
        simp only [Graph.apply, Given.apply, Finset.mem_erase, Function.update_apply, spans.nodes]
        by_cases same : nodeId = removed
        · simp [same]
        · simp [same]
      · intro pair
        simp only [Graph.apply, Given.apply, Finset.mem_filter, spans.pairs]
        by_cases apart : pair.1 ≠ removed ∧ pair.2 ≠ removed
        · rw [if_pos apart]
          exact and_iff_left apart
        · rw [if_neg apart]
          exact iff_of_false (fun both => apart both.2) Bool.false_ne_true
      · intro nodeId n latest
        simp only [Given.apply, Function.update_apply] at latest
        split at latest
        · cases latest
        · exact spans.named nodeId n latest
  | addEdge e =>
      refine ⟨spans.nodes, ?_, spans.named⟩
      intro pair
      simp only [Graph.apply, Given.apply, Finset.mem_insert, Function.update_apply, spans.pairs]
      by_cases same : pair = (e.fromNode, e.toNode)
      · simp [same]
      · simp [same]
  | removeEdge source target =>
      refine ⟨spans.nodes, ?_, spans.named⟩
      intro pair
      simp only [Graph.apply, Given.apply, Finset.mem_erase, Function.update_apply, spans.pairs]
      by_cases same : pair = (source, target)
      · simp [same]
      · simp [same]

theorem Spans.applyAll {given : Given} {graph : Graph} (spans : given.Spans graph)
    (calls : List TxCall) : (calls.foldl Given.apply given).Spans (calls.foldl Graph.apply graph) := by
  induction calls generalizing given graph with
  | nil => exact spans
  | cons call calls ih => exact ih (spans.apply call)

end Given

def TxCall.ids : TxCall → List Bytes
  | .addNode n => [n.nodeId]
  | .removeNode nodeId => [nodeId]
  | .addEdge e => [e.fromNode, e.toNode]
  | .removeEdge source target => [source, target]

theorem Graph.admits_free {graph : Graph} (clean : ∀ pair ∈ graph.pairs, Topology.edgeBar ∉ pair.1)
    {call : TxCall} (free : ∀ nodeId ∈ call.ids, Topology.edgeBar ∉ nodeId) : graph.Admits call := by
  cases call with
  | addNode n => trivial
  | removeNode nodeId => trivial
  | addEdge e => exact free e.fromNode (List.mem_cons_self ..)
  | removeEdge source target =>
      intro pair member same
      exact Topology.edgeKey_injective (clean pair member) (free source (List.mem_cons_self ..)) same

namespace Topology

/-- A present node is the one given last, and the edges come with the protocols given last. -/
structure Keeps (topology : Topology) (given : Given) : Prop where
  nodes : ∀ nodeId n, given.node nodeId = some n → topology.getNode nodeId = .ok n
  edges : ∀ e, e ∈ topology.edges ↔ given.protocol (ends e) = some e.protocol

variable {topology : Topology} {graph : Graph}

theorem Represents.applyFree (represents : Represents topology graph) {calls : List TxCall}
    (free : ∀ call ∈ calls, ∀ nodeId ∈ call.ids, edgeBar ∉ nodeId) :
    Represents ((calls.map TxCall.item).foldl Topology.apply topology)
      (calls.foldl Graph.apply graph) := by
  induction calls generalizing topology graph with
  | nil => exact represents
  | cons call calls ih =>
      have admits := Graph.admits_free represents.clean (free call (List.mem_cons_self ..))
      exact ih (represents.apply admits) fun other member =>
        free other (List.mem_cons_of_mem call member)

theorem Represents.getNode (represents : Represents topology graph) {nodeId : Bytes}
    (present : nodeId ∈ graph.nodes) : topology.getNode nodeId = .ok { nodeId := nodeId } := by
  rw [Topology.getNode, represents.nodes, if_pos present]

theorem edges_bare {e : PeerEdge} (member : e ∈ topology.edges) : e.protocol = [] := by
  obtain ⟨key, -, cut⟩ := List.mem_filterMap.mp member
  obtain ⟨pair, -, rfl⟩ := Option.map_eq_some_iff.mp cut
  rfl

theorem mem_edges (represents : Represents topology graph) (e : PeerEdge) :
    e ∈ topology.edges ↔ e.protocol = [] ∧ ends e ∈ graph.pairs := by
  rw [← represents.agrees.edges]
  constructor
  · intro member
    exact ⟨edges_bare member, List.mem_map_of_mem member⟩
  · rintro ⟨bare, inside⟩
    obtain ⟨other, member, same⟩ := List.mem_map.mp inside
    have alike := edges_bare member
    cases e
    cases other
    cases same
    cases bare
    cases alike
    exact member

theorem keeps_iff {given : Given} (represents : Represents topology graph)
    (spans : given.Spans graph) : topology.Keeps given ↔ given.Bare := by
  constructor
  · intro keeps
    constructor
    · intro nodeId n latest
      have present := (spans.nodes nodeId).mpr (by rw [latest]; rfl)
      have stored := (keeps.nodes nodeId n latest).symm.trans (represents.getNode present)
      cases stored
      rfl
    · intro pair protocol latest
      exact edges_bare ((keeps.edges ⟨pair.1, pair.2, protocol⟩).mpr latest)
  · intro bare
    constructor
    · intro nodeId n latest
      have present := (spans.nodes nodeId).mpr (by rw [latest]; rfl)
      rw [represents.getNode present, bare.nodes nodeId n latest, spans.named nodeId n latest]
    · intro e
      rw [mem_edges represents, spans.pairs]
      constructor
      · rintro ⟨empty, present⟩
        obtain ⟨protocol, latest⟩ := Option.isSome_iff_exists.mp present
        rw [latest, bare.edges _ _ latest, empty]
      · intro latest
        exact ⟨bare.edges _ _ latest, by rw [latest]; rfl⟩

end Topology

/-- A topology keeps what it was given exactly when it was given nothing but ids. -/
theorem topology_keeps_iff {commits : List (List TxCall)}
    (free : ∀ call ∈ commits.flatten, ∀ nodeId ∈ call.ids, Topology.edgeBar ∉ nodeId) :
    (Topology.run commits).Keeps (.run commits) ↔ (Given.run commits).Bare := by
  rw [Topology.run_flatten]
  exact Topology.keeps_iff (Topology.initial_represents.applyFree free)
    (Given.initial_spans.applyAll commits.flatten)

theorem topology_keeps_iff_edge :
    let commits := [[TxCall.addNode { nodeId := ascii "n1" },
      .addEdge ⟨ascii "n1", ascii "n2", []⟩], [.removeNode (ascii "n3")]]
    (Topology.run commits).Keeps (.run commits) ↔ (Given.run commits).Bare :=
  topology_keeps_iff (by decide)

theorem topology_drops_hostname :
    let commits := [[TxCall.addNode { nodeId := ascii "n1", hostname := ascii "h1" }]]
    ¬ (Topology.run commits).Keeps (.run commits) := by
  intro commits keeps
  have kept := keeps.nodes (ascii "n1") { nodeId := ascii "n1", hostname := ascii "h1" } rfl
  revert kept
  decide

end Udaf
