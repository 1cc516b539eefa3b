import Udaf.AbilityB.Topology

/-!
The graph that a `Topology` stands for, a set of nodes and a set of ordered pairs. The
two agree as long as no bar stands in front of the one that separates the ends of an edge.
-/

namespace Udaf

open ByteString Text

structure Graph where
  nodes : Finset Bytes := ∅
  pairs : Finset (Bytes × Bytes) := ∅

namespace Graph

def apply (graph : Graph) : TxCall → Graph
  | .addNode n => { graph with nodes := insert n.nodeId graph.nodes }
  | .removeNode nodeId =>
      { nodes := graph.nodes.erase nodeId
        pairs := graph.pairs.filter fun pair => pair.1 ≠ nodeId ∧ pair.2 ≠ nodeId }
  | .addEdge e => { graph with pairs := insert (e.fromNode, e.toNode) graph.pairs }
  | .removeEdge source target => { graph with pairs := graph.pairs.erase (source, target) }

def run (commits : List (List TxCall)) : Graph := commits.flatten.foldl apply {}

/-- The edge that the call adds is not cut inside its first end, and the key that it removes is
not that of another edge. -/
def Admits (graph : Graph) : TxCall → Prop
  | .addEdge e => Topology.edgeBar ∉ e.fromNode
  | .removeEdge source target => ∀ pair ∈ graph.pairs,
      Topology.edgeKey pair.1 pair.2 = Topology.edgeKey source target → pair = (source, target)
  | _ => True

def AdmitsAll : Graph → List TxCall → Prop
  | _, [] => True
  | graph, call :: calls => graph.Admits call ∧ (graph.apply call).AdmitsAll calls

instance decidableAdmits (graph : Graph) : (call : TxCall) → Decidable (graph.Admits call)
  | .addNode _ => .isTrue trivial
  | .removeNode _ => .isTrue trivial
  | .addEdge e => inferInstanceAs (Decidable (Topology.edgeBar ∉ e.fromNode))
  | .removeEdge source target => inferInstanceAs (Decidable (∀ pair ∈ graph.pairs,
      Topology.edgeKey pair.1 pair.2 = Topology.edgeKey source target → pair = (source, target)))

instance decidableAdmitsAll : (graph : Graph) → (calls : List TxCall) →
    Decidable (graph.AdmitsAll calls)
  | _, [] => .isTrue trivial
  | graph, call :: calls =>
      have := decidableAdmitsAll (graph.apply call) calls
      inferInstanceAs (Decidable (graph.Admits call ∧ (graph.apply call).AdmitsAll calls))

end Graph

def TxCall.item : TxCall → TxItem
  | .addNode n => ⟨.addNode, n.nodeId, n.hostname, []⟩
  | .removeNode nodeId => ⟨.removeNode, nodeId, [], []⟩
  | .addEdge e => ⟨.addEdge, e.fromNode, e.toNode, e.protocol⟩
  | .removeEdge source target => ⟨.removeEdge, source, target, []⟩

theorem build_items (calls : List TxCall) :
    (TopologyTransaction.build calls).items = calls.map TxCall.item := by
  have grown : ∀ tx : TopologyTransaction,
      (calls.foldl TopologyTransaction.call tx).items = tx.items ++ calls.map TxCall.item := by
    induction calls with
    | nil =>
        intro tx
        exact (List.append_nil _).symm
    | cons call calls ih =>
        intro tx
        rw [List.foldl_cons, ih, List.map_cons]
        cases call <;> exact List.append_assoc _ [_] _
  exact grown {}

namespace Topology

def ends (e : PeerEdge) : Bytes × Bytes := (e.fromNode, e.toNode)

/-- What a caller sees of the topology is the graph. -/
structure Agrees (topology : Topology) (graph : Graph) : Prop where
  nodeCount : topology.nodeCount = graph.nodes.card
  edgeCount : topology.edgeCount = graph.pairs.card
  once : (topology.edges.map ends).Nodup
  edges : ∀ pair, pair ∈ topology.edges.map ends ↔ pair ∈ graph.pairs

structure Represents (topology : Topology) (graph : Graph) : Prop where
  nodes : ∀ nodeId, topology.nodeTable.lookup nodeId =
    if nodeId ∈ graph.nodes then some { nodeId := nodeId } else none
  keys : ∀ key, key ∈ topology.edgeSet ↔ ∃ pair ∈ graph.pairs, edgeKey pair.1 pair.2 = key
  clean : ∀ pair ∈ graph.pairs, edgeBar ∉ pair.1

theorem cut_edgeKey {a : Bytes} (clean : edgeBar ∉ a) (b : Bytes) :
    takeField edgeBar (edgeKey a b) = some (a, b) :=
  takeField_here clean b

theorem edgeKey_injective {first second : Bytes × Bytes} (clean : edgeBar ∉ first.1)
    (clean' : edgeBar ∉ second.1) (same : edgeKey first.1 first.2 = edgeKey second.1 second.2) :
    first = second := by
  have cut := cut_edgeKey clean first.2
  rw [same, cut_edgeKey clean'] at cut
  exact (Option.some.inj cut).symm

theorem mentions_edgeKey {a b nodeId : Bytes} (clean : edgeBar ∉ a) :
    mentions (edgeKey a b) nodeId = decide (a = nodeId ∨ b = nodeId) := by
  rw [mentions, cut_edgeKey clean]

variable {topology : Topology} {graph : Graph}

theorem initial_represents : Represents {} {} where
  nodes := fun nodeId => AList.lookup_empty nodeId
  keys := by
    intro key
    simp
  clean := by
    intro pair member
    cases member

namespace Represents

variable (represents : Represents topology graph)
include represents

theorem addNode (n : PeerNode) :
    Represents (topology.apply (TxCall.item (.addNode n))) (graph.apply (.addNode n)) where
  nodes := by
    intro nodeId
    simp only [Topology.apply, TxCall.item, Graph.apply, Table.lookup_set, represents.nodes,
      Finset.mem_insert]
    by_cases same : nodeId = n.nodeId
    · simp [same]
    · simp [same]
  keys := represents.keys
  clean := represents.clean

theorem removeNode (removed : Bytes) :
    Represents (topology.apply (TxCall.item (.removeNode removed)))
      (graph.apply (.removeNode removed)) where
  nodes := by
    intro nodeId
    simp only [Topology.apply, TxCall.item, Graph.apply, Table.lookup_remove, represents.nodes,
      Finset.mem_erase]
    by_cases same : nodeId = removed
    · simp [same]
    · simp [same]
  keys := by
    intro key
    simp only [Topology.apply, TxCall.item, Graph.apply, Table.mem_keep, represents.keys,
      Finset.mem_filter]
    constructor
    · rintro ⟨⟨pair, member, rfl⟩, apart⟩
      rw [mentions_edgeKey (represents.clean pair member)] at apart
      exact ⟨pair, ⟨member, by simpa using apart⟩, rfl⟩
    · rintro ⟨pair, ⟨member, apart⟩, rfl⟩
      refine ⟨⟨pair, member, rfl⟩, ?_⟩
      rw [mentions_edgeKey (represents.clean pair member)]
      simpa using apart
  clean := fun pair member => represents.clean pair (Finset.mem_filter.mp member).1

theorem addEdge {e : PeerEdge} (clean : edgeBar ∉ e.fromNode) :
    Represents (topology.apply (TxCall.item (.addEdge e))) (graph.apply (.addEdge e)) where
  nodes := represents.nodes
  keys := by
    intro key
    simp only [Topology.apply, TxCall.item, Graph.apply, AList.mem_insert, represents.keys,
      Finset.mem_insert]
    constructor
    · rintro (rfl | ⟨pair, member, rfl⟩)
      · exact ⟨(e.fromNode, e.toNode), .inl rfl, rfl⟩
      · exact ⟨pair, .inr member, rfl⟩
    · rintro ⟨pair, rfl | member, rfl⟩
      · exact .inl rfl
      · exact .inr ⟨pair, member, rfl⟩
  clean := by
    intro pair member
    rcases Finset.mem_insert.mp member with rfl | old
    · exact clean
    · exact represents.clean pair old

theorem removeEdge {source target : Bytes} (alone : graph.Admits (.removeEdge source target)) :
    Represents (topology.apply (TxCall.item (.removeEdge source target)))
      (graph.apply (.removeEdge source target)) where
  nodes := represents.nodes
  keys := by
    intro key
    simp only [Topology.apply, TxCall.item, Graph.apply, AList.mem_erase, represents.keys,
      Finset.mem_erase]
    constructor
    · rintro ⟨other, pair, member, rfl⟩
      refine ⟨pair, ⟨?_, member⟩, rfl⟩
      rintro rfl
      exact other rfl
    · rintro ⟨pair, ⟨other, member⟩, rfl⟩
      exact ⟨fun same => other (alone pair member same), pair, member, rfl⟩
  clean := fun pair member => represents.clean pair (Finset.mem_erase.mp member).2

theorem apply {call : TxCall} (admits : graph.Admits call) :
    Represents (topology.apply call.item) (graph.apply call) := by
  cases call with
  | addNode n => exact represents.addNode n
  | removeNode nodeId => exact represents.removeNode nodeId
  | addEdge e => exact represents.addEdge admits
  | removeEdge source target => exact represents.removeEdge admits

theorem applyAll {calls : List TxCall} (admits : graph.AdmitsAll calls) :
    Represents ((calls.map TxCall.item).foldl Topology.apply topology)
      (calls.foldl Graph.apply graph) := by
  induction calls generalizing topology graph with
  | nil => exact represents
  | cons call calls ih => exact ih (represents.apply admits.1) admits.2

theorem keys_eq :
    topology.edgeSet.keys.toFinset = graph.pairs.image fun pair => edgeKey pair.1 pair.2 := by
  ext key
  rw [List.mem_toFinset, Finset.mem_image]
  exact represents.keys key

omit represents in
theorem edges_ends :
    topology.edges.map ends = topology.edgeSet.keys.filterMap (takeField edgeBar) := by
  rw [Topology.edges, List.map_filterMap]
  congr 1
  funext key
  cases takeField edgeBar key with
  | none => rfl
  | some pair => rfl

theorem agrees : topology.Agrees graph where
  nodeCount := by
    rw [Topology.nodeCount, Table.size_eq_keys]
    congr 1
    ext nodeId
    rw [List.mem_toFinset, ← AList.mem_keys, ← AList.lookup_isSome, represents.nodes]
    by_cases member : nodeId ∈ graph.nodes
    · simp [member]
    · simp [member]
  edgeCount := by
    rw [Topology.edgeCount, Table.size_eq_keys, represents.keys_eq]
    apply Finset.card_image_of_injOn
    intro first member second member'
    exact edgeKey_injective (represents.clean first member) (represents.clean second member')
  once := by
    rw [edges_ends]
    refine topology.edgeSet.keys_nodup.filterMap ?_
    intro first second pair cut cut'
    rw [(takeField_some cut).2, (takeField_some cut').2]
  edges := by
    rintro ⟨a, b⟩
    rw [edges_ends, List.mem_filterMap]
    constructor
    · rintro ⟨key, member, cut⟩
      obtain ⟨pair, inside, rfl⟩ := (represents.keys key).mp member
      rw [cut_edgeKey (represents.clean pair inside)] at cut
      cases cut
      exact inside
    · intro inside
      exact ⟨edgeKey a b, (represents.keys _).mpr ⟨(a, b), inside, rfl⟩,
        cut_edgeKey (represents.clean _ inside) b⟩

end Represents

theorem commit_build (topology : Topology) (calls : List TxCall) :
    (topology.commit (.build calls)).2 = (calls.map TxCall.item).foldl apply topology := by
  cases calls with
  | nil => rfl
  | cons call calls => simp [commit, build_items]

theorem run_flatten (commits : List (List TxCall)) :
    run commits = (commits.flatten.map TxCall.item).foldl apply {} := by
  simp only [run, commit_build, List.map_flatten, List.foldl_flatten, List.foldl_map]

end Topology

theorem Graph.AdmitsAll.front {graph : Graph} {front back : List TxCall}
    (admits : graph.AdmitsAll (front ++ back)) : graph.AdmitsAll front := by
  induction front generalizing graph with
  | nil => trivial
  | cons call front ih => exact ⟨admits.1, ih admits.2⟩

/-- After every commit the topology is the graph, as long as no two edges share a key. -/
theorem topology_refines_graph {commits : List (List TxCall)}
    (admits : ({} : Graph).AdmitsAll commits.flatten) {front : List (List TxCall)}
    (reached : front <+: commits) : (Topology.run front).Agrees (.run front) := by
  obtain ⟨back, rfl⟩ := reached
  rw [List.flatten_append] at admits
  rw [Topology.run_flatten]
  exact (Topology.initial_represents.applyAll admits.front).agrees

theorem topology_refines_graph_cascade :
    let commits := [[TxCall.addNode { nodeId := ascii "b|c" }, .addEdge ⟨ascii "a", ascii "b|c", []⟩,
      .addEdge ⟨ascii "a", ascii "b", []⟩, .removeEdge (ascii "a|b") (ascii "b")],
      [.removeNode (ascii "b|c")]]
    ({} : Graph).AdmitsAll commits.flatten ∧ (Topology.run commits).Agrees (.run commits) := by
  intro commits
  have admits : ({} : Graph).AdmitsAll commits.flatten := by decide
  exact ⟨admits, topology_refines_graph admits (List.prefix_refl _)⟩

/-- Two edges with one key. -/
theorem topology_merges_edges :
    let commits := [[TxCall.addEdge ⟨ascii "a|b", ascii "c", []⟩,
      .addEdge ⟨ascii "a", ascii "b|c", []⟩]]
    ¬ (Topology.run commits).Agrees (.run commits) := by
  intro commits agrees
  have count := agrees.edgeCount
  revert count
  decide

end Udaf
