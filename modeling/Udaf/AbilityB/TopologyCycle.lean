import Udaf.AbilityB.TopologyContents
import Udaf.Lib.DepthFirst

/-!
`Topology::has_cycle`. The search walks the edges as they are cut, whether or not their
ends are nodes, and starts from the nodes in the order of the container.
-/

namespace Udaf

open ByteString Text

namespace Topology

def link (adj : Table Bytes (List Bytes)) (e : Bytes) : Table Bytes (List Bytes) :=
  match takeField edgeBar e with
  | none => adj
  | some (a, b) => adj.insert a ((adj.lookup a).getD [] ++ [b])

def adj (edgeKeys : List Bytes) : Table Bytes (List Bytes) := edgeKeys.foldl link ∅

def successors (topology : Topology) (u : Bytes) : List Bytes :=
  ((adj topology.edgeSet.keys).lookup u).getD []

/-- Nothing when the recursion is deeper than the fuel. -/
def hasCycle (fuel : Nat) (topology : Topology) : Option Bool :=
  if topology.nodeCount < 2 then some false
  else (DepthFirst.visitAll (DepthFirst.dfs topology.successors fuel) topology.nodeTable.keys {}).map
    fun searched => searched.2.has

/-- The search terminates and this is what it returns. -/
structure Answers (topology : Topology) (answer : Bool) : Prop where
  returns : ∃ enough, ∀ fuel, enough ≤ fuel → topology.hasCycle fuel = some answer
  only : ∀ fuel other, topology.hasCycle fuel = some other → other = answer

theorem Answers.unique {topology : Topology} {first second : Bool} (answers : topology.Answers first)
    (other : topology.Answers second) : first = second := by
  obtain ⟨enough, returns⟩ := answers.returns
  exact other.only enough first (returns enough (Nat.le_refl enough))

def Linked (topology : Topology) (a b : Bytes) : Prop := (a, b) ∈ topology.edges.map ends

theorem mem_adj {edgeKeys : List Bytes} {u v : Bytes} :
    v ∈ ((adj edgeKeys).lookup u).getD [] ↔ ∃ e ∈ edgeKeys, takeField edgeBar e = some (u, v) := by
  induction edgeKeys using List.reverseRecOn with
  | nil => simp [adj]
  | append_singleton edgeKeys e ih =>
      have last : (∃ e' ∈ edgeKeys ++ [e], takeField edgeBar e' = some (u, v)) ↔
          (∃ e' ∈ edgeKeys, takeField edgeBar e' = some (u, v)) ∨
            takeField edgeBar e = some (u, v) := by
        simp only [List.mem_append, List.mem_singleton, or_and_right, exists_or, exists_eq_left]
      rw [last, ← ih, adj, List.foldl_append, List.foldl_cons, List.foldl_nil, ← adj, link]
      cases takeField edgeBar e with
      | none => simp
      | some pair =>
          obtain ⟨a, b⟩ := pair
          simp only [Table.lookup_set]
          by_cases same : u = a
          · rw [if_pos same, same, Option.getD_some, List.mem_append, List.mem_singleton]
            simp [eq_comm]
          · rw [if_neg same]
            have apart : a ≠ u := fun other => same other.symm
            simp [apart]

theorem mem_successors {topology : Topology} {u v : Bytes} :
    v ∈ topology.successors u ↔ topology.Linked u v := by
  rw [successors, mem_adj, Linked, Represents.edges_ends, List.mem_filterMap]

theorem edge_successors (topology : Topology) :
    DepthFirst.Edge topology.successors = topology.Linked := by
  funext a b
  exact propext mem_successors

theorem hasCycle_iff {topology : Topology} {fuel : Nat} {answer : Bool}
    (returned : topology.hasCycle fuel = some answer) :
    answer = true ↔ 2 ≤ topology.nodeCount ∧
      ∃ u ∈ topology.nodeTable, DepthFirst.ReachesCycle topology.Linked u := by
  rw [hasCycle] at returned
  by_cases few : topology.nodeCount < 2
  · rw [if_pos few] at returned
    cases returned
    exact iff_of_false Bool.false_ne_true fun both => absurd both.1 (Nat.not_le_of_lt few)
  · rw [if_neg few] at returned
    obtain ⟨searched, hit, rfl⟩ := Option.map_eq_some_iff.mp returned
    rw [DepthFirst.search_has hit, edge_successors, and_iff_right (Nat.le_of_not_lt few)]
    simp only [AList.mem_keys]

theorem hasCycle_returns (topology : Topology) :
    ∃ enough, ∀ fuel, enough ≤ fuel → ∃ answer, topology.hasCycle fuel = some answer := by
  let nodes := topology.nodeTable.keys.toFinset ∪ (topology.edges.map PeerEdge.toNode).toFinset
  have closed : ∀ u ∈ nodes, ∀ v ∈ topology.successors u, v ∈ nodes := by
    intro u _ v edge
    obtain ⟨e, member, cut⟩ := List.mem_map.mp (mem_successors.mp edge)
    cases cut
    exact Finset.mem_union_right _ (List.mem_toFinset.mpr (List.mem_map_of_mem member))
  have inside : ∀ u ∈ topology.nodeTable.keys, u ∈ nodes := fun u member =>
    Finset.mem_union_left _ (List.mem_toFinset.mpr member)
  refine ⟨nodes.card + 1, ?_⟩
  intro fuel enough
  rw [hasCycle]
  by_cases few : topology.nodeCount < 2
  · exact ⟨false, if_pos few⟩
  · obtain ⟨searched, hit⟩ := DepthFirst.search_returns closed inside (Nat.lt_of_succ_le enough)
    rw [if_neg few, hit]
    exact ⟨searched.2.has, rfl⟩

theorem answers_iff (topology : Topology) : ∃ answer, topology.Answers answer ∧
    (answer = true ↔ 2 ≤ topology.nodeCount ∧
      ∃ u ∈ topology.nodeTable, DepthFirst.ReachesCycle topology.Linked u) := by
  obtain ⟨enough, returns⟩ := hasCycle_returns topology
  obtain ⟨answer, first⟩ := returns enough (Nat.le_refl enough)
  have only : ∀ fuel other, topology.hasCycle fuel = some other → other = answer := by
    intro fuel other returned
    rw [Bool.eq_iff_iff, hasCycle_iff returned, hasCycle_iff first]
  refine ⟨answer, ⟨⟨enough, ?_⟩, only⟩, hasCycle_iff first⟩
  intro fuel sufficient
  obtain ⟨other, returned⟩ := returns fuel sufficient
  rw [returned, only fuel other returned]

variable {topology other : Topology} {graph : Graph}

/-- The same contents, the containers iterated in other orders. -/
structure Reordered (topology other : Topology) : Prop where
  nodes : topology.nodeTable.entries.Perm other.nodeTable.entries
  edges : topology.edgeSet.entries.Perm other.edgeSet.entries

theorem Reordered.represents (reordered : Reordered topology other)
    (represents : Represents topology graph) : Represents other graph where
  nodes := by
    intro nodeId
    rw [← represents.nodes nodeId]
    exact (AList.perm_lookup reordered.nodes).symm
  keys := by
    intro key
    rw [← represents.keys key, AList.mem_of_perm reordered.edges]
  clean := represents.clean

theorem Represents.linked (represents : Represents topology graph) :
    topology.Linked = fun a b => (a, b) ∈ graph.pairs := by
  funext a b
  exact propext (represents.agrees.edges (a, b))

theorem Represents.mem_nodes (represents : Represents topology graph) (nodeId : Bytes) :
    nodeId ∈ topology.nodeTable ↔ nodeId ∈ graph.nodes := by
  rw [← AList.lookup_isSome, represents.nodes]
  by_cases member : nodeId ∈ graph.nodes
  · simp [member]
  · simp [member]

theorem Represents.answer_iff (represents : Represents topology graph)
    (two : 2 ≤ graph.nodes.card) {answer : Bool} (answers : topology.Answers answer) :
    answer = true ↔ ∃ u ∈ graph.nodes, DepthFirst.ReachesCycle (fun a b => (a, b) ∈ graph.pairs) u := by
  obtain ⟨found, finds, exactly⟩ := topology.answers_iff
  rw [answers.unique finds, exactly, represents.agrees.nodeCount, and_iff_right two,
    represents.linked]
  simp only [represents.mem_nodes]

end Topology

/-- The answer is that of the graph, in whatever order the containers are iterated. -/
theorem has_cycle_exact {commits : List (List TxCall)}
    (free : ∀ call ∈ commits.flatten, ∀ nodeId ∈ call.ids, Topology.edgeBar ∉ nodeId)
    (two : 2 ≤ (Topology.run commits).nodeCount) :
    ∃ answer, (answer = true ↔ ∃ u ∈ (Graph.run commits).nodes,
        DepthFirst.ReachesCycle (fun a b => (a, b) ∈ (Graph.run commits).pairs) u) ∧
      ∀ topology, (Topology.run commits).Reordered topology → topology.Answers answer := by
  have represents : (Topology.run commits).Represents (Graph.run commits) := by
    rw [Topology.run_flatten]
    exact Topology.initial_represents.applyFree free
  rw [represents.agrees.nodeCount] at two
  obtain ⟨answer, answers, -⟩ := (Topology.run commits).answers_iff
  have exactly := represents.answer_iff two answers
  refine ⟨answer, exactly, ?_⟩
  intro topology reordered
  obtain ⟨other, finds, -⟩ := topology.answers_iff
  have same : other = answer := by
    rw [Bool.eq_iff_iff, (reordered.represents represents).answer_iff two finds, exactly]
  exact same ▸ finds

theorem has_cycle_exact_pair :
    let commits := [[TxCall.addNode { nodeId := ascii "a" }, .addNode { nodeId := ascii "b" },
      .addEdge ⟨ascii "a", ascii "c", []⟩, .addEdge ⟨ascii "c", ascii "a", []⟩]]
    ∃ answer, (answer = true ↔ ∃ u ∈ (Graph.run commits).nodes,
        DepthFirst.ReachesCycle (fun a b => (a, b) ∈ (Graph.run commits).pairs) u) ∧
      ∀ topology, (Topology.run commits).Reordered topology → topology.Answers answer :=
  has_cycle_exact (by decide) (by decide)

namespace Topology

variable {topology : Topology} {n : PeerNode}

theorem commit_addNode (topology : Topology) (n : PeerNode) :
    (topology.commit (({} : TopologyTransaction).addNode n)).2 =
      { topology with nodeTable := topology.nodeTable.insert n.nodeId { nodeId := n.nodeId } } :=
  rfl

theorem unlinked_reaches (unlinked : ∀ e ∈ topology.edges, e.fromNode ≠ n.nodeId) :
    ¬ DepthFirst.ReachesCycle topology.Linked n.nodeId := by
  have stuck : ∀ v, ¬ topology.Linked n.nodeId v := by
    intro v linked
    obtain ⟨e, member, cut⟩ := List.mem_map.mp linked
    exact unlinked e member (congrArg Prod.fst cut)
  rintro ⟨c, path, cycle⟩
  rcases Relation.ReflTransGen.cases_head path with rfl | ⟨v, edge, -⟩
  · obtain ⟨v, edge, -⟩ := Relation.TransGen.head'_iff.mp cycle
    exact stuck v edge
  · exact stuck v edge

theorem addNode_reaches (unlinked : ∀ e ∈ topology.edges, e.fromNode ≠ n.nodeId) :
    (∃ u ∈ topology.nodeTable.insert n.nodeId { nodeId := n.nodeId },
        DepthFirst.ReachesCycle topology.Linked u) ↔
      ∃ u ∈ topology.nodeTable, DepthFirst.ReachesCycle topology.Linked u := by
  constructor
  · rintro ⟨u, member, reaches⟩
    rcases (AList.mem_insert _).mp member with rfl | old
    · exact absurd reaches (unlinked_reaches unlinked)
    · exact ⟨u, old, reaches⟩
  · rintro ⟨u, member, reaches⟩
    exact ⟨u, (AList.mem_insert _).mpr (.inr member), reaches⟩

theorem addNode_answers (fresh : n.nodeId ∉ topology.nodeTable)
    (unlinked : ∀ e ∈ topology.edges, e.fromNode ≠ n.nodeId) :
    ∃ answer, (topology.commit (({} : TopologyTransaction).addNode n)).2.Answers answer ∧
      (answer = true ↔ 1 ≤ topology.nodeCount ∧
        ∃ u ∈ topology.nodeTable, DepthFirst.ReachesCycle topology.Linked u) := by
  rw [commit_addNode]
  obtain ⟨answer, answers, exactly⟩ := answers_iff { topology with
    nodeTable := topology.nodeTable.insert n.nodeId { nodeId := n.nodeId } }
  refine ⟨answer, answers, exactly.trans (and_congr ?_ (addNode_reaches unlinked))⟩
  change 2 ≤ Table.size (topology.nodeTable.insert _ _) ↔ _
  rw [Table.size_set fresh]
  exact Nat.succ_le_succ_iff

def KeepsAnswer (topology : Topology) (n : PeerNode) : Prop :=
  ∃ answer, topology.Answers answer ∧
    (topology.commit (({} : TopologyTransaction).addNode n)).2.Answers answer

end Topology

/-- A node without edges changes the answer only beside a single node with an edge to itself. -/
theorem add_node_keeps_has_cycle_iff {topology : Topology} {n : PeerNode}
    (fresh : n.nodeId ∉ topology.nodeTable)
    (unlinked : ∀ e ∈ topology.edges, e.fromNode ≠ n.nodeId ∧ e.toNode ≠ n.nodeId) :
    topology.KeepsAnswer n ↔ ¬ (topology.nodeCount = 1 ∧
      ∃ u ∈ topology.nodeTable, DepthFirst.ReachesCycle topology.Linked u) := by
  obtain ⟨before, answers, exactly⟩ := topology.answers_iff
  obtain ⟨after, later, exactly'⟩ :=
    Topology.addNode_answers fresh fun e member => (unlinked e member).1
  have same : topology.KeepsAnswer n ↔ (before = true ↔ after = true) := by
    rw [← Bool.eq_iff_iff]
    constructor
    · rintro ⟨answer, first, second⟩
      exact (answers.unique first).trans (second.unique later)
    · rintro rfl
      exact ⟨before, answers, later⟩
  rw [same, exactly, exactly']
  by_cases cyclic : ∃ u ∈ topology.nodeTable, DepthFirst.ReachesCycle topology.Linked u
  · simp only [cyclic, and_true]
    omega
  · simp only [cyclic, and_false, not_false_eq_true]

theorem add_node_keeps_has_cycle_iff_pair :
    let topology := Topology.run [[TxCall.addNode { nodeId := ascii "a" },
      .addEdge ⟨ascii "a", ascii "b", []⟩]]
    topology.KeepsAnswer { nodeId := ascii "c" } ↔ ¬ (topology.nodeCount = 1 ∧
      ∃ u ∈ topology.nodeTable, DepthFirst.ReachesCycle topology.Linked u) :=
  add_node_keeps_has_cycle_iff (by decide) (by decide)

/-- The edge of the only node to itself counts once there is a second node. -/
theorem add_node_shows_cycle :
    let topology := Topology.run [[TxCall.addNode { nodeId := ascii "a" },
      .addEdge ⟨ascii "a", ascii "a", []⟩]]
    ascii "b" ∉ topology.nodeTable ∧
      (∀ e ∈ topology.edges, e.fromNode ≠ ascii "b" ∧ e.toNode ≠ ascii "b") ∧
      ¬ topology.KeepsAnswer { nodeId := ascii "b" } := by
  intro topology
  refine ⟨by decide, by decide, ?_⟩
  rintro ⟨answer, before, after⟩
  have first := before.only 3 false (by decide)
  have second := after.only 3 true (by decide)
  rw [← first] at second
  cases second

end Udaf
