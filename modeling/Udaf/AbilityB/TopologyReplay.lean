import Udaf.AbilityB.Topology
import Udaf.Lib.LastWriter

/-!
Transactions committed again. Each item sets a node or an edge, clears it or leaves it
alone, whatever the topology held before.
-/

namespace Udaf

open ByteString

namespace Topology

def nodeWrite (nodeId : Bytes) (it : TxItem) : Option (Option PeerNode) :=
  match it.op with
  | .addNode => if nodeId = it.a then some (some { nodeId := it.a }) else none
  | .removeNode => if nodeId = it.a then some none else none
  | _ => none

def edgeWrite (key : Bytes) (it : TxItem) : Option Bool :=
  match it.op with
  | .addNode => none
  | .removeNode => if mentions key it.a then some false else none
  | .addEdge => if key = edgeKey it.a it.b then some true else none
  | .removeEdge => if key = edgeKey it.a it.b then some false else none

structure SameGraph (topology other : Topology) : Prop where
  nodes : ∀ nodeId, topology.nodeTable.lookup nodeId = other.nodeTable.lookup nodeId
  edges : ∀ key, key ∈ topology.edgeSet ↔ key ∈ other.edgeSet

theorem apply_node (nodeId : Bytes) (topology : Topology) (it : TxItem) :
    (topology.apply it).nodeTable.lookup nodeId =
      (nodeWrite nodeId it).getD (topology.nodeTable.lookup nodeId) := by
  obtain ⟨op, a, b, tag⟩ := it
  cases op with
  | addNode =>
      simp only [apply, nodeWrite, Table.lookup_set]
      split <;> rfl
  | removeNode =>
      simp only [apply, nodeWrite, Table.lookup_remove]
      split <;> rfl
  | addEdge => rfl
  | removeEdge => rfl

theorem apply_edge (key : Bytes) (topology : Topology) (it : TxItem) :
    decide (key ∈ (topology.apply it).edgeSet) =
      (edgeWrite key it).getD (decide (key ∈ topology.edgeSet)) := by
  obtain ⟨op, a, b, tag⟩ := it
  cases op with
  | addNode => rfl
  | removeNode =>
      simp only [apply, edgeWrite, Table.mem_keep]
      by_cases mentioned : mentions key a = true
      · simp [mentioned]
      · simp [mentioned]
  | addEdge =>
      simp only [apply, edgeWrite, AList.mem_insert]
      by_cases same : key = edgeKey a b
      · simp [same]
      · simp [same]
  | removeEdge =>
      simp only [apply, edgeWrite, AList.mem_erase]
      by_cases same : key = edgeKey a b
      · simp [same]
      · simp [same]

theorem commit_some {topology : Topology} {tx : TopologyTransaction} (filled : tx.items ≠ []) :
    topology.commit tx = (.ok (), tx.items.foldl apply topology) := by
  rw [commit, if_neg]
  rwa [List.isEmpty_iff]

end Topology

/-- A transaction that is committed again changes nothing. -/
theorem commit_twice (topology : Topology) {tx : TopologyTransaction} (filled : tx.items ≠ []) :
    (topology.commit tx).1 = .ok () ∧ ((topology.commit tx).2.commit tx).1 = .ok () ∧
      ((topology.commit tx).2.commit tx).2.SameGraph (topology.commit tx).2 := by
  simp only [Topology.commit_some filled]
  refine ⟨trivial, trivial, ?_, ?_⟩
  · intro nodeId
    exact LastWriter.read_foldl_twice (fun t => t.nodeTable.lookup nodeId)
      (Topology.apply_node nodeId) tx.items topology
  · intro key
    have same := LastWriter.read_foldl_twice (fun t => decide (key ∈ t.edgeSet))
      (Topology.apply_edge key) tx.items topology
    exact decide_eq_decide.mp same

theorem commit_twice_bars :
    let tx : TopologyTransaction := .build [.addEdge ⟨ascii "a|b", ascii "c", []⟩,
      .removeNode (ascii "a"), .addNode { nodeId := ascii "a" }]
    (({} : Topology).commit tx).1 = .ok () ∧ ((({} : Topology).commit tx).2.commit tx).1 = .ok () ∧
      ((({} : Topology).commit tx).2.commit tx).2.SameGraph (({} : Topology).commit tx).2 :=
  commit_twice {} (List.cons_ne_nil _ _)

end Udaf
