import Udaf.Core.ErrorCode
import Udaf.Lib.Table
import Udaf.Lib.Text

/-!
`ability_b/topology/topology.cpp`. An edge is stored as one string, its two ends with a
bar between them, and cut at the first bar when it is read.
-/

namespace Udaf

open ByteString Text

structure PeerNode where
  nodeId : Bytes
  hostname : Bytes := []
  bindAddress : Bytes := []
  bindPort : UInt16 := 0
  capabilities : List Bytes := []
  deriving DecidableEq

structure PeerEdge where
  fromNode : Bytes
  toNode : Bytes
  protocol : Bytes
  deriving DecidableEq

inductive TxOp where
  | addNode
  | removeNode
  | addEdge
  | removeEdge

structure TxItem where
  op : TxOp
  a : Bytes
  b : Bytes
  tag : Bytes

structure TopologyTransaction where
  items : List TxItem := []

namespace TopologyTransaction

def push (tx : TopologyTransaction) (item : TxItem) : TopologyTransaction :=
  { tx with items := tx.items ++ [item] }

def addNode (tx : TopologyTransaction) (n : PeerNode) : TopologyTransaction :=
  tx.push ⟨.addNode, n.nodeId, n.hostname, []⟩

def removeNode (tx : TopologyTransaction) (nodeId : Bytes) : TopologyTransaction :=
  tx.push ⟨.removeNode, nodeId, [], []⟩

def addEdge (tx : TopologyTransaction) (e : PeerEdge) : TopologyTransaction :=
  tx.push ⟨.addEdge, e.fromNode, e.toNode, e.protocol⟩

def removeEdge (tx : TopologyTransaction) (source target : Bytes) : TopologyTransaction :=
  tx.push ⟨.removeEdge, source, target, []⟩

end TopologyTransaction

structure Topology where
  nodeTable : Table Bytes PeerNode := ∅
  edgeSet : Table Bytes Unit := ∅

namespace Topology

def edgeBar : UInt8 := 124

def edgeKey (a b : Bytes) : Bytes := a ++ edgeBar :: b

def mentions (key nodeId : Bytes) : Bool :=
  match takeField edgeBar key with
  | none => false
  | some (a, b) => decide (a = nodeId ∨ b = nodeId)

def apply (topology : Topology) (it : TxItem) : Topology :=
  match it.op with
  | .addNode => { topology with nodeTable := topology.nodeTable.insert it.a { nodeId := it.a } }
  | .removeNode =>
      { nodeTable := topology.nodeTable.erase it.a
        edgeSet := Table.keep topology.edgeSet fun key _ => !mentions key it.a }
  | .addEdge => { topology with edgeSet := topology.edgeSet.insert (edgeKey it.a it.b) () }
  | .removeEdge => { topology with edgeSet := topology.edgeSet.erase (edgeKey it.a it.b) }

def commit (topology : Topology) (tx : TopologyTransaction) : Except ErrorCode Unit × Topology :=
  if tx.items.isEmpty then (.error .invalidArg, topology)
  else (.ok (), tx.items.foldl apply topology)

def nodeCount (topology : Topology) : Nat := Table.size topology.nodeTable

def edgeCount (topology : Topology) : Nat := Table.size topology.edgeSet

def getNode (topology : Topology) (nodeId : Bytes) : Except ErrorCode PeerNode :=
  match topology.nodeTable.lookup nodeId with
  | none => .error .bizFileNotFound
  | some node => .ok node

def edges (topology : Topology) : List PeerEdge :=
  topology.edgeSet.keys.filterMap fun k =>
    (takeField edgeBar k).map fun (fromNode, toNode) => ⟨fromNode, toNode, []⟩

end Topology

inductive TxCall where
  | addNode (n : PeerNode)
  | removeNode (nodeId : Bytes)
  | addEdge (e : PeerEdge)
  | removeEdge (source target : Bytes)

def TopologyTransaction.call (tx : TopologyTransaction) : TxCall → TopologyTransaction
  | .addNode n => tx.addNode n
  | .removeNode nodeId => tx.removeNode nodeId
  | .addEdge e => tx.addEdge e
  | .removeEdge source target => tx.removeEdge source target

def TopologyTransaction.build (calls : List TxCall) : TopologyTransaction :=
  calls.foldl TopologyTransaction.call {}

def Topology.run (commits : List (List TxCall)) : Topology :=
  commits.foldl (fun topology calls => (topology.commit (.build calls)).2) {}

end Udaf
