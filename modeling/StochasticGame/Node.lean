import StochasticGame.Label
import StochasticGame.Ordered.Map
import StochasticGame.Ordered.Set

/-!
# StochasticGame.Node

**Nodes.** A node has a label, possibly a value known before solving, its
outgoing edges with weights and the nodes with an edge into it. Both edge lists
keep insertion order.

The weight of an edge is a probability when it leaves an average node. Edges
that leave other nodes carry a weight too, which no operator reads.
-/

namespace StochasticGame

/-- The index of a node in its game. -/
abbrev NodeId := Nat

/-- A node and its edges. -/
structure Node where
  /-- The operator that computes the node's value. -/
  label : Label
  /-- The value known before solving; at a sink, its payoff. -/
  known : Option Rat
  /-- The successors with the weights of the edges to them. -/
  succs : OrdMap NodeId Rat
  /-- The nodes with an edge into this one. -/
  preds : OrdSet NodeId
  deriving DecidableEq, Inhabited

namespace Node

/-- A node without edges and without a known value. -/
def fresh (label : Label) : Node := ⟨label, none, .empty, .empty⟩

/-- Whether the play ends here. -/
def isSink (n : Node) : Bool := n.label = .sink

/-- Whether the known value is exactly 0 or 1. -/
def isSettled (n : Node) : Bool := n.known = some 0 ∨ n.known = some 1

/-- The successors in edge order. -/
def successors (n : Node) : List NodeId := n.succs.keys

/-- The weight of the edge to a node. -/
def weightTo? (n : Node) (succ : NodeId) : Option Rat := n.succs.find? succ

/-- The sum of the weights of the outgoing edges. -/
def weightSum (n : Node) : Rat := n.succs.values.foldl (· + ·) 0

/-- The number of outgoing edges. -/
def outDegree (n : Node) : Nat := n.succs.size

/-- The number of nodes with an edge into this one. -/
def inDegree (n : Node) : Nat := n.preds.size

/-- The node with a weight written on its edge to `succ`. -/
def setSucc (n : Node) (succ : NodeId) (w : Rat) : Node := { n with succs := n.succs.insert succ w }

/-- The node without its edge to `succ`. -/
def dropSucc (n : Node) (succ : NodeId) : Node := { n with succs := n.succs.erase succ }

/-- The node with `pred` among its predecessors. -/
def addPred (n : Node) (pred : NodeId) : Node := { n with preds := n.preds.insert pred }

/-- The node without `pred` among its predecessors. -/
def dropPred (n : Node) (pred : NodeId) : Node := { n with preds := n.preds.erase pred }

@[simp] theorem fresh_label (l : Label) : (fresh l).label = l := rfl

@[simp] theorem fresh_known (l : Label) : (fresh l).known = none := rfl

@[simp] theorem fresh_successors (l : Label) : (fresh l).successors = [] := rfl

end Node

end StochasticGame
