import StochasticGame.Game.Basic

/-!
# StochasticGame.Export

**Graph files.** Two texts describe the structure of a game to tools that
measure graphs. Live nodes are numbered from 1 in arena order, so removed nodes
leave no gaps.

* The undirected text has the header `p tdp N E` and a line `u v` with `u ≤ v`
  for each pair of adjacent nodes. A node lists its later neighbours: first the
  successors in edge order, then the remaining predecessors by number.
* The directed text has a header with the number of nodes and ten times the
  number of edges (the count followed by the digit 0), and for each node a line
  with each successor followed by a space.
-/

namespace StochasticGame.Game

/-- The number of a live node, counted from 1 in arena order. -/
def number? (g : Game) (id : NodeId) : Option Nat :=
  (g.nodeIds.idxOf? id).map (· + 1)

/-- The adjacent pairs that a node contributes: its neighbours with a number
not below its own. -/
def laterNeighbours (g : Game) (u : Nat) (n : Node) : List Nat :=
  let succs := (n.successors.filterMap g.number?).filter (u ≤ ·)
  let preds := (n.preds.toList.filterMap g.number?).filter fun v => u < v ∧ v ∉ succs
  succs ++ preds.mergeSort

/-- Every adjacent pair once, from the node with the smaller number. -/
def adjacentPairs (g : Game) : List (Nat × Nat) :=
  (g.nodes.zipIdx 1).flatMap fun (e, u) => (g.laterNeighbours u e.2).map (u, ·)

/-- The undirected text of a game. -/
def undirectedText (g : Game) : String :=
  let pairs := g.adjacentPairs
  let header := s!"p tdp {g.nodeCount} {pairs.length}\n"
  String.join (header :: pairs.map fun (u, v) => s!"{u} {v}\n")

/-- The line of a node in the directed text. -/
def directedLine (g : Game) (n : Node) : String :=
  String.join ((n.successors.filterMap g.number?).map fun v => s!"{v} ") ++ "\n"

/-- The directed text of a game. -/
def directedText (g : Game) : String :=
  let header := s!"{g.nodeCount} {g.edgeCount}0\n"
  String.join (header :: g.nodes.map fun e => g.directedLine e.2)

end StochasticGame.Game
