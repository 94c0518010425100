import StochasticGame.Game.Edit

/-!
# StochasticGame.Reduction.SelfLoops

**Removing edges from a node to itself.**
-/

namespace StochasticGame.Game

/-- The nodes with an edge to themselves. -/
def loopedNodes (g : Game) : List NodeId :=
  (g.nodes.filter fun e => e.2.succs.contains e.1).map Prod.fst

/-- Remove every edge from a node to itself, counting them. -/
def deleteSelfLoops (g : Game) : Nat × Game :=
  (g.loopedNodes.length, g.loopedNodes.foldl (fun g id => g.removeEdge id id) g)

end StochasticGame.Game
