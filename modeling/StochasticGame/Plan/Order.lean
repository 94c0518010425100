import StochasticGame.Game.Basic
import StochasticGame.Plan.Components

/-!
# StochasticGame.Plan.Order

**The order of solving.** A node's value depends on its successors, so the
plan lists the strongly connected components of a game with every component
after those it has an edge into.

* Without a cycle every node is a component of its own, and the plan is the
  post-order from the nodes without a predecessor.
* Otherwise the plan is the post-order of the condensation from the components
  without an incoming edge, each component listed by increasing id.
-/

namespace StochasticGame

/-- The components of a game in the order they are solved. -/
structure Plan where
  /-- Whether the game has no cycle. -/
  acyclic : Bool
  /-- The components, each after those it depends on. -/
  components : List (List NodeId)
  deriving DecidableEq

/-- The live nodes of a game and their successors. -/
def Game.digraph (g : Game) : Digraph where
  vertices := g.nodeIds
  next := g.successors

/-- The plan of a game. -/
def Game.plan (g : Game) : Plan :=
  let d := g.digraph
  let parts := d.components
  if d.isAcyclic parts then
    { acyclic := true, components := d.postOrder.map ([·]) }
  else
    { acyclic := false
      components := (d.condensation parts).postOrder.map fun i =>
        (parts.getD i []).mergeSort fun a b => a ≤ b }

end StochasticGame
