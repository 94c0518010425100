import StochasticGame.Game.Edit

/-!
# StochasticGame.Reduction.Promotion

**Turning settled nodes into sinks.** A node whose value is already known to be
0 or 1 needs no operator: it becomes a sink and loses its outgoing edges.
-/

namespace StochasticGame

/-- Whether promotion would change a node: it is settled, and not already a
sink without outgoing edges. -/
def Node.isPromotable (n : Node) : Bool :=
  n.isSettled && !(n.isSink && n.outDegree = 0)

namespace Game

/-- Whether an id names a node that promotion would change. -/
def promotable (g : Game) (id : NodeId) : Bool := (g.node? id).any Node.isPromotable

/-- Make a settled node a sink. -/
def promote (g : Game) (id : NodeId) : Game :=
  if g.promotable id then (g.setLabel id .sink).clearSuccessors id else g

/-- Promote ids one after another, counting those that changed. -/
def promoteEach (g : Game) : List NodeId → Nat × Game
  | [] => (0, g)
  | id :: rest =>
    let (count, g') := (g.promote id).promoteEach rest
    (if g.promotable id then count + 1 else count, g')

/-- Promote every settled node. -/
def promoteAll (g : Game) : Nat × Game := g.promoteEach g.nodeIds

end Game

end StochasticGame
