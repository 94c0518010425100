import StochasticGame.Game.Edit

/-!
# StochasticGame.Game.Contract

**Merging one node into another.** Contraction redirects every edge into the
dropped node to the kept one, adding weights where both edges existed, and
discards the edges that leave the dropped node. It is meant for nodes that
behave alike; nothing here checks that they do.

An edge from the dropped node to itself counts as an incoming edge, and becomes
an edge from the kept node to itself.
-/

namespace StochasticGame.Game

/-- The edges into a node as pairs of source and weight, in predecessor order. -/
def incoming (g : Game) (id : NodeId) : List (NodeId × Rat) :=
  match g.node? id with
  | some n => n.preds.toList.filterMap fun pred => (g.weight? pred id).map (pred, ·)
  | none => []

/-- Remove all edges that touch a node, given those that enter it. -/
def detach (g : Game) (id : NodeId) (edges : List (NodeId × Rat)) : Game :=
  edges.foldl (fun g e => g.removeEdge e.1 id) (g.clearSuccessors id)

/-- Lead edges that entered `drop` to `keep` instead. -/
def redirect (g : Game) (keep drop : NodeId) (edges : List (NodeId × Rat)) : Game :=
  edges.foldl (fun g e => g.addWeight (if e.1 = drop then keep else e.1) keep e.2) g

/-- Merge `drop` into `keep`. Nothing happens unless both are live and differ. -/
def contract (g : Game) (keep drop : NodeId) : Game :=
  if keep ≠ drop ∧ g.contains keep ∧ g.contains drop then
    let edges := g.incoming drop
    ((g.detach drop edges).redirect keep drop edges).setSlot drop (.merged keep)
  else g

/-- A node is not merged into itself. -/
theorem contract_self (g : Game) (id : NodeId) : g.contract id id = g := by
  simp [contract]

end StochasticGame.Game
