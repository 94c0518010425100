import StochasticGame.Game.Basic

/-!
# StochasticGame.Game.Census

**How many nodes of each kind.** Sinks are counted by payoff: one that pays
exactly 1 is a winning sink, every other sink counts as losing.
-/

namespace StochasticGame

/-- The number of live nodes per label, sinks split by payoff. -/
structure Census where
  /-- Nodes of the maximizer. -/
  max : Nat := 0
  /-- Nodes of the minimizer. -/
  min : Nat := 0
  /-- Nodes of chance. -/
  average : Nat := 0
  /-- Sinks that do not pay 1. -/
  sinkZero : Nat := 0
  /-- Sinks that pay 1. -/
  sinkOne : Nat := 0
  deriving DecidableEq, Inhabited

/-- Count one more node. -/
def Census.add (c : Census) (n : Node) : Census :=
  match n.label with
  | .max => { c with max := c.max + 1 }
  | .min => { c with min := c.min + 1 }
  | .average => { c with average := c.average + 1 }
  | .sink =>
    if n.known = some 1 then { c with sinkOne := c.sinkOne + 1 }
    else { c with sinkZero := c.sinkZero + 1 }

/-- The census of a game. -/
def Game.census (g : Game) : Census := g.nodes.foldl (fun c e => c.add e.2) {}

end StochasticGame
