import StochasticGame.Game.Edit

/-!
# StochasticGame.Reduction.Pruning

**Removing sinks that no other node leads to.** Which sinks are orphans is
decided once, before any is removed.
-/

namespace StochasticGame.Game

/-- The sinks whose only predecessor, if any, is themselves. -/
def orphanSinks (g : Game) : List NodeId :=
  (g.nodes.filter fun e => e.2.isSink && e.2.preds.toList.all (· = e.1)).map Prod.fst

/-- Remove the orphan sinks, counting them. -/
def prune (g : Game) : Nat × Game :=
  (g.orphanSinks.length, g.orphanSinks.foldl removeNode g)

end StochasticGame.Game
