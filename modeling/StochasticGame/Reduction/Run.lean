import StochasticGame.Game.Census
import StochasticGame.Reduction.Promotion
import StochasticGame.Reduction.Pruning
import StochasticGame.Reduction.Fusion
import StochasticGame.Reduction.SelfLoops
import StochasticGame.Reduction.Law

/-!
# StochasticGame.Reduction.Run

**A reduction run.** The enabled passes in their fixed order:

1. promote settled nodes to sinks,
2. prune sinks that nothing else leads to,
3. fuse sinks that pay the same, then nodes that behave alike,
4. delete self-loops,
5. make every average node uniform,

and last, always, the check of the probability law. No pass fails; the check is
the only way a run can. A run that fails leaves the passes' changes in place.
-/

namespace StochasticGame

/-- Which passes a run includes. -/
structure Passes where
  /-- Promote settled nodes to sinks. -/
  promoteSinks : Bool := true
  /-- Prune sinks that nothing else leads to. -/
  pruneSinks : Bool := true
  /-- Fuse sinks that pay the same and nodes that behave alike. -/
  fuseNodes : Bool := true
  /-- Delete self-loops. -/
  deleteSelfLoops : Bool := true
  /-- Make every average node uniform. -/
  correctProbabilities : Bool := true
  deriving DecidableEq, Inhabited

/-- Only the correction of probabilities. -/
def Passes.minimal : Passes where
  promoteSinks := false
  pruneSinks := false
  fuseNodes := false
  deleteSelfLoops := false
  correctProbabilities := true

/-- What a reduction run changed. -/
structure ReductionStats where
  /-- Live nodes before the run. -/
  nodesBefore : Nat
  /-- Edges before the run. -/
  edgesBefore : Nat
  /-- Live nodes after the run. -/
  nodesAfter : Nat
  /-- Edges after the run. -/
  edgesAfter : Nat
  /-- Nodes promoted to sinks. -/
  promoted : Nat
  /-- Sinks removed. -/
  pruned : Nat
  /-- Sinks merged into another one. -/
  fusedSinks : Nat
  /-- Other nodes merged into another one. -/
  fusedNodes : Nat
  /-- Self-loops deleted. -/
  selfLoops : Nat
  /-- Nodes per label before the run. -/
  labelsBefore : Census
  /-- Nodes per label after the run. -/
  labelsAfter : Census
  deriving DecidableEq, Inhabited

/-- A counting pass that runs only if it is enabled. -/
def Game.passIf (enabled : Bool) (pass : Game → Nat × Game) (g : Game) : Nat × Game :=
  if enabled then pass g else (0, g)

/-- Run the enabled passes, then check the probability law. -/
def Game.reduce (passes : Passes) (g : Game) : Except LawViolation ReductionStats × Game :=
  let (promoted, g₁) := g.passIf passes.promoteSinks promoteAll
  let (pruned, g₂) := g₁.passIf passes.pruneSinks prune
  let (fusedSinks, g₃) := g₂.passIf passes.fuseNodes fuseSinks
  let (fusedNodes, g₄) := g₃.passIf passes.fuseNodes fuseNodes
  let (selfLoops, g₅) := g₄.passIf passes.deleteSelfLoops deleteSelfLoops
  let result := if passes.correctProbabilities then g₅.correctLaw else g₅
  match result.lawViolation? with
  | some violation => (.error violation, result)
  | none =>
    (.ok { nodesBefore := g.nodeCount, edgesBefore := g.edgeCount
           nodesAfter := result.nodeCount, edgesAfter := result.edgeCount
           promoted, pruned, fusedSinks, fusedNodes, selfLoops
           labelsBefore := g.census, labelsAfter := result.census }, result)

end StochasticGame
