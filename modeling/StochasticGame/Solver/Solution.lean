import StochasticGame.Plan.Order
import StochasticGame.Solver.Iteration
import StochasticGame.Solver.Settings

/-!
# StochasticGame.Solver.Solution

**Solving a game.** The components are solved in plan order on one table. A
component that fails ends the run, and no values are reported.
-/

namespace StochasticGame

/-- Counters of a solving run. -/
structure SolveStats where
  /-- Whether the game has no cycle. -/
  acyclic : Bool
  /-- The number of components. -/
  components : Nat
  /-- The size of the largest component. -/
  largestComponent : Nat := 0
  /-- The number of sweeps over all components. -/
  sweeps : Nat := 0
  /-- The number of components that ended by a snapshot. -/
  exactSnapshots : Nat := 0
  deriving DecidableEq

/-- The values of a solved game. -/
structure Solution where
  /-- The values by node id. -/
  values : ValueTable
  /-- The counters of the run. -/
  stats : SolveStats
  /-- The caveats on the values. -/
  warnings : List PrecisionWarning
  deriving DecidableEq

/-- An index outside the arena of a game. -/
structure OutsideArena where
  /-- The index. -/
  id : NodeId
  deriving DecidableEq

namespace Solution

/-- The value of a node. -/
def value? (s : Solution) (id : NodeId) : Option Rat := s.values.get? id

/-- Whether the maximizer wins with certainty from a node. -/
def isSureWin (s : Solution) (id : NodeId) : Bool := s.value? id = some 1

/-- Whether no value has a caveat. -/
def isExact (s : Solution) : Bool := s.warnings.isEmpty

/-- The value of a producer state: that of the node that stands for it, or the
payoff of the removed sink that did. -/
def stateValue (s : Solution) (g : Game) (state : State) : Except OutsideArena (Option Rat) :=
  match g.bindings.find? state with
  | none => .ok none
  | some bound =>
    match g.representative? bound with
    | none => .error ⟨bound⟩
    | some id => .ok (if g.contains id then s.value? id else g.prunedPayoff? id)

/-- Take the outcome of a component into account. -/
def record (s : Solution) (size : Nat) (outcome : Outcome) (values : ValueTable) : Solution where
  values := values
  stats :=
    { s.stats with
      largestComponent := max s.stats.largestComponent size
      sweeps := s.stats.sweeps + outcome.sweeps
      exactSnapshots :=
        if outcome.termination = .exactFixedPoint then s.stats.exactSnapshots + 1
        else s.stats.exactSnapshots }
  warnings := s.warnings ++ outcome.warning.toList

end Solution

namespace Game

/-- The iteration that the settings prescribe for listed nodes. -/
def iteration (g : Game) (settings : SolverSettings) (approximant : Approximant)
    (ids : List NodeId) : Iteration where
  game := g
  ids := ids
  approximant := approximant
  interval := settings.checkInterval.toNat
  bound := g.denominatorBound ids settings.denominatorCap.toNat

/-- Iterate listed nodes, with the time budget at a number of sweeps per
second. -/
def solveNodes (g : Game) (settings : SolverSettings) (approximant : Approximant) (pace : Nat)
    (ids : List NodeId) (w : ValueTable) : Except IterationFailure Outcome × ValueTable :=
  (g.iteration settings approximant ids).run (settings.sweepBudget pace) 0 w

/-- Solve components one after another. -/
def solveComponents (g : Game) (settings : SolverSettings) (approximant : Approximant)
    (pace : Nat) : List (List NodeId) → Solution → Except IterationFailure Solution
  | [], s => .ok s
  | ids :: rest, s =>
    match g.solveNodes settings approximant pace ids s.values with
    | (.error failure, _) => .error failure
    | (.ok outcome, values) =>
      g.solveComponents settings approximant pace rest (s.record ids.length outcome values)

/-- Solve every component in plan order. -/
def solve (g : Game) (settings : SolverSettings) (pace : Nat) : Except IterationFailure Solution :=
  let plan := g.plan
  g.solveComponents settings settings.buildApproximant pace plan.components
    { values := .ofGame g
      stats := { acyclic := plan.acyclic, components := plan.components.length }
      warnings := [] }

end Game

end StochasticGame
