import StochasticGame.Approximation.Kind

/-!
# StochasticGame.Solver.Settings

**Settings of the solver.** The numbers have the widths of the settings file.
-/

namespace StochasticGame

/-- How components are solved. -/
structure SolverSettings where
  /-- Sweeps from one snapshot to the next; 0 for no snapshots. -/
  checkInterval : UInt32 := 50
  /-- The time budget of a component in seconds. -/
  timeoutSecs : UInt64 := 1200
  /-- The largest denominator bound that snapshots use. -/
  denominatorCap : UInt64 := 10000
  /-- The search that snapshots use. -/
  approximant : ApproximantKind := .sternBrocot
  /-- The order of the fraction table. -/
  tableMaxDenominator : UInt64 := 1000
  deriving DecidableEq, Inhabited

namespace SolverSettings

/-- The search that the settings choose. -/
def buildApproximant (s : SolverSettings) : Approximant :=
  match s.approximant with
  | .sternBrocot => .walk
  | .table => .table (.ofOrder s.tableMaxDenominator.toNat)

/-- The time budget of a component in sweeps, at a number of sweeps per second. -/
def sweepBudget (s : SolverSettings) (pace : Nat) : Nat := s.timeoutSecs.toNat * pace

end SolverSettings

end StochasticGame
