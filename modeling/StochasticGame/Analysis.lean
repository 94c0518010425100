import StochasticGame.Settings.Basic
import StochasticGame.Solver.Solution

/-!
# StochasticGame.Analysis

**Reduce, then solve.**
-/

namespace StochasticGame

/-- The outcome of an analysis. -/
structure Analysis where
  /-- What the reduction changed. -/
  reduction : ReductionStats
  /-- The values of the reduced game. -/
  solution : Solution
  deriving DecidableEq

/-- Why an analysis gave no values. -/
inductive AnalysisFailure where
  /-- The reduced game violates the probability law. -/
  | law (violation : LawViolation)
  /-- A component could not be solved. -/
  | iteration (failure : IterationFailure)
  deriving DecidableEq

/-- Reduce a game and solve the result. The reduced game is returned in any
case. -/
def Game.analyze (g : Game) (settings : Settings) (pace : Nat) :
    Except AnalysisFailure Analysis × Game :=
  match g.reduce settings.reduce with
  | (.error violation, reduced) => (.error (.law violation), reduced)
  | (.ok reduction, reduced) =>
    match reduced.solve settings.solver pace with
    | .error failure => (.error (.iteration failure), reduced)
    | .ok solution => (.ok ⟨reduction, solution⟩, reduced)

end StochasticGame
