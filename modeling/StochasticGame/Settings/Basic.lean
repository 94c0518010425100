import StochasticGame.Reduction.Run
import StochasticGame.Solver.Settings

/-!
# StochasticGame.Settings.Basic

**Settings of an analysis.** Which reduction passes run and how the solver
works. Every setting has a default.
-/

namespace StochasticGame

/-- The settings of an analysis. -/
structure Settings where
  /-- The reduction passes that run. -/
  reduce : Passes := {}
  /-- How components are solved. -/
  solver : SolverSettings := {}
  deriving DecidableEq, Inhabited

end StochasticGame
