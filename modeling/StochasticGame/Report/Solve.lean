import StochasticGame.Analysis
import StochasticGame.Report.Document
import StochasticGame.Text.Rational

/-!
# StochasticGame.Report.Solve

**Reports of an analysis.** The values of the producer states, one per line or
as part of a document that also holds the counters of the run.
-/

namespace StochasticGame.Report

/-- The document of a census. -/
def census (c : Census) : Document := .record
  [("max", .number c.max), ("min", .number c.min), ("average", .number c.average),
   ("sink_zero", .number c.sinkZero), ("sink_one", .number c.sinkOne)]

/-- The document of a reduction. -/
def reduction (s : ReductionStats) : Document := .record
  [("nodes_before", .number s.nodesBefore), ("edges_before", .number s.edgesBefore),
   ("nodes_after", .number s.nodesAfter), ("edges_after", .number s.edgesAfter),
   ("promoted", .number s.promoted), ("pruned", .number s.pruned),
   ("fused_sinks", .number s.fusedSinks), ("fused_nodes", .number s.fusedNodes),
   ("self_loops", .number s.selfLoops),
   ("labels_before", census s.labelsBefore), ("labels_after", census s.labelsAfter)]

/-- The document of a solving run's counters. -/
def solveStats (s : SolveStats) : Document := .record
  [("acyclic", .bool s.acyclic), ("components", .number s.components),
   ("largest_component", .number s.largestComponent), ("sweeps", .number s.sweeps),
   ("exact_snapshots", .number s.exactSnapshots)]

/-- The document of a caveat. -/
def warning (w : PrecisionWarning) : Document := .record
  [("component_size", .number w.componentSize), ("denominator_cap", .number w.denominatorCap)]

/-- The producer states that have a value, with the text of the value, in
binding order. -/
def stateValues (g : Game) (s : Solution) : List (State × String) :=
  g.states.filterMap fun state =>
    match s.stateValue g state with
    | .ok (some value) => some (state, Text.rational value)
    | _ => none

/-- The document of an analysis of a game. -/
def analysis (g : Game) (a : Analysis) : Document := .record
  [("exact", .bool a.solution.isExact),
   ("reduction", reduction a.reduction),
   ("stats", solveStats a.solution.stats),
   ("warnings", .list (a.solution.warnings.map warning)),
   ("values", .record ((stateValues g a.solution).map fun e => (toString e.1, .text e.2)))]

/-- One line per producer state: the state and its value. -/
def valueLines (g : Game) (s : Solution) : String :=
  String.join ((stateValues g s).map fun e => toString e.1 ++ " " ++ e.2 ++ "\n")

end StochasticGame.Report
