import StochasticGame.Analysis
import StochasticGame.Approximation.Bound
import StochasticGame.Approximation.FareyTable
import StochasticGame.Approximation.Fraction
import StochasticGame.Approximation.Kind
import StochasticGame.Approximation.Walk
import StochasticGame.CommandLine.Arguments
import StochasticGame.CommandLine.Directory
import StochasticGame.CommandLine.Options
import StochasticGame.CommandLine.Response
import StochasticGame.CommandLine.Run
import StochasticGame.Export
import StochasticGame.Game.Basic
import StochasticGame.Game.Census
import StochasticGame.Game.Contract
import StochasticGame.Game.Edit
import StochasticGame.Input.Build
import StochasticGame.Input.Error
import StochasticGame.Input.StateLabel
import StochasticGame.Input.Transition
import StochasticGame.Json.Error
import StochasticGame.Json.Number
import StochasticGame.Json.Reader
import StochasticGame.Json.Record
import StochasticGame.Json.Skip
import StochasticGame.Json.Text
import StochasticGame.Json.Typed
import StochasticGame.Label
import StochasticGame.Main
import StochasticGame.Node
import StochasticGame.Ordered.Map
import StochasticGame.Ordered.Set
import StochasticGame.Plan.Components
import StochasticGame.Plan.Digraph
import StochasticGame.Plan.Order
import StochasticGame.Reduction.Fusion
import StochasticGame.Reduction.Law
import StochasticGame.Reduction.Promotion
import StochasticGame.Reduction.Pruning
import StochasticGame.Reduction.Run
import StochasticGame.Reduction.SelfLoops
import StochasticGame.Report.Document
import StochasticGame.Report.Solve
import StochasticGame.Report.Stats
import StochasticGame.Settings.Basic
import StochasticGame.Settings.Reader
import StochasticGame.Solver.Iteration
import StochasticGame.Solver.Settings
import StochasticGame.Solver.Solution
import StochasticGame.Solver.Step
import StochasticGame.Solver.Table
import StochasticGame.Text.Blank
import StochasticGame.Text.Lines
import StochasticGame.Text.Number
import StochasticGame.Text.Quoted
import StochasticGame.Text.Rational
import StochasticGame.Text.Real
import StochasticGame.Text.Terminal
import StochasticGame.Text.Unprintable
import StochasticGame.Proofs.Game.Linked
import StochasticGame.Proofs.Game.Contract
import StochasticGame.Proofs.Game.Operation
import StochasticGame.Proofs.Plan.Schedule
import StochasticGame.Proofs.Solver.Operator
import StochasticGame.Proofs.Solver.Run
import StochasticGame.Proofs.Solver.Equations
import StochasticGame.Proofs.Approximation.Closeness
import StochasticGame.Proofs.Approximation.Walk
import StochasticGame.Proofs.Solver.Gap
import StochasticGame.Proofs.Solver.Least
import StochasticGame.Proofs.Approximation.Table
import StochasticGame.Proofs.Game.Representative
import StochasticGame.Proofs.Input.Modelled
import StochasticGame.Proofs.Reduction.Agreement
import StochasticGame.Proofs.Reduction.Lumping
import StochasticGame.Proofs.Game.Adjacency
import StochasticGame.Proofs.Solver.SearchChoice
import StochasticGame.Proofs.Solver.Stopping
import StochasticGame.Proofs.Reduction.Range
import StochasticGame.Proofs.Solver.Denominators
import StochasticGame.Proofs.Reduction.MergePlan
import StochasticGame.Proofs.Reduction.Outflow
import StochasticGame.Proofs.Reduction.Reduced
import StochasticGame.Proofs.Reduction.States
import StochasticGame.Proofs.Solver.Backward
import StochasticGame.Proofs.Reduction.Survivors
import StochasticGame.Proofs.Game.Counts
import StochasticGame.Proofs.Reduction.NormalForm
import StochasticGame.Proofs.Reduction.Trimming
import StochasticGame.Proofs.Solver.LinearProgram
import StochasticGame.Proofs.Solver.LeastSolution
import StochasticGame.Proofs.Reduction.SelfLoops
import StochasticGame.Proofs.Reduction.Accounts
import StochasticGame.Proofs.Reduction.Correction
import StochasticGame.Proofs.Solver.IdleNodes
import StochasticGame.Proofs.Input.Grammar
import StochasticGame.Proofs.Input.WellFormed
import StochasticGame.Proofs.Solver.CappedBound
import StochasticGame.Proofs.Text.Layout
import StochasticGame.Proofs.Export.Numbering
import StochasticGame.Proofs.Export.Undirected
import StochasticGame.Proofs.Export.Directed
import StochasticGame.Proofs.Json.Grammar
import StochasticGame.Proofs.Json.Reading
import StochasticGame.Proofs.Json.Skipping
import StochasticGame.Proofs.Json.Typed
import StochasticGame.Proofs.Json.Record
import StochasticGame.Proofs.Settings.Overrides
import StochasticGame.Proofs.Approximation.WordSize
import StochasticGame.Proofs.Approximation.FareySequence
