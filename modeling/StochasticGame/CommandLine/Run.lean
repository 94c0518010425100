import StochasticGame.CommandLine.Arguments
import StochasticGame.Export
import StochasticGame.Input.Build
import StochasticGame.Report.Stats
import StochasticGame.Settings.Reader

/-!
# StochasticGame.CommandLine.Run

**Carrying out a command.** A command is a function of the files it names: it
yields the text to print and the files to write, or a failure. Files are looked
at in a fixed order: the settings file, then both input files are opened, then
the transitions are read, then the labels.
-/

namespace StochasticGame.CommandLine

/-- What a path leads to: a failure to open it, or what reading it gives. -/
abbrev FileState := Except FileFailure (Except FileFailure ByteArray)

/-- The files that a command reads. -/
structure Sources where
  /-- The settings file, if the command names one. -/
  config : Option FileState
  /-- The transition file. -/
  transitions : FileState
  /-- The label file. -/
  labels : FileState

/-- What a command yields. -/
structure Product where
  /-- The text to print. -/
  output : String := ""
  /-- The files to write in order, by path. -/
  files : List (String × String) := []
  deriving DecidableEq

/-- Why a command fails. -/
inductive CommandFailure where
  /-- The settings file cannot be read. -/
  | configUnreadable (cause : FileFailure)
  /-- The settings file is wrong. -/
  | configInvalid (cause : Json.Failure)
  /-- The input cannot be read or is wrong. -/
  | input (cause : InputError)
  /-- The game cannot be solved. -/
  | analysis (cause : AnalysisFailure)
  /-- A file cannot be written. -/
  | unwritable (cause : FileFailure)

/-- The wording of a failure. -/
def CommandFailure.message : CommandFailure → String
  | configUnreadable cause => "failed to read config: " ++ cause.message
  | configInvalid cause => "invalid config: " ++ cause.message
  | input cause => cause.message
  | analysis (.law violation) => violation.message
  | analysis (.iteration (.timeout size)) =>
    "component of " ++ toString size ++ " node(s) timed out"
  | analysis (.iteration .outsideTable) => "index outside the value table"
  | analysis (.iteration .overflow) => "fraction of more than 64 bits"
  | unwritable cause => "failed to write output: " ++ cause.message

/-- Whether a failure is a fault of the program, which is not reported as an
error. -/
def CommandFailure.isFault : CommandFailure → Bool
  | analysis (.iteration .outsideTable) => true
  | analysis (.iteration .overflow) => true
  | _ => false

/-- The exit code of a failure: 2 for a timeout, 101 for a fault, 1 for any
other. -/
def CommandFailure.exitCode : CommandFailure → Nat
  | analysis (.iteration (.timeout _)) => 2
  | failure => if failure.isFault then 101 else 1

/-! ### Reading files -/

/-- The settings that a command starts from. -/
def loadSettings (input : InputOptions) (sources : Sources) : Except CommandFailure Settings := do
  let settings ← match sources.config with
    | none => pure {}
    | some file => do
      let bytes ← (file.bind id).mapError CommandFailure.configUnreadable
      match String.fromUTF8? bytes with
      | none => throw (.configUnreadable .notUtf8)
      | some text => (Settings.ofJson text).mapError CommandFailure.configInvalid
  pure (if input.noReduce then { settings with reduce := .minimal } else settings)

/-- The game that a command works on. -/
def loadGame (sources : Sources) : Except CommandFailure Game := do
  let unreadable (cause : FileFailure) : CommandFailure := .input (.unreadable cause)
  let transitions ← sources.transitions.mapError unreadable
  let labels ← sources.labels.mapError unreadable
  let transitions ← transitions.mapError unreadable
  let transitions ← (Input.readTransitions transitions).mapError CommandFailure.input
  let labels ← labels.mapError unreadable
  let labels ← (Input.readLabels labels).mapError CommandFailure.input
  (Input.buildGame transitions labels).mapError CommandFailure.input

/-! ### Actions -/

/-- Reduce a game; a violation of the probability law fails the command. -/
def reduceGame (settings : Settings) (g : Game) : Except CommandFailure (ReductionStats × Game) :=
  match g.reduce settings.reduce with
  | (.ok stats, reduced) => .ok (stats, reduced)
  | (.error violation, _) => .error (.analysis (.law violation))

/-- Analyze a game and report the values of its states. -/
def solveGame (settings : Settings) (pace : Nat) (json : Bool) (g : Game) :
    Except CommandFailure Product :=
  match g.analyze settings pace with
  | (.error cause, _) => .error (.analysis cause)
  | (.ok analysis, reduced) =>
    .ok { output :=
            if json then (Report.analysis reduced analysis).pretty
            else Report.valueLines reduced analysis.solution }

/-- Carry out a command on the files it names, at a number of sweeps per second
of time budget. -/
def Command.run (command : Command) (pace : Nat) (sources : Sources) :
    Except CommandFailure Product := do
  let settings ← loadSettings command.input sources
  match command.action with
  | .solve approximant timeout json =>
    let solver := settings.solver
    let solver := { solver with
      approximant := approximant.getD solver.approximant
      timeoutSecs := timeout.getD solver.timeoutSecs }
    let g ← loadGame sources
    solveGame { settings with solver } pace json g
  | .exportGraph undirected directed =>
    let g ← loadGame sources
    let (_, reduced) ← reduceGame settings g
    pure { files :=
      (undirected.map (·, reduced.undirectedText)).toList ++
        (directed.map (·, reduced.directedText)).toList }
  | .stats json =>
    let g ← loadGame sources
    let (stats, _) ← reduceGame settings g
    pure { output := if json then (Report.sizes stats).pretty else Report.sizeTable stats }

end StochasticGame.CommandLine
