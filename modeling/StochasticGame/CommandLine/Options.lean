import StochasticGame.Approximation.Kind

/-!
# StochasticGame.CommandLine.Options

**The options of the program.** Three subcommands share the options that name
the input; each has options of its own. An option is a flag or takes a value.
-/

namespace StochasticGame.CommandLine

/-- The name of the program. -/
def programName : String := "ssg"

/-- What the program can be asked to do. -/
inductive Subcommand where
  /-- Reduce and solve a game. -/
  | solve
  /-- Write the reduced game as graph files. -/
  | exportGraph
  /-- Show the size of a game before and after reduction. -/
  | stats
  deriving DecidableEq

/-- The subcommand a word names. -/
def Subcommand.ofWord? : String → Option Subcommand
  | "solve" => some solve
  | "export" => some exportGraph
  | "stats" => some stats
  | _ => none

/-- What the value of an option is. -/
inductive ValueKind where
  /-- A path, not empty. -/
  | file
  /-- The name of a search for nearest fractions. -/
  | search
  /-- A number of seconds with 64 bits. -/
  | seconds
  deriving DecidableEq

/-- How a message shows the value of an option. -/
def ValueKind.placeholder : ValueKind → String
  | file => "FILE"
  | search => "KIND"
  | seconds => "SECS"

/-- The options. -/
inductive Opt where
  /-- The transition file. -/
  | transitions
  /-- The label file. -/
  | labels
  /-- The settings file. -/
  | config
  /-- Run no reduction pass but the correction of probabilities. -/
  | noReduce
  /-- The search for nearest fractions. -/
  | approximant
  /-- The time budget of a component. -/
  | timeout
  /-- Report a document. -/
  | json
  /-- Where to write the undirected graph. -/
  | undirected
  /-- Where to write the directed graph. -/
  | directed
  /-- Log more. -/
  | verbose
  /-- Describe the program. -/
  | help
  deriving DecidableEq

namespace Opt

/-- The long name. -/
def long : Opt → String
  | transitions => "transitions"
  | labels => "labels"
  | config => "config"
  | noReduce => "no-reduce"
  | approximant => "approximant"
  | timeout => "timeout"
  | json => "json"
  | undirected => "undirected"
  | directed => "directed"
  | verbose => "verbose"
  | help => "help"

/-- The short name, if there is one. -/
def short? : Opt → Option Char
  | transitions => some 't'
  | labels => some 'l'
  | config => some 'c'
  | verbose => some 'v'
  | help => some 'h'
  | _ => none

/-- The kind of the option's value; none for a flag. -/
def value? : Opt → Option ValueKind
  | transitions => some .file
  | labels => some .file
  | config => some .file
  | undirected => some .file
  | directed => some .file
  | approximant => some .search
  | timeout => some .seconds
  | _ => none

/-- How a message shows an option. -/
def display (o : Opt) : String :=
  match o.value? with
  | some kind => "--" ++ o.long ++ " <" ++ kind.placeholder ++ ">"
  | none => "--" ++ o.long

end Opt

/-- The options that stand before the subcommand. -/
def globalOptions : List Opt := [.verbose, .help]

/-- The options of a subcommand. -/
def Subcommand.options (c : Subcommand) : List Opt :=
  let own : List Opt := match c with
    | solve => [.approximant, .timeout, .json]
    | exportGraph => [.undirected, .directed]
    | stats => [.json]
  [.transitions, .labels, .config, .noReduce] ++ own ++ globalOptions

end StochasticGame.CommandLine
