import StochasticGame.CommandLine.Options
import StochasticGame.Text.Number
import StochasticGame.Text.Terminal

/-!
# StochasticGame.CommandLine.Arguments

**Reading the words of a command line.** Words are read from left to right.

* `--name` and `--name=value` are long options, `-n`, `-nvalue` and `-n=value`
  short ones; several short flags may share a word. After `--` no word is an
  option.
* An option that takes a value and has none attached takes the next word that
  does not look like an option. Its value is checked when the next option
  starts or the words end; an attached value is checked at once.
* A word that is neither an option nor a value is an error, and comes before an
  error in a value that is still unchecked.
* An option may be given once.
-/

namespace StochasticGame.CommandLine

/-- Why a word is not a number. -/
inductive NumberFault where
  /-- There is no character. -/
  | empty
  /-- There is a character that is not a digit. -/
  | invalidDigit
  /-- The number does not have 64 bits. -/
  | tooLarge
  deriving DecidableEq

/-- The wording of a fault in a number. -/
def NumberFault.message : NumberFault → String
  | empty => "cannot parse integer from empty string"
  | invalidDigit => "invalid digit found in string"
  | tooLarge => "number too large to fit in target type"

/-- Why a command line is refused. -/
inductive ArgumentError where
  /-- There are no words at all. -/
  | noArguments
  /-- There is no subcommand. -/
  | missingSubcommand
  /-- A word stands in place of a subcommand. -/
  | unknownSubcommand (word : String)
  /-- An input option is missing. -/
  | missingRequired
  /-- A word is neither an option nor a value. -/
  | unexpectedArgument (word : String)
  /-- An option has no value, or an empty one. -/
  | missingValue (option : Opt)
  /-- An option is given twice. -/
  | repeated (option : Opt)
  /-- A value is not one of those possible. -/
  | invalidValue (value : String) (option : Opt)
  /-- A value is not a number. -/
  | invalidNumber (value : String) (option : Opt) (fault : NumberFault)
  /-- A flag has a value. -/
  | unneededValue (value : String) (option : Opt)
  /-- A description of the program is asked for. -/
  | helpRequested
  deriving DecidableEq

/-- A word of the command line between single quotes, without what a terminal
takes as a command. -/
def quotedWord (word : String) : String := "'" ++ Text.shown word ++ "'"

/-- The wording of an error, if it has one. -/
def ArgumentError.message? : ArgumentError → Option String
  | noArguments => none
  | helpRequested => none
  | missingSubcommand =>
    some ("'" ++ programName ++ "' requires a subcommand but one was not provided")
  | unknownSubcommand word => some ("unrecognized subcommand " ++ quotedWord word)
  | missingRequired => some "the following required arguments were not provided:"
  | unexpectedArgument word => some ("unexpected argument " ++ quotedWord word ++ " found")
  | missingValue option =>
    some ("a value is required for '" ++ option.display ++ "' but none was supplied")
  | repeated option =>
    some ("the argument '" ++ option.display ++ "' cannot be used multiple times")
  | invalidValue value option =>
    some ("invalid value " ++ quotedWord value ++ " for '" ++ option.display ++ "'")
  | invalidNumber value option fault =>
    some ("invalid value " ++ quotedWord value ++ " for '" ++ option.display ++ "': " ++
      fault.message)
  | unneededValue value option =>
    some ("unexpected value " ++ quotedWord value ++ " for '" ++ option.display ++
      "' found; no more were expected")

/-! ### Values -/

/-- Read digits as a number of 64 bits; the first character that is wrong, or
makes the number too large, decides the fault. -/
def scanNumber : Nat → List Char → Except NumberFault Nat
  | n, [] => .ok n
  | n, c :: rest =>
    if c.isDigit then
      let longer := 10 * n + Text.digitValue c
      if longer < Nat.pow 2 64 then scanNumber longer rest else .error .tooLarge
    else .error .invalidDigit

/-- Read a number of 64 bits with an optional plus sign. -/
def readNumber (word : String) : Except NumberFault Nat :=
  match word.toList with
  | [] => .error .empty
  | ['+'] => .error .invalidDigit
  | '+' :: digits => scanNumber 0 digits
  | digits => scanNumber 0 digits

/-- The names of searches that the command line accepts. -/
def searchNames : List String := ["stern-brocot", "table"]

/-- Check the value of an option. -/
def checkValue (option : Opt) (value : String) : Except ArgumentError Unit :=
  match option.value? with
  | some .file => if value.isEmpty then .error (.missingValue option) else .ok ()
  | some .search =>
    if value ∈ searchNames then .ok ()
    else .error (if value.isEmpty then .missingValue option else .invalidValue value option)
  | some .seconds =>
    match readNumber value with
    | .ok _ => .ok ()
    | .error fault => .error (.invalidNumber value option fault)
  | none => .ok ()

/-! ### Words -/

/-- What has been read of a command line. -/
structure Matches where
  /-- The options with their values; a flag has an empty one. -/
  given : List (Opt × String) := []
  /-- An option whose value is not checked yet, or still missing. -/
  pending : Option (Opt × Option String) := none

namespace Matches

/-- Whether an option has been given. -/
def has (m : Matches) (option : Opt) : Bool := m.given.any (·.1 = option)

/-- The value of an option. -/
def value? (m : Matches) (option : Opt) : Option String := m.given.lookup option

/-- Add an option that is complete. -/
def add (m : Matches) (option : Opt) (value : String) : Except ArgumentError Matches := do
  if m.has option then throw (.repeated option)
  checkValue option value
  pure { m with given := m.given ++ [(option, value)] }

/-- Check the pending option. -/
def settle (m : Matches) : Except ArgumentError Matches :=
  match m.pending with
  | none => .ok m
  | some (option, none) => .error (.missingValue option)
  | some (option, some value) => { m with pending := none }.add option value

/-- Start an option that is not known to have a value attached. -/
def start (m : Matches) (option : Opt) : Except ArgumentError Matches := do
  let m ← m.settle
  if option.value?.isSome then pure { m with pending := some (option, none) }
  else if option = .help then throw .helpRequested
  else m.add option ""

/-- Take an option with its attached value. -/
def attach (m : Matches) (option : Opt) (value : String) : Except ArgumentError Matches := do
  let m ← m.settle
  m.add option value

/-- Take a word that is no option. -/
def takeWord (m : Matches) (word : String) : Except ArgumentError Matches :=
  match m.pending with
  | some (option, none) => .ok { m with pending := some (option, some word) }
  | _ => .error (.unexpectedArgument word)

end Matches

/-- Split a word at its first equals sign. -/
def splitEquals (cs : List Char) : String × Option String :=
  match Text.splitAt? '=' cs with
  | some (name, value) => (String.ofList name, some (String.ofList value))
  | none => (String.ofList cs, none)

/-- Take a long option, given without its dashes. -/
def takeLong (options : List Opt) (m : Matches) (cs : List Char) :
    Except ArgumentError Matches :=
  let (name, value) := splitEquals cs
  match options.find? (·.long = name), value with
  | none, _ => .error (.unexpectedArgument ("--" ++ name))
  | some option, none => m.start option
  | some option, some value =>
    if option.value?.isSome then m.attach option value else .error (.unneededValue value option)

/-- Take short options, given without the dash. -/
def takeShort (options : List Opt) : Matches → List Char → Except ArgumentError Matches
  | m, [] => .ok m
  | m, c :: rest =>
    match options.find? (·.short? = some c) with
    | none => .error (.unexpectedArgument (String.ofList ['-', c]))
    | some option =>
      if option.value?.isSome then
        match rest with
        | [] => m.start option
        | '=' :: value => m.attach option (String.ofList value)
        | value => m.attach option (String.ofList value)
      else do
        let m ← m.start option
        takeShort options m rest

/-- Read the words of a subcommand. -/
def readWords (options : List Opt) : Matches → List String → Except ArgumentError Matches
  | m, [] => m.settle
  | m, word :: rest =>
    match word.toList with
    | ['-', '-'] =>
      match rest with
      | [] => m.settle
      | surplus :: _ => .error (.unexpectedArgument surplus)
    | '-' :: '-' :: cs => do
      let m ← takeLong options m cs
      readWords options m rest
    | '-' :: c :: cs => do
      let m ← takeShort options m (c :: cs)
      readWords options m rest
    | _ => do
      let m ← m.takeWord word
      readWords options m rest

/-- The word that asks for a description. -/
def helpWord : String := "help"

/-- Whether a word names a subcommand or asks for a description. -/
def isCommandWord (word : String) : Bool := (Subcommand.ofWord? word).isSome || word = helpWord

/-- The answer to a request for a description. At most one word may follow, and
it must name what is to be described. -/
def answerHelp : List String → ArgumentError
  | [] => .helpRequested
  | [word] => if isCommandWord word then .helpRequested else .unknownSubcommand word
  | word :: surplus :: _ => .unknownSubcommand (if isCommandWord word then surplus else word)

/-- Read the words up to the subcommand, and then those of the subcommand. -/
def readProgram : Matches → List String → Except ArgumentError (Subcommand × Matches)
  | m, [] => .error (if m.given.isEmpty then .noArguments else .missingSubcommand)
  | m, word :: rest =>
    match Subcommand.ofWord? word with
    | some command => do
      let inner ← readWords command.options {} rest
      pure (command, inner)
    | none =>
      if word = helpWord then .error (answerHelp rest)
      else
        match word.toList with
        | ['-', '-'] =>
          match rest with
          | [] => .error (if m.given.isEmpty then .noArguments else .missingSubcommand)
          | surplus :: _ =>
            .error (if isCommandWord surplus then .unexpectedArgument surplus
              else .unknownSubcommand surplus)
        | '-' :: '-' :: cs => do
          let m ← takeLong globalOptions m cs
          readProgram m rest
        | '-' :: c :: cs => do
          let m ← takeShort globalOptions m (c :: cs)
          readProgram m rest
        | _ => .error (.unknownSubcommand word)

/-! ### Commands -/

/-- What every command needs. -/
structure InputOptions where
  /-- The path of the transition file. -/
  transitions : String
  /-- The path of the label file. -/
  labels : String
  /-- The path of the settings file. -/
  config : Option String
  /-- Whether only the correction of probabilities runs. -/
  noReduce : Bool
  deriving DecidableEq

/-- What to do with the input. -/
inductive Action where
  /-- Solve the game, with settings from the command line. -/
  | solve (approximant : Option ApproximantKind) (timeout : Option UInt64) (json : Bool)
  /-- Write graph files. -/
  | exportGraph (undirected directed : Option String)
  /-- Show the effect of the reduction. -/
  | stats (json : Bool)
  deriving DecidableEq

/-- A command line that has been understood. -/
structure Command where
  /-- The input. -/
  input : InputOptions
  /-- What to do. -/
  action : Action
  deriving DecidableEq

/-- The action of a subcommand. -/
def Subcommand.action (c : Subcommand) (m : Matches) : Action :=
  match c with
  | solve =>
    .solve ((m.value? .approximant).bind ApproximantKind.ofName?)
      ((m.value? .timeout).bind fun word => (readNumber word).toOption.map Nat.toUInt64)
      (m.has .json)
  | exportGraph => .exportGraph (m.value? .undirected) (m.value? .directed)
  | stats => .stats (m.has .json)

/-- Understand the words after the program's name. -/
def readCommand (words : List String) : Except ArgumentError Command := do
  let (command, m) ← readProgram {} words
  match m.value? .transitions, m.value? .labels with
  | some transitions, some labels =>
    pure
      { input := { transitions, labels, config := m.value? .config, noReduce := m.has .noReduce }
        action := command.action m }
  | _, _ => throw .missingRequired

end StochasticGame.CommandLine
