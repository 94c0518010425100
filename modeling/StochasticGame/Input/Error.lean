import StochasticGame.Node

/-!
# StochasticGame.Input.Error

**What can be wrong with input.** Each error names its cause; `message` words
it. Lines are counted from 1.
-/

namespace StochasticGame

/-- Why a file could not be read or written. -/
inductive FileFailure where
  /-- There is nothing at the path. -/
  | notFound
  /-- There is a directory at the path. -/
  | isDirectory
  /-- The path leads through something that is not a directory. -/
  | notDirectory
  /-- The path, or a step of it, is too long. -/
  | nameTooLong
  /-- The contents are not UTF-8. -/
  | notUtf8
  /-- The system reports another failure. -/
  | other (text : String)
  deriving DecidableEq

/-- The system's wording of a failure. -/
def FileFailure.message : FileFailure → String
  | notFound => "No such file or directory (os error 2)"
  | isDirectory => "Is a directory (os error 21)"
  | notDirectory => "Not a directory (os error 20)"
  | nameTooLong => "File name too long (os error 36)"
  | notUtf8 => "stream did not contain valid UTF-8"
  | other text => text

/-- What a word should have been. -/
inductive WordKind where
  /-- A producer state. -/
  | state
  /-- The marker that opens a choice. -/
  | choiceMarker
  /-- A probability. -/
  | probability
  /-- A line of the label file. -/
  | labelLine
  deriving DecidableEq

/-- How a message names the expected word. -/
def WordKind.description : WordKind → String
  | state => "state"
  | choiceMarker => "choice marker"
  | probability => "probability"
  | labelLine => "`state label value` line"

/-- Malformed or inconsistent input. -/
inductive InputError where
  /-- A file could not be read. -/
  | unreadable (cause : FileFailure)
  /-- A word is not of the expected kind. -/
  | invalidToken (line : Nat) (expected : WordKind) (token : String)
  /-- A probability has no successor after it. -/
  | danglingProbability (line : Nat)
  /-- A label keyword is not known. -/
  | unknownLabel (line : Nat) (label : String)
  /-- A value is not -1, 0 or 1. -/
  | invalidValue (line : Nat) (value : String)
  /-- A sink has no payoff. -/
  | sinkWithoutPayoff (state : Nat)
  /-- A state that the transitions mention is not labelled. -/
  | missingLabel (state : Nat)
  deriving DecidableEq

/-- The wording of an input error. -/
def InputError.message : InputError → String
  | unreadable cause => s!"failed to read input: {cause.message}"
  | invalidToken line expected token =>
    s!"line {line}: invalid {expected.description} token `{token}`"
  | danglingProbability line => s!"line {line}: dangling probability without successor"
  | unknownLabel line label => s!"line {line}: unknown label `{label}`"
  | invalidValue line value => s!"line {line}: value must be -1, 0 or 1, got `{value}`"
  | sinkWithoutPayoff state => s!"state {state} is a sink without a 0/1 value"
  | missingLabel state => s!"state {state} has no label"

end StochasticGame
