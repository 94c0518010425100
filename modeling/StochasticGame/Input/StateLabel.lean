import StochasticGame.Input.Transition

/-!
# StochasticGame.Input.StateLabel

**Label files.** The first line is a header and is not looked at. Every other
line has the words `state label value`; further words are ignored, and so are
lines without words. The value is -1 for a state that is not resolved, and 0 or
1 for one that is. A sink must be resolved.
-/

namespace StochasticGame

/-- The label and resolved value of a state. -/
structure StateLabel where
  /-- The state. -/
  state : Nat
  /-- Who decides there. -/
  label : Label
  /-- Whether the state is worth 1 or 0, if that is known. -/
  value : Option Bool
  deriving DecidableEq

namespace Input

/-- Read a resolved value; the inner `none` stands for -1. -/
def resolvedValue? (word : List Char) : Option (Option Bool) :=
  match Text.integral? word with
  | some (-1) => some none
  | some 0 => some (some false)
  | some 1 => some (some true)
  | _ => none

/-- Read a label keyword. -/
def readLabel (line : Nat) (word : List Char) : Except InputError Label :=
  match Label.ofKeyword? (String.ofList word) with
  | some label => .ok label
  | none => .error (.unknownLabel line (String.ofList word))

/-- Read a resolved value. -/
def readValue (line : Nat) (word : List Char) : Except InputError (Option Bool) :=
  match resolvedValue? word with
  | some value => .ok value
  | none => .error (.invalidValue line (String.ofList word))

/-- Read a line of a label file. -/
def readLabelLine (line : Nat) (text : List Char) : Except InputError (Option StateLabel) :=
  match Text.words text with
  | [] => .ok none
  | state :: label :: value :: _ => do
    let state ← readState line state
    let label ← readLabel line label
    let value ← readValue line value
    if label = .sink ∧ value = none then .error (.sinkWithoutPayoff state)
    else pure (some ⟨state, label, value⟩)
  | _ => .error (.invalidToken line .labelLine (String.ofList text))

/-- Read a label file. -/
def readLabels (bytes : ByteArray) : Except InputError (List StateLabel) :=
  readLines readLabelLine 2 ((Text.lines bytes).drop 1)

end Input

end StochasticGame
