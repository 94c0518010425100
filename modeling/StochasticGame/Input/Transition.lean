import StochasticGame.Approximation.Walk
import StochasticGame.Input.Error
import StochasticGame.Text.Blank
import StochasticGame.Text.Lines
import StochasticGame.Text.Number

/-!
# StochasticGame.Input.Transition

**Transition files.** Each line describes a state: its number, followed by
groups that each offer one choice.

* A group opens with a marker, a decimal that rounds to -1.
* `marker 1 s` is a sure move to state `s`.
* Any other group is a random choice: pairs of a probability and a state, none
  or more, up to the next marker.

States are integers of 63 bits, possibly written with a point and zeros.
Probabilities are trusted only up to denominator 10 and replaced by the nearest
such fraction. Lines without words are skipped.
-/

namespace StochasticGame

/-- One choice of a state. -/
inductive Choice where
  /-- Move to a state with certainty. -/
  | sure (state : Nat)
  /-- Move according to probabilities of states. -/
  | random (distribution : List (Rat × Nat))
  deriving DecidableEq

/-- The choices of a state. -/
structure Transition where
  /-- The state. -/
  state : Nat
  /-- What it may do. -/
  choices : List Choice
  deriving DecidableEq

namespace Input

/-- Whether a word opens a group. -/
def isMarker (word : List Char) : Bool :=
  (Text.Decimal.read? word).any Text.Decimal.roundsToMinusOne

/-- Read a state. -/
def readState (line : Nat) (word : List Char) : Except InputError Nat :=
  match Text.integral? word with
  | some (.ofNat n) => .ok n
  | _ => .error (.invalidToken line .state (String.ofList word))

/-- The denominator up to which probabilities are trusted. -/
def probabilityDenominator : Nat := 10

/-- Read a probability. -/
def readProbability (line : Nat) (word : List Char) : Except InputError Rat :=
  match Text.decimal? word with
  | some p => .ok (nearestByWalk p probabilityDenominator)
  | none => .error (.invalidToken line .probability (String.ofList word))

/-- Where a reader of groups stands. -/
inductive GroupPhase where
  /-- Before a marker. -/
  | between
  /-- Right after a marker. -/
  | opened
  /-- After some pairs of a random choice. -/
  | inside (pairs : List (Rat × Nat))

/-- The pairs of the group that is open. -/
def GroupPhase.pairs : GroupPhase → List (Rat × Nat)
  | .inside pairs => pairs
  | _ => []

/-- Read groups of words as choices. -/
def readGroups (line : Nat) : GroupPhase → List (List Char) → Except InputError (List Choice)
  | .between, [] => .ok []
  | .between, word :: rest =>
    if isMarker word then readGroups line .opened rest
    else .error (.invalidToken line .choiceMarker (String.ofList word))
  | phase, [] => .ok [.random phase.pairs]
  | .opened, word :: rest =>
    if Text.decimal? word = some 1 then
      match rest with
      | [] => .error (.danglingProbability line)
      | target :: rest' => do
        let state ← readState line target
        let choices ← readGroups line .between rest'
        pure (.sure state :: choices)
    else if isMarker word then do
      let choices ← readGroups line .opened rest
      pure (.random [] :: choices)
    else do
      let probability ← readProbability line word
      match rest with
      | [] => .error (.danglingProbability line)
      | target :: rest' => do
        let state ← readState line target
        readGroups line (.inside [(probability, state)]) rest'
  | .inside pairs, word :: rest =>
    if isMarker word then do
      let choices ← readGroups line .opened rest
      pure (.random pairs :: choices)
    else do
      let probability ← readProbability line word
      match rest with
      | [] => .error (.danglingProbability line)
      | target :: rest' => do
        let state ← readState line target
        readGroups line (.inside (pairs ++ [(probability, state)])) rest'

/-- Read a line of a transition file. A line without words says nothing. -/
def readTransitionLine (line : Nat) (text : List Char) : Except InputError (Option Transition) :=
  match Text.words text with
  | [] => .ok none
  | word :: rest => do
    let state ← readState line word
    let choices ← readGroups line .between rest
    pure (some ⟨state, choices⟩)

/-- Decode a line. -/
def decodeLine (line : List UInt8) : Except InputError (List Char) :=
  match Text.decode? line with
  | some text => .ok text
  | none => .error (.unreadable .notUtf8)

/-- Read lines one after another with a reader that may skip a line, stopping at
the first error. The number is that of the first line. -/
def readLines {α : Type} (read : Nat → List Char → Except InputError (Option α)) :
    Nat → List (List UInt8) → Except InputError (List α)
  | _, [] => .ok []
  | number, line :: rest => do
    let text ← decodeLine line
    let entry ← read number text
    let entries ← readLines read (number + 1) rest
    pure (entry.toList ++ entries)

/-- Read a transition file. -/
def readTransitions (bytes : ByteArray) : Except InputError (List Transition) :=
  readLines readTransitionLine 1 (Text.lines bytes)

end Input

end StochasticGame
