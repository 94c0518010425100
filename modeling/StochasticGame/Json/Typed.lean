import StochasticGame.Json.Skip

/-!
# StochasticGame.Json.Typed

**Reading values of known types.** A reader that meets a value of another type
reads far enough to name it: a word, a number or a string to its end, an array
or object only by its bracket.
-/

namespace StochasticGame.Json.Reader

/-- Name the value at the front of the text. -/
def found : Reader Found := do
  match ← next? with
  | some 'n' => literal ['n', 'u', 'l', 'l']; pure .null
  | some 't' => literal ['t', 'r', 'u', 'e']; pure (.bool true)
  | some 'f' => literal ['f', 'a', 'l', 's', 'e']; pure (.bool false)
  | some '"' => advance; pure (.text (← string .wanted))
  | some '[' => pure .sequence
  | some '{' => pure .map
  | some c => if c = '-' ∨ c.isDigit then pure (← number).found else throw .malformed
  | none => throw .malformed

/-- Fail because the value at the front of the text has another type than the
expected one. -/
def wrongType {α : Type} (expected : String) : Reader α := do
  throw (.misfit (.wrongType (← found) expected))

/-- Read a truth value. -/
def bool : Reader Bool := do
  match ← peek with
  | 't' => literal ['t', 'r', 'u', 'e']; pure true
  | 'f' => literal ['f', 'a', 'l', 's', 'e']; pure false
  | _ => wrongType "a boolean"

/-- Read the null value. -/
def null : Reader Unit := do
  match ← peek with
  | 'n' => literal ['n', 'u', 'l', 'l']
  | _ => wrongType "unit"

/-- Read a natural number of a width in bits, which a message calls by the given
name. -/
def natural (bits : Nat) (name : String) : Reader Nat := do
  let c ← peek
  if c = '-' ∨ c.isDigit then
    match ← number with
    | .natural n => if n < Nat.pow 2 bits then pure n else throw (.misfit (.outOfRange n name))
    | .negative n => throw (.misfit (.outOfRange (-(n : Int)) name))
    | .real x => throw (.misfit (.wrongType (.real x) name))
  else wrongType name

/-- The value a name stands for in a list of named values. -/
def ofName {α : Type} (variants : List (String × α)) (name : String) : Reader α :=
  match variants.lookup name with
  | some value => pure value
  | none => throw (.misfit (.unknownVariant name (variants.map Prod.fst)))

/-- Read one of several named values: its name as a string, or an object with
the name as only key and null as value. -/
def variant {α : Type} (variants : List (String × α)) : Reader α := do
  match ← peek with
  | '"' =>
    advance
    ofName variants (← string .wanted)
  | '{' =>
    advance
    expect '"'
    let value ← ofName variants (← string .wanted)
    expect ':'
    null
    expect '}'
    pure value
  | _ => throw .malformed

end StochasticGame.Json.Reader
