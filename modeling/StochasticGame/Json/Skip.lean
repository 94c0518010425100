import StochasticGame.Json.Number
import StochasticGame.Json.Text

/-!
# StochasticGame.Json.Skip

**Skipping a value.** Unknown fields are ignored, but what they hold must be
JSON. A number is not read for its value, so none is too large; and one that the
end of the text cuts short counts as malformed.

The readers carry a limit on the number of values and brackets still to be read;
each of them takes a character, so the length of the text is enough.
-/

namespace StochasticGame.Json.Reader

mutual

/-- Skip a value. -/
def skipValue : Nat → Reader Unit
  | 0 => throw .malformed
  | limit + 1 => do
    match ← peek with
    | 'n' => literal ['n', 'u', 'l', 'l']
    | 't' => literal ['t', 'r', 'u', 'e']
    | 'f' => literal ['f', 'a', 'l', 's', 'e']
    | '"' => advance; let _ ← string .skipped
    | '[' =>
      advance
      if (← peek) = ']' then advance else skipElements limit
    | '{' =>
      advance
      if (← peek) = '}' then advance else skipMembers limit
    | c =>
      if c = '-' ∨ c.isDigit then let _ ← numberText .malformed
      else throw .malformed

/-- Skip the elements of an array up to its closing bracket. -/
def skipElements : Nat → Reader Unit
  | 0 => throw .malformed
  | limit + 1 => do
    skipValue limit
    match ← peek with
    | ',' => advance; skipElements limit
    | ']' => advance
    | _ => throw .malformed

/-- Skip the members of an object up to its closing bracket. -/
def skipMembers : Nat → Reader Unit
  | 0 => throw .malformed
  | limit + 1 => do
    expect '"'
    let _ ← string .skipped
    expect ':'
    skipValue limit
    match ← peek with
    | ',' => advance; skipMembers limit
    | '}' => advance
    | _ => throw .malformed

end

/-- Skip a value. -/
def skip : Reader Unit := do skipValue (2 * (← get).length + 1)

end StochasticGame.Json.Reader
