import StochasticGame.Json.Error

/-!
# StochasticGame.Json.Reader

**Reading JSON from left to right.** A reader takes characters off the front of
the text and fails at the first thing that is wrong, so the leftmost error is
the one reported.
-/

namespace StochasticGame.Json

/-- A reader of values of type `α`: it consumes part of the text or fails. -/
abbrev Reader := StateT (List Char) (Except Failure)

/-- The characters between values that mean nothing. -/
def isSpace (c : Char) : Bool := c = ' ' ∨ c = '\n' ∨ c = '\t' ∨ c = '\r'

namespace Reader

/-- Skip spaces. -/
def spaces : Reader Unit := modify fun text => text.dropWhile isSpace

/-- The next character, which stays in the text. -/
def next? : Reader (Option Char) := do return (← get).head?

/-- Drop the next character. -/
def advance : Reader Unit := modify List.tail

/-- Skip spaces and look at the next character, which must exist. -/
def peek : Reader Char := do
  spaces
  match ← next? with
  | some c => pure c
  | none => throw .cutShort

/-- Skip spaces and take an expected character. -/
def expect (c : Char) : Reader Unit := do
  if (← peek) = c then advance else throw .malformed

/-- Take the given characters. -/
def literal : List Char → Reader Unit
  | [] => pure ()
  | c :: rest => do
    match ← next? with
    | none => throw .cutShort
    | some d =>
      advance
      if d = c then literal rest else throw .malformed

/-- Run a reader on a whole text, after which only spaces may remain. -/
def readAll {α : Type} (reader : Reader α) (text : List Char) : Except Failure α := do
  let (value, rest) ← reader.run text
  if (rest.dropWhile isSpace).isEmpty then pure value else throw .malformed

end Reader

end StochasticGame.Json
