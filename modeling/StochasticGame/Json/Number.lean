import StochasticGame.Json.Reader
import StochasticGame.Text.Number

/-!
# StochasticGame.Json.Number

**JSON numbers.** A number is an integer if it has neither a fraction nor an
exponent and fits 64 bits, with or without a sign; minus zero does not. Every
other number is a double-precision real: its first digits, as many as fit 64
bits, are scaled by a power of ten. A real too large for double precision is
not a number.
-/

namespace StochasticGame.Json

/-! ### The text of a number -/

/-- A number as it is written. -/
structure NumberText where
  /-- Whether there is a minus sign. -/
  negative : Bool
  /-- The digits before the point. -/
  whole : List Char
  /-- The digits after the point, none if there is no point. -/
  fraction : List Char
  /-- The exponent, if there is one. -/
  exponent : Option Int

namespace Reader

/-- Take digits, at least one. The argument is the failure at the end of the
text. -/
def digits (atEnd : Failure) : Reader (List Char) := do
  let text ← get
  match text.takeWhile Char.isDigit with
  | [] => throw (if text.isEmpty then atEnd else .malformed)
  | found =>
    set (text.dropWhile Char.isDigit)
    pure found

/-- Take the digits before the point: a zero alone, or digits that do not start
with one. -/
def wholeDigits (atEnd : Failure) : Reader (List Char) := do
  let found ← digits atEnd
  if found.head? = some '0' ∧ found.length ≠ 1 then throw .malformed else pure found

/-- Take the digits after a point, if there is a point. -/
def fractionDigits (atEnd : Failure) : Reader (List Char) := do
  if (← next?) = some '.' then
    advance
    digits atEnd
  else pure []

/-- Take a sign, if there is one. The flag says whether it was a minus. -/
def sign : Reader Bool := do
  match ← next? with
  | some '-' => advance; pure true
  | some '+' => advance; pure false
  | _ => pure false

/-- Take an exponent, if there is one. -/
def exponent (atEnd : Failure) : Reader (Option Int) := do
  let c ← next?
  if c = some 'e' ∨ c = some 'E' then
    advance
    let negative ← sign
    let magnitude := Text.digitsValue (← digits atEnd)
    pure (some (if negative then -(magnitude : Int) else magnitude))
  else pure none

/-- Take a number. The argument is the failure where the text ends before the
number is complete. -/
def numberText (atEnd : Failure) : Reader NumberText := do
  let negative := (← next?) = some '-'
  if negative then advance
  let whole ← wholeDigits atEnd
  let fraction ← fractionDigits atEnd
  let exponent ← exponent atEnd
  pure { negative, whole, fraction, exponent }

end Reader

/-! ### The value of a number -/

/-- A number. -/
inductive Number where
  /-- An integer of 64 bits without a sign. -/
  | natural (n : Nat)
  /-- A negative integer of 64 bits, given by its magnitude. -/
  | negative (n : Nat)
  /-- Any other number. -/
  | real (x : Float)

/-- Append digits to a significand while it fits 64 bits. The second component
is the number of digits left over. -/
def appendDigits : Nat → List Char → Nat × Nat
  | significand, [] => (significand, 0)
  | significand, c :: rest =>
    let longer := 10 * significand + Text.digitValue c
    if longer < Nat.pow 2 64 then appendDigits longer rest else (significand, rest.length + 1)

/-- The power of ten as a real. -/
def powerOfTen (k : Nat) : Float := Float.ofScientific 1 false k

/-- Scale a real by a power of ten, in at most the given number of steps; `none`
if the result is too large. A power beyond the range of reals is applied in
parts, the first two of which turn any significand into zero. -/
def scaleReal : Nat → Float → Int → Option Float
  | 0, x, _ => some x
  | steps + 1, x, power =>
    if power.natAbs ≤ 308 then
      if 0 ≤ power then
        let scaled := x * powerOfTen power.natAbs
        if scaled.isInf then none else some scaled
      else some (x / powerOfTen power.natAbs)
    else if x == 0.0 then some x
    else if 0 ≤ power then none
    else scaleReal steps (x / powerOfTen 308) (power + 308)

/-- The value of a number, `none` if it is too large. -/
def NumberText.value? (t : NumberText) : Option Number :=
  let (significand, dropped) := appendDigits 0 t.whole
  if t.fraction.isEmpty ∧ t.exponent = none ∧ dropped = 0 ∧ t.negative = false then
    some (.natural significand)
  else if t.fraction.isEmpty ∧ t.exponent = none ∧ dropped = 0 ∧
      0 < significand ∧ significand ≤ Nat.pow 2 63 then
    some (.negative significand)
  else
    let (significand, unused) := appendDigits significand t.fraction
    let power := (dropped : Int) - (t.fraction.length - unused : Nat) + t.exponent.getD 0
    (scaleReal 3 significand.toUInt64.toFloat power).map fun x =>
      .real (if t.negative then -x else x)

/-- Read a number. -/
def Reader.number : Reader Number := do
  match (← numberText .cutShort).value? with
  | some n => pure n
  | none => throw .malformed

/-- A number as a message names it. -/
def Number.found : Number → Found
  | natural n => .integer n
  | negative n => .integer (-(n : Int))
  | real x => .real x

end StochasticGame.Json
