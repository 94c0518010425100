/-!
# StochasticGame.Text.Number

**Numbers as words.** Integers with an optional sign, and decimals: an optional
sign, digits with at most one point and at least one digit, and optionally `e`
or `E` with an integer exponent. Only ASCII digits count as digits.

`Decimal` is the parsed form of a decimal; readers differ only in which of them
they accept.
-/

namespace StochasticGame.Text

/-! ### Integers -/

/-- The value of a digit. -/
def digitValue (c : Char) : Nat := c.toNat - '0'.toNat

/-- The number a list of digits reads as. -/
def digitsValue (cs : List Char) : Nat := cs.foldl (fun n c => 10 * n + digitValue c) 0

/-- Take an optional sign off a word. The flag says whether it was a minus. -/
def splitSign : List Char → Bool × List Char
  | '-' :: cs => (true, cs)
  | '+' :: cs => (false, cs)
  | cs => (false, cs)

/-- A natural number as digits, at least one. -/
def natural? (cs : List Char) : Option Nat :=
  if cs ≠ [] ∧ cs.all Char.isDigit then some (digitsValue cs) else none

/-- An integer as an optional sign and digits. -/
def integer? (cs : List Char) : Option Int :=
  let (negative, digits) := splitSign cs
  (natural? digits).map fun n => if negative then -(n : Int) else n

/-- Whether an integer fits a width in bits, one of them for the sign. -/
def fitsSigned (bits : Nat) (n : Int) : Bool :=
  -(Nat.pow 2 (bits - 1) : Int) ≤ n ∧ n < (Nat.pow 2 (bits - 1) : Int)

/-- An integer of a width in bits, as an optional sign and digits. -/
def signed? (bits : Nat) (cs : List Char) : Option Int := (integer? cs).filter (fitsSigned bits)

/-- Split at the first occurrence of a character, which belongs to neither
part. -/
def splitAt? (sep : Char) (cs : List Char) : Option (List Char × List Char) :=
  match cs.dropWhile (· ≠ sep) with
  | [] => none
  | _ :: rest => some (cs.takeWhile (· ≠ sep), rest)

/-- A 64-bit integer, plain or followed by a point and zeros only. -/
def integral? (cs : List Char) : Option Int :=
  match signed? 64 cs with
  | some n => some n
  | none =>
    match splitAt? '.' cs with
    | some (whole, fraction) => if fraction.all (· = '0') then signed? 64 whole else none
    | none => none

/-! ### Decimals -/

/-- A decimal: sign, digits, number of digits after the point, exponent. -/
structure Decimal where
  /-- Whether there is a minus sign. -/
  negative : Bool
  /-- All digits read as one number. -/
  significand : Nat
  /-- The number of digits after the point. -/
  places : Nat
  /-- The number after `e`, 0 if there is none. -/
  exponent : Int
  deriving DecidableEq

namespace Decimal

/-- The power of ten that scales the significand. -/
def scale (d : Decimal) : Int := d.exponent - d.places

/-- The digits before and after the point. -/
def splitPoint (cs : List Char) : List Char × List Char := (splitAt? '.' cs).getD (cs, [])

/-- The part before the first `e` or `E`, and the exponent after it. -/
def splitExponent? (cs : List Char) : Option (List Char × Int) :=
  let isMark (c : Char) : Bool := c = 'e' ∨ c = 'E'
  match cs.dropWhile (!isMark ·) with
  | [] => some (cs, 0)
  | _ :: exponent => (integer? exponent).map (cs.takeWhile (!isMark ·), ·)

/-- Read a word as a decimal. -/
def read? (cs : List Char) : Option Decimal := do
  let (mantissa, exponent) ← splitExponent? cs
  let (negative, digits) := splitSign mantissa
  let (whole, fraction) := splitPoint digits
  let significand ← natural? (whole ++ fraction)
  pure { negative, significand, places := fraction.length, exponent }

/-- The largest power of ten, up or down, that a decimal may be scaled by. -/
def maxScale : Nat := 64

/-- Whether a decimal is read exactly: the exponent has 32 bits, there are fewer
than 2 ^ 31 places, and the scale is small. -/
def inRange (d : Decimal) : Bool :=
  fitsSigned 32 d.exponent && d.places < Nat.pow 2 31 && d.scale.natAbs ≤ maxScale

/-- The number a decimal stands for. -/
def value (d : Decimal) : Rat :=
  let magnitude : Rat :=
    if 0 ≤ d.scale then ((d.significand * Nat.pow 10 d.scale.natAbs : Nat) : Rat)
    else mkRat d.significand (Nat.pow 10 d.scale.natAbs)
  if d.negative then -magnitude else magnitude

/-- The number of digits of a positive number without leading zeros; 0 has
none. -/
def digitCount (n : Nat) : Nat := if n = 0 then 0 else (Nat.toDigits 10 n).length

/-- Whether the nearest double-precision number is -1, that is, whether the
decimal lies between -1 - 2 ^ -53 and -1 + 2 ^ -54, both included (a half goes to
the even neighbour). A number of that size has no digit, or one, before the
point, and its scale is then no larger than the number of its digits; the power
is computed only there. -/
def roundsToMinusOne (d : Decimal) : Bool :=
  let order : Int := digitCount d.significand + d.scale
  if d.negative ∧ (order = 0 ∨ order = 1) ∧ d.scale ≤ 0 then
    let power := Nat.pow 10 d.scale.natAbs
    (Nat.pow 2 54 - 1) * power ≤ d.significand * Nat.pow 2 54 &&
      d.significand * Nat.pow 2 53 ≤ (Nat.pow 2 53 + 1) * power
  else false

end Decimal

/-- Read a word as a decimal in range, exactly. -/
def decimal? (cs : List Char) : Option Rat :=
  ((Decimal.read? cs).filter Decimal.inRange).map Decimal.value

end StochasticGame.Text
