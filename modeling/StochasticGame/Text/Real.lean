/-!
# StochasticGame.Text.Real

**Double-precision numbers as text.** The digits are the fewest that read back
as the same number, and of those the nearest. Numbers whose decimal exponent
lies between -5 and 15 are written positionally, always with a digit after the
point; all others with one digit before the point and a signed exponent.
-/

namespace StochasticGame.Text

/-! ### The fewest digits -/

/-- A positive number of the form `mantissa * 2 ^ exponent`, with the distances
to the ends of the interval of reals that round to it, in quarters of the unit
`2 ^ exponent`. -/
structure Binary where
  /-- The mantissa. -/
  mantissa : Nat
  /-- The exponent of the unit. -/
  exponent : Int
  /-- Quarters of a unit to the lower end. -/
  below : Nat

/-- The magnitude of a finite number, given by its bits. -/
def Binary.ofBits (bits : Nat) : Binary :=
  let field : Nat := bits / Nat.pow 2 52 % Nat.pow 2 11
  let fraction : Nat := bits % Nat.pow 2 52
  if field = 0 then ⟨fraction, -1074, 2⟩
  else ⟨Nat.pow 2 52 + fraction, (field : Int) - 1075, if fraction = 0 ∧ field ≠ 1 then 1 else 2⟩

/-- Digits and a power of ten: the number `digits * 10 ^ power`. -/
structure Digits where
  /-- The digits as a number. -/
  digits : Nat
  /-- The power of ten. -/
  power : Int

/-- The number of decimal digits. -/
def Digits.length (d : Digits) : Nat := (Nat.toDigits 10 d.digits).length

/-- The two sides of a comparison with a grid of spacing `10 ^ power`: the
number of quarters in `b`'s unit and in the spacing, over a common
denominator. -/
def Binary.units (b : Binary) (power : Int) : Nat × Nat :=
  let quarter := b.exponent - 2
  (Nat.pow 2 quarter.toNat * Nat.pow 10 (-power).toNat,
    Nat.pow 10 power.toNat * Nat.pow 2 (-quarter).toNat)

/-- The nearest point of the grid of spacing `10 ^ power` that rounds to a
number, if one does. -/
def Binary.onGrid? (b : Binary) (power : Int) : Option Digits :=
  let (unit, spacing) := b.units power
  let value := 4 * b.mantissa * unit
  let low := value - b.below * unit
  let high := value + 2 * unit
  let fits (n : Nat) : Bool :=
    if b.mantissa % 2 = 0 then low ≤ n * spacing && n * spacing ≤ high
    else low < n * spacing && n * spacing < high
  let floor := value / spacing
  let rest := value % spacing
  let upFirst := spacing < 2 * rest || (spacing = 2 * rest && floor % 2 = 1)
  let first := if upFirst then floor + 1 else floor
  let second := if upFirst then floor else floor + 1
  if fits first && first ≠ 0 then some ⟨first, power⟩
  else if fits second && second ≠ 0 then some ⟨second, power⟩
  else none

/-- The first power of ten, going down from a start, whose grid has a point that
rounds to a number. -/
def Binary.search (b : Binary) : Nat → Int → Digits
  | 0, power => (b.onGrid? power).getD ⟨0, 0⟩
  | steps + 1, power =>
    match b.onGrid? power with
    | some d => d
    | none => b.search steps (power - 1)

/-- The fewest digits that read back as a number. No finite number reaches
`10 ^ 309`, and the smallest one is above `10 ^ -324`. -/
def Binary.shortest (b : Binary) : Digits := b.search 633 308

/-! ### Layout -/

/-- The least decimal exponent that is written positionally. -/
def leastPositional : Int := -5

/-- The greatest decimal exponent that is written positionally. -/
def greatestPositional : Int := 15

/-- Lay out digits with a decimal exponent. -/
def layout (digits : List Char) (exponent : Int) : List Char :=
  if leastPositional ≤ exponent ∧ exponent ≤ greatestPositional then
    if exponent < 0 then
      '0' :: '.' :: (List.replicate (exponent.natAbs - 1) '0' ++ digits)
    else
      let whole := exponent.toNat + 1
      let padded := digits ++ List.replicate (whole - digits.length) '0'
      let fraction := padded.drop whole
      padded.take whole ++ '.' :: (if fraction.isEmpty then ['0'] else fraction)
  else
    let tail := digits.drop 1
    let sign := if exponent < 0 then '-' else '+'
    digits.take 1 ++ (if tail.isEmpty then [] else '.' :: tail) ++
      'e' :: sign :: Nat.toDigits 10 exponent.natAbs

/-- The text of a positive number. -/
def Digits.text (d : Digits) : List Char :=
  let digits := Nat.toDigits 10 d.digits
  layout digits (d.power + (digits.length - 1))

/-- The text of a finite number. -/
def real (x : Float) : String :=
  let bits := x.toBits.toNat
  let magnitude := bits % Nat.pow 2 63
  let text := if magnitude = 0 then ['0', '.', '0'] else (Binary.ofBits magnitude).shortest.text
  String.ofList (if bits / Nat.pow 2 63 = 1 then '-' :: text else text)

end StochasticGame.Text
