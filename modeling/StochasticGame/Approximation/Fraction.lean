/-!
# StochasticGame.Approximation.Fraction

**Fractions and how close they are to a value.** The searches for a nearest
fraction work on explicit numerators and denominators and compare by
cross-multiplication, so no comparison rounds.

Of two equally close fractions the one with the smaller denominator is
preferred, and then the one with the smaller numerator.
-/

namespace StochasticGame

/-- A fraction, not necessarily in lowest terms. -/
structure Fraction where
  /-- The numerator. -/
  num : Nat
  /-- The denominator. -/
  den : Nat
  deriving DecidableEq, Inhabited

namespace Fraction

/-- The fraction 0/1. -/
def zero : Fraction := ⟨0, 1⟩

/-- The fraction 1/1. -/
def one : Fraction := ⟨1, 1⟩

/-- Whether both numbers of a fraction have 64 bits. -/
def fits (f : Fraction) : Bool := f.num < Nat.pow 2 64 && f.den < Nat.pow 2 64

/-- The rational a fraction stands for. -/
def toRat (f : Fraction) : Rat := (f.num : Rat) / (f.den : Rat)

/-- The fraction between two others: sum of numerators over sum of
denominators. -/
def mediant (l r : Fraction) : Fraction := ⟨l.num + r.num, l.den + r.den⟩

/-- How a fraction with a positive denominator compares to a value. -/
def compareTo (f : Fraction) (value : Rat) : Ordering :=
  compare ((f.num : Int) * value.den) (value.num * f.den)

/-- The distance of a fraction to a value, times both denominators. -/
def gap (f : Fraction) (value : Rat) : Nat :=
  ((f.num : Int) * value.den - value.num * f.den).natAbs

/-- Whether `f` answers a search for `value` strictly better than `best`. -/
def isCloser (f best : Fraction) (value : Rat) : Bool :=
  let mine := f.gap value * best.den
  let other := best.gap value * f.den
  mine < other || (mine = other && (f.den < best.den || (f.den = best.den && f.num < best.num)))

/-- The better of a candidate and the best answer so far. -/
def closer (f best : Fraction) (value : Rat) : Fraction := if f.isCloser best value then f else best

end Fraction

end StochasticGame
