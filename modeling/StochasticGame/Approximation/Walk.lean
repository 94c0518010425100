import StochasticGame.Approximation.Fraction

/-!
# StochasticGame.Approximation.Walk

**Nearest fraction by a walk down the Stern–Brocot tree.** The walk keeps two
neighbouring fractions that enclose the value, starting with 0/1 and 1/1, and
replaces one of them by their mediant until the mediant's denominator passes the
bound. The answer is the best of the ends and of all mediants met.

Each step makes the mediant's denominator grow, so the walk ends within as many
steps as the bound says. A walk that ran out of steps would have no answer.
Values outside the unit interval are answered by the nearer end.

The program keeps fractions in 64 bits, so a walk that computes a larger mediant
is a fault. `canWalk` says which queries have none. It counts the last mediant
too, the one that passes the bound, so a fault needs a bound near 2 ^ 64.
-/

namespace StochasticGame

namespace Fraction

/-- The answer of the walk between `left` and `right`, if it ends within the given
number of steps. -/
def walk (value : Rat) (bound : Nat) : Nat → Fraction → Fraction → Fraction → Option Fraction
  | 0, _, _, _ => none
  | steps + 1, left, right, best =>
    let middle := left.mediant right
    if bound < middle.den then some best
    else
      match middle.compareTo value with
      | .eq => some middle
      | .lt => walk value bound steps middle right (middle.closer best value)
      | .gt => walk value bound steps left middle (middle.closer best value)

/-- Whether the mediants have 64 bits that at most the given number of steps of
the walk between `left` and `right` computes. -/
def walkFits (value : Rat) (bound : Nat) : Nat → Fraction → Fraction → Bool
  | 0, _, _ => true
  | steps + 1, left, right =>
    let middle := left.mediant right
    if middle.fits then
      if bound < middle.den then true
      else
        match middle.compareTo value with
        | .eq => true
        | .lt => walkFits value bound steps middle right
        | .gt => walkFits value bound steps left middle
    else false

end Fraction

/-- The fraction in the unit interval closest to a value among those with
denominator at most `bound` (at least 1). -/
def nearestByWalk (value : Rat) (bound : Nat) : Rat :=
  let bound := max bound 1
  let answer := Fraction.walk value bound bound .zero .one (Fraction.one.closer .zero value)
  (answer.getD .zero).toRat

/-- Whether the walk for a value and a bound computes only mediants of 64
bits. -/
def canWalk (value : Rat) (bound : Nat) : Bool :=
  Fraction.walkFits value (max bound 1) (max bound 1) .zero .one

end StochasticGame
