import StochasticGame.Approximation.Walk

/-!
# StochasticGame.Approximation.FareyTable

**Nearest fraction by binary search in a table.** The table of order `n` is the
sorted list of all fractions of the unit interval in lowest terms with
denominator at most `n`. A query splits it at the value and takes the nearest
entries on both sides whose denominators fit the bound.

A bound beyond the order of the table is answered by the walk.
-/

namespace StochasticGame

/-- A sorted table of reduced fractions. -/
structure FareyTable where
  /-- The largest denominator in the table, at least 1. -/
  order : Nat
  /-- The fractions in increasing order. -/
  entries : Array Fraction
  deriving DecidableEq

namespace FareyTable

/-- The reduced fractions strictly between 0 and 1 with a denominator. -/
def withDenominator (q : Nat) : List Fraction :=
  ((List.range q).filter fun p => 0 < p ∧ p.gcd q = 1).map (⟨·, q⟩)

/-- Every reduced fraction of the unit interval with denominator at most `n`,
by denominator. -/
def reducedFractions (n : Nat) : List Fraction :=
  .zero :: .one :: ((List.range (n + 1)).filter (2 ≤ ·)).flatMap withDenominator

/-- The order of fractions with positive denominators. -/
def le (a b : Fraction) : Bool := a.num * b.den ≤ b.num * a.den

/-- The table of an order. -/
def ofOrder (n : Nat) : FareyTable where
  order := max n 1
  entries := ((reducedFractions (max n 1)).mergeSort le).toArray

/-- The number of fractions in the table. -/
def size (t : FareyTable) : Nat := t.entries.size

/-- Whether the table has no fraction. -/
def isEmpty (t : FareyTable) : Bool := t.entries.isEmpty

/-- The first index between `lo` and `hi` at which a predicate fails, if it
holds up to some index and fails from there on. -/
def splitPoint (p : Fraction → Bool) (xs : Array Fraction) (lo hi : Nat) : Nat :=
  if lo < hi then
    let mid := (lo + hi) / 2
    if (xs[mid]?).any p then splitPoint p xs (mid + 1) hi else splitPoint p xs lo mid
  else lo
termination_by hi - lo

/-- The last entry before an index whose denominator fits a bound. -/
def lastFitting (xs : Array Fraction) (bound : Nat) : Nat → Option Fraction
  | 0 => none
  | i + 1 =>
    match xs[i]? with
    | some f => if f.den ≤ bound then some f else lastFitting xs bound i
    | none => lastFitting xs bound i

/-- The first entry from an index on whose denominator fits a bound. -/
def firstFitting (xs : Array Fraction) (bound i : Nat) : Option Fraction :=
  if h : i < xs.size then
    if xs[i].den ≤ bound then some xs[i] else firstFitting xs bound (i + 1)
  else none
termination_by xs.size - i

/-- The best table entry for a value among those that fit a bound. -/
def search (t : FareyTable) (value : Rat) (bound : Nat) : Fraction :=
  let split := splitPoint (fun f => f.compareTo value ≠ .gt) t.entries 0 t.entries.size
  match lastFitting t.entries bound split, firstFitting t.entries bound split with
  | some below, some above => above.closer below value
  | some below, none => below
  | none, some above => above
  | none, none => .zero

/-- The fraction in the unit interval closest to a value among those with
denominator at most `bound` (at least 1). -/
def nearest (t : FareyTable) (value : Rat) (bound : Nat) : Rat :=
  if t.order < bound then nearestByWalk value bound
  else (t.search value (max bound 1)).toRat

/-- Whether a query is answered within 64 bits. -/
def canAnswer (t : FareyTable) (value : Rat) (bound : Nat) : Bool :=
  bound ≤ t.order || canWalk value bound

end FareyTable

end StochasticGame
