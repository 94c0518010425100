import StochasticGame.Approximation.FareyTable

/-!
# StochasticGame.Approximation.Kind

**The choice of a search.** Two searches find nearest fractions; settings name
one of them.
-/

namespace StochasticGame

/-- Which search finds nearest fractions. -/
inductive ApproximantKind where
  /-- The walk down the Stern–Brocot tree. -/
  | sternBrocot
  /-- The table of reduced fractions. -/
  | table
  deriving DecidableEq, Inhabited

/-- The search a name stands for. -/
def ApproximantKind.ofName? : String → Option ApproximantKind
  | "stern_brocot" => some .sternBrocot
  | "stern-brocot" => some .sternBrocot
  | "table" => some .table
  | _ => none

/-- A search ready for queries. -/
inductive Approximant where
  /-- The walk, which needs no preparation. -/
  | walk
  /-- A table of reduced fractions. -/
  | table (t : FareyTable)

/-- The fraction in the unit interval closest to a value among those with
denominator at most `bound` (at least 1). -/
def Approximant.nearest : Approximant → Rat → Nat → Rat
  | .walk, value, bound => nearestByWalk value bound
  | .table t, value, bound => t.nearest value bound

/-- Whether a query is answered within 64 bits. -/
def Approximant.canAnswer : Approximant → Rat → Nat → Bool
  | .walk, value, bound => canWalk value bound
  | .table t, value, bound => t.canAnswer value bound

end StochasticGame
