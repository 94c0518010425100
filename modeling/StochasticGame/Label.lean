/-!
# StochasticGame.Label

**Who decides at a node.** The four kinds of node of a simple stochastic game
and the keywords that name them in label files.
-/

namespace StochasticGame

/-- The kind of a node: the operator that computes its value. -/
inductive Label where
  /-- The maximizer moves to a best successor. -/
  | max
  /-- The minimizer moves to a worst successor. -/
  | min
  /-- Chance moves along the edge weights. -/
  | average
  /-- The play ends with a fixed payoff. -/
  | sink
  deriving DecidableEq, Inhabited

namespace Label

/-- The keyword of a label. -/
def keyword : Label → String
  | max => "max"
  | min => "min"
  | average => "average"
  | sink => "sink"

/-- The label a keyword names. -/
def ofKeyword? : String → Option Label
  | "max" => some max
  | "min" => some min
  | "average" => some average
  | "sink" => some sink
  | _ => none

@[simp] theorem ofKeyword?_keyword (l : Label) : ofKeyword? l.keyword = some l := by
  cases l <;> rfl

end Label

end StochasticGame
