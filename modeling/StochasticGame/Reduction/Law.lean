import StochasticGame.Game.Edit
import StochasticGame.Text.Rational

/-!
# StochasticGame.Reduction.Law

**The probability law.** The weights that leave an average node must sum to
exactly one. Producers round their probabilities, so the weights they give are
not trusted: `Game.correctLaw` makes every average node uniform, whether or not
its weights summed to one. `Game.lawViolation?` checks the law.
-/

namespace StochasticGame

/-- An average node whose weights do not sum to one. -/
structure LawViolation where
  /-- The node. -/
  node : NodeId
  /-- What its weights sum to. -/
  sum : Rat
  deriving DecidableEq

/-- The text that reports a violation. -/
def LawViolation.message (v : LawViolation) : String :=
  "probability law violated at NodeId(" ++ toString v.node ++ "): outgoing weights sum to " ++
    Text.rational v.sum

/-- The node with equal weights on all outgoing edges. -/
def Node.uniform (n : Node) : Node :=
  { n with succs := n.succs.mapValues fun _ => 1 / (n.outDegree : Rat) }

namespace Game

/-- Give every average node the uniform distribution over its successors. -/
def correctLaw (g : Game) : Game :=
  (g.nodes.filter fun e => e.2.label = .average).foldl (fun g e => g.modify e.1 Node.uniform) g

/-- The first average node in arena order that violates the law. -/
def lawViolation? (g : Game) : Option LawViolation :=
  (g.nodes.find? fun e => e.2.label = .average ∧ e.2.weightSum ≠ 1).map
    fun e => ⟨e.1, e.2.weightSum⟩

end Game

end StochasticGame
