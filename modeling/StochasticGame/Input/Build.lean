import StochasticGame.Game.Edit
import StochasticGame.Input.StateLabel

/-!
# StochasticGame.Input.Build

**From transitions and labels to a game.** Every state that the transitions
mention becomes a node, in order of first mention, with the label and value of
its last entry in the label file. A sure choice is an edge; a random choice is a
fresh average node between the state and its targets.

Afterwards average nodes without a known value are seeded in arena order: one
whose successors all have known values gets their weighted sum.
-/

namespace StochasticGame

namespace Input

/-- The last entry for a state. -/
def lastLabel? (labels : List StateLabel) (state : Nat) : Option StateLabel :=
  labels.reverse.find? (·.state = state)

/-- The node of a state, created at its first mention. -/
def stateNode (labels : List StateLabel) (g : Game) (state : Nat) :
    Except InputError (NodeId × Game) :=
  match g.bindings.find? state with
  | some id => .ok (id, g)
  | none =>
    match lastLabel? labels state with
    | none => .error (.missingLabel state)
    | some entry =>
      let (id, g) := g.addNode entry.label
      let known := entry.value.map fun one => if one then (1 : Rat) else 0
      .ok (id, (g.setKnown id known).bindState state id)

/-- Add an edge to the node of a state. -/
def addTarget (labels : List StateLabel) (source : NodeId) (g : Game) (target : Rat × Nat) :
    Except InputError Game := do
  let (id, g) ← stateNode labels g target.2
  pure (g.addEdge source id target.1)

/-- Add a choice of the node `source`. -/
def addChoice (labels : List StateLabel) (source : NodeId) (g : Game) :
    Choice → Except InputError Game
  | .sure state => addTarget labels source g (1, state)
  | .random distribution =>
    let (average, g) := g.addNode .average
    distribution.foldlM (addTarget labels average) (g.addEdge source average 1)

/-- Add the choices of a state. -/
def addTransition (labels : List StateLabel) (g : Game) (t : Transition) :
    Except InputError Game := do
  let (source, g) ← stateNode labels g t.state
  t.choices.foldlM (addChoice labels source) g

end Input

namespace Game

/-- The weighted sum of the known values of a node's successors, if all are
known. -/
def knownExpectation? (g : Game) (n : Node) : Option Rat :=
  n.succs.entries.foldlM
    (fun acc e => ((g.node? e.1).bind Node.known).map fun value => acc + e.2 * value) 0

/-- Seed a node: an average node without a known value, all of whose successors
(at least one) have known values. -/
def seed (g : Game) (id : NodeId) : Game :=
  match g.node? id with
  | some n =>
    if n.label = .average ∧ n.known = none ∧ n.outDegree ≠ 0 then
      match g.knownExpectation? n with
      | some value => g.setKnown id (some value)
      | none => g
    else g
  | none => g

/-- Seed the nodes in arena order. -/
def seedAverages (g : Game) : Game := g.nodeIds.foldl seed g

end Game

namespace Input

/-- Build the game that transitions and labels describe. -/
def buildGame (transitions : List Transition) (labels : List StateLabel) :
    Except InputError Game := do
  let g ← transitions.foldlM (addTransition labels) .empty
  pure g.seedAverages

/-- Read both files and build their game. -/
def readGame (transitions labels : ByteArray) : Except InputError Game := do
  let transitions ← readTransitions transitions
  let labels ← readLabels labels
  buildGame transitions labels

end Input

end StochasticGame
