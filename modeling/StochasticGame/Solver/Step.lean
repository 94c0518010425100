import StochasticGame.Solver.Table

/-!
# StochasticGame.Solver.Step

**The operators of a game.** `Game.step?` applies a node's operator to the
current values of its successors: the greatest one, the least one, their
weighted sum, or a sink's payoff. A sweep applies it to listed nodes one after
another in place, so later nodes see what earlier ones computed.

A table may be smaller than the arena. `Game.canStep` and `Game.canUpdate` say
which ids can be handled with a table of a given size; they depend on the game
and the size only.
-/

namespace StochasticGame

/-- The greatest of a list of values. -/
def greatest? : List Rat → Option Rat
  | [] => none
  | x :: xs => some (xs.foldl (fun a b => if a ≤ b then b else a) x)

/-- The least of a list of values. -/
def least? : List Rat → Option Rat
  | [] => none
  | x :: xs => some (xs.foldl (fun a b => if b ≤ a then b else a) x)

/-- The weighted sum of the values of a node's successors. -/
def Node.expectation (n : Node) (w : ValueTable) : Rat :=
  n.succs.entries.foldl (fun acc e => acc + e.2 * w.value e.1) 0

/-- The value a node's operator gives for a table, if it has something to
compute from. -/
def Node.step? (n : Node) (w : ValueTable) : Option Rat :=
  match n.label with
  | .sink => n.known
  | .max => greatest? (n.successors.map w.value)
  | .min => least? (n.successors.map w.value)
  | .average => some (n.expectation w)

/-- Whether a node's operator gives a value. -/
def Node.computes (n : Node) : Bool :=
  match n.label with
  | .sink => n.known.isSome
  | .max => !n.successors.isEmpty
  | .min => !n.successors.isEmpty
  | .average => true

/-- Whether a table of a size holds every entry that a node's operator reads. -/
def Node.readsWithin (n : Node) (size : Nat) : Bool :=
  n.isSink || n.successors.all (· < size)

namespace Game

/-- The value that the operator of an id gives for a table. -/
def step? (g : Game) (w : ValueTable) (id : NodeId) : Option Rat :=
  (g.node? id).bind (·.step? w)

/-- Whether `step?` at an id reads only inside a table of a size. -/
def canStep (g : Game) (size : Nat) (id : NodeId) : Bool :=
  (g.node? id).all (·.readsWithin size)

/-- Whether `update` at an id stays inside a table of a size. -/
def canUpdate (g : Game) (size : Nat) (id : NodeId) : Bool :=
  (g.node? id).all fun n => n.readsWithin size && (!n.computes || id < size)

/-- Replace the value of an id by what its operator gives, and record in the
flag whether the value changed. -/
def update (g : Game) (s : Bool × ValueTable) (id : NodeId) : Bool × ValueTable :=
  match g.step? s.2 id with
  | some x => if x = s.2.value id then s else (true, s.2.set id x)
  | none => s

/-- Update the listed ids in order. The flag says whether any value changed. -/
def sweep (g : Game) (ids : List NodeId) (w : ValueTable) : Bool × ValueTable :=
  ids.foldl g.update (false, w)

/-- Update the listed ids in order up to the first one that would leave the
table. -/
def sweepPartial (g : Game) (ids : List NodeId) (w : ValueTable) : Bool × ValueTable :=
  g.sweep (ids.takeWhile (g.canUpdate w.size)) w

/-- Whether the listed ids all have the value that their operators give. -/
def isFixed (g : Game) (ids : List NodeId) (w : ValueTable) : Bool :=
  ids.all fun id => (g.step? w id).all (· = w.value id)

end Game

end StochasticGame
