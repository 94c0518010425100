import StochasticGame.Game.Basic

/-!
# StochasticGame.Approximation.Bound

**How large the denominators of a component's values can be.** With `k` average
nodes in the component, `q` the largest denominator of a weight on their edges
and `L` the least common multiple of the denominators on those of these edges
that leave the component, the bound is `(L * q) ^ k`, cut at a cap.

The power is built factor by factor and given up once it passes the cap, so no
large number is computed for a large component.

The average nodes are counted without a limit. A counter of 32 bits never gets
that far either: a component names each of its nodes once, and a node, with its
known value and two tables of edges, takes about two hundred bytes, so that 2 ^ 32
of them would need close to a terabyte before a bound is asked for.
-/

namespace StochasticGame

/-- A bound on denominators. -/
structure DenominatorBound where
  /-- The bound that is used. -/
  value : Nat
  /-- Whether the theoretical bound passes the cap. -/
  capped : Bool
  deriving DecidableEq

namespace DenominatorBound

/-- The numbers that determine a bound. -/
structure Data where
  /-- The number of average nodes, always below 2 ^ 32 in practice. -/
  averages : Nat := 0
  /-- The largest denominator of a weight that leaves one. -/
  largest : Nat := 1
  /-- The least common multiple of those that also leave the component. -/
  multiple : Nat := 1
  deriving DecidableEq

/-- Take an edge of an average node into account. -/
def Data.addEdge (ids : List NodeId) (d : Data) (e : NodeId × Rat) : Data where
  averages := d.averages
  largest := if d.largest < e.2.den then e.2.den else d.largest
  multiple := if e.1 ∈ ids then d.multiple else d.multiple.lcm e.2.den

/-- Take a listed node into account. -/
def Data.addNode (g : Game) (ids : List NodeId) (d : Data) (id : NodeId) : Data :=
  match g.node? id with
  | some n =>
    if n.label = .average then
      n.succs.entries.foldl (Data.addEdge ids) { d with averages := d.averages + 1 }
    else d
  | none => d

/-- The numbers of a list of nodes. -/
def Data.ofNodes (g : Game) (ids : List NodeId) : Data := ids.foldl (Data.addNode g ids) {}

/-- Multiply `acc` by `base` a number of times, unless that passes the cap. -/
def cappedPower (base cap : Nat) : Nat → Nat → Option Nat
  | 0, acc => some acc
  | k + 1, acc => if cap < acc * base then none else cappedPower base cap k (acc * base)

end DenominatorBound

/-- The bound on the denominators of the values of the listed nodes. -/
def Game.denominatorBound (g : Game) (ids : List NodeId) (cap : Nat) : DenominatorBound :=
  let d := DenominatorBound.Data.ofNodes g ids
  match DenominatorBound.cappedPower (d.multiple * d.largest) cap d.averages 1 with
  | some value => ⟨value, false⟩
  | none => ⟨cap, true⟩

end StochasticGame
