import StochasticGame.Approximation.Bound
import StochasticGame.Approximation.Kind
import StochasticGame.Solver.Step

/-!
# StochasticGame.Solver.Iteration

**Solving one component.** Sweeps are repeated until one changes nothing. On a
cycle exact iteration converges only in the limit, so after every `interval`
sweeps a snapshot is tried: each value is replaced by its nearest fraction under
the denominator bound, and the result is kept if every listed node has the value
its operator gives. Otherwise the values from before are written back.

Design points:

* time is counted in sweeps: the iteration is given a budget, which is checked
  before every sweep, so a budget of 0 fails before the first one;
* a listed id may lie outside the table. The iteration then stops with the
  changes made up to the first access outside, before a sweep's offending id or
  before a snapshot;
* a value may have no nearest fraction within 64 bits. The iteration then stops
  in the middle of the snapshot, with the values before that one replaced.
-/

namespace StochasticGame

/-- How the iteration of a component ended. -/
inductive Termination where
  /-- A sweep changed nothing. -/
  | converged
  /-- A snapshot was accepted. -/
  | exactFixedPoint
  deriving DecidableEq

/-- A caveat: a snapshot was accepted under a capped denominator bound. -/
structure PrecisionWarning where
  /-- The number of listed nodes. -/
  componentSize : Nat
  /-- The cap. -/
  denominatorCap : Nat
  deriving DecidableEq

/-- What a successful iteration reports. -/
structure Outcome where
  /-- How it ended. -/
  termination : Termination
  /-- The number of sweeps. -/
  sweeps : Nat
  /-- The caveat on the values, if there is one. -/
  warning : Option PrecisionWarning
  deriving DecidableEq

/-- Why an iteration gave no values. -/
inductive IterationFailure where
  /-- The budget of a component with this many nodes was spent. -/
  | timeout (componentSize : Nat)
  /-- An id lies outside the table. -/
  | outsideTable
  /-- A snapshot needs a fraction of more than 64 bits. -/
  | overflow
  deriving DecidableEq

/-- What stays the same during an iteration. -/
structure Iteration where
  /-- The game. -/
  game : Game
  /-- The listed nodes. -/
  ids : List NodeId
  /-- The search for nearest fractions. -/
  approximant : Approximant
  /-- Sweeps from one snapshot to the next; 0 for no snapshots. -/
  interval : Nat
  /-- The denominator bound of snapshots. -/
  bound : DenominatorBound

namespace Iteration

/-- Replace the value of an id by its nearest fraction, unless it is a sink. -/
def snapOne (it : Iteration) (w : ValueTable) (id : NodeId) : ValueTable :=
  if (it.game.node? id).any Node.isSink then w
  else w.set id (it.approximant.nearest (w.value id) it.bound.value)

/-- Replace the listed values by their nearest fractions. -/
def snap (it : Iteration) (w : ValueTable) : ValueTable := it.ids.foldl it.snapOne w

/-- Try a snapshot: save the listed values, replace them, and write them back
unless every listed node has the value that its operator gives. The flag says
whether the snapshot was kept. -/
def trySnapshot (it : Iteration) (w : ValueTable) : Bool × ValueTable :=
  let saved := w.save it.ids
  let snapped := it.snap w
  if it.game.isFixed it.ids snapped then (true, snapped) else (false, snapped.restore saved)

/-- Whether the value of an id can be replaced by its nearest fraction. -/
def canSnap (it : Iteration) (w : ValueTable) (id : NodeId) : Bool :=
  (it.game.node? id).any Node.isSink || it.approximant.canAnswer (w.value id) it.bound.value

/-- Replace the listed values by their nearest fractions up to the first one
that cannot be replaced. -/
def snapPartial (it : Iteration) (w : ValueTable) : ValueTable :=
  (it.ids.takeWhile (it.canSnap w)).foldl it.snapOne w

/-- Whether a snapshot follows the given number of sweeps. -/
def isDue (it : Iteration) (sweeps : Nat) : Bool := 0 < it.interval && sweeps % it.interval = 0

/-- The outcome of an accepted snapshot. -/
def accepted (it : Iteration) (sweeps : Nat) : Outcome where
  termination := .exactFixedPoint
  sweeps := sweeps
  warning := if it.bound.capped then some ⟨it.ids.length, it.bound.value⟩ else none

/-- Iterate with a budget of sweeps, after a number of sweeps done. -/
def run (it : Iteration) : Nat → Nat → ValueTable → Except IterationFailure Outcome × ValueTable
  | 0, _, w => (.error (.timeout it.ids.length), w)
  | budget + 1, done, w =>
    if it.ids.all (it.game.canUpdate w.size) then
      let (changed, w') := it.game.sweep it.ids w
      let sweeps := done + 1
      if it.isDue sweeps && it.ids.any (w.size ≤ ·) then
        (.error .outsideTable, w')
      else if it.isDue sweeps && !it.ids.all (it.canSnap w') then
        (.error .overflow, it.snapPartial w')
      else
        let (kept, w'') := if it.isDue sweeps then it.trySnapshot w' else (false, w')
        if kept then (.ok (it.accepted sweeps), w'')
        else if changed then it.run budget sweeps w''
        else (.ok ⟨.converged, sweeps, none⟩, w'')
    else (.error .outsideTable, (it.game.sweepPartial it.ids w).2)

end Iteration

end StochasticGame
