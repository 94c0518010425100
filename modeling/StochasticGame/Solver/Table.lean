import StochasticGame.Game.Basic

/-!
# StochasticGame.Solver.Table

**Value tables.** One rational per slot of an arena. A table keeps the size it
was made with: nodes added to the game later lie outside it. Reading outside
gives 0 and writing there changes nothing; whoever must not do that asks first.
-/

namespace StochasticGame

/-- The current value of every node. -/
structure ValueTable where
  /-- The values by node id. -/
  values : Array Rat
  deriving DecidableEq

namespace ValueTable

/-- The value a slot starts with: a live node's known value, 0 otherwise. -/
def initial : Slot → Rat
  | .live n => n.known.getD 0
  | _ => 0

/-- The table that starts from the known values of a game. -/
def ofGame (g : Game) : ValueTable := ⟨g.slots.map initial⟩

/-- The number of entries. -/
def size (w : ValueTable) : Nat := w.values.size

/-- Whether there is no entry. -/
def isEmpty (w : ValueTable) : Bool := w.values.isEmpty

/-- The value of an id inside the table. -/
def get? (w : ValueTable) (id : NodeId) : Option Rat := w.values[id]?

/-- The value of an id, 0 outside the table. -/
def value (w : ValueTable) (id : NodeId) : Rat := (w.get? id).getD 0

/-- Write the value of an id inside the table. -/
def set (w : ValueTable) (id : NodeId) (x : Rat) : ValueTable := ⟨w.values.setIfInBounds id x⟩

/-- The values of listed ids, with the ids. -/
def save (w : ValueTable) (ids : List NodeId) : List (NodeId × Rat) :=
  ids.map fun id => (id, w.value id)

/-- Write saved values back, in the order in which they were saved. -/
def restore (w : ValueTable) (saved : List (NodeId × Rat)) : ValueTable :=
  saved.foldl (fun w e => w.set e.1 e.2) w

@[simp] theorem size_ofGame (g : Game) : (ofGame g).size = g.capacity := by
  simp [size, ofGame, Game.capacity]

@[simp] theorem size_set (w : ValueTable) (id : NodeId) (x : Rat) : (w.set id x).size = w.size := by
  simp [size, set]

/-- Reading after writing inside the table. -/
theorem value_set (w : ValueTable) (id j : NodeId) (x : Rat) (h : id < w.size) :
    (w.set id x).value j = if j = id then x else w.value j := by
  have h' : id < w.values.size := h
  by_cases hj : j = id
  · subst hj
    simp [value, get?, set, h']
  · have hj' : ¬ id = j := fun e => hj e.symm
    simp [value, get?, set, hj, hj']

end ValueTable

end StochasticGame
