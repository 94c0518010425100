import StochasticGame.Game.Basic

/-!
# StochasticGame.Game.Edit

**Editing a game.** Adding nodes, writing known values, adding and removing
edges, removing nodes and binding states.

Every edge is recorded twice, as a successor of its source and as a predecessor
of its target, and every operation here updates both records. An operation on
an id that names no live node changes nothing.
-/

namespace StochasticGame.Game

/-! ### Nodes -/

/-- Change the live node of an id. -/
def modify (g : Game) (id : NodeId) (f : Node → Node) : Game :=
  match g.node? id with
  | some n => { g with slots := g.slots.setIfInBounds id (.live (f n)) }
  | none => g

@[simp] theorem capacity_modify (g : Game) (id : NodeId) (f : Node → Node) :
    (g.modify id f).capacity = g.capacity := by
  unfold modify
  split <;> simp [capacity]

/-- The nodes after a change: the changed one and all others as they were. -/
theorem node?_modify (g : Game) (id j : NodeId) (f : Node → Node) :
    (g.modify id f).node? j = if j = id then (g.node? id).map f else g.node? j := by
  unfold modify
  split
  · rename_i n hn
    have hlt : id < g.slots.size := lt_capacity_of_node? hn
    by_cases h : j = id
    · subst h
      rw [if_pos rfl, hn]
      simp [node?, hlt]
    · have h' : ¬ id = j := fun e => h e.symm
      simp [node?, h, h']
  · rename_i hn
    by_cases h : j = id
    · simp [h, hn]
    · simp [h]

/-- Add a node without edges. Its id is the old size of the arena. -/
def addNode (g : Game) (label : Label) : NodeId × Game :=
  (g.capacity, { g with slots := g.slots.push (.live (.fresh label)) })

/-- Write or clear the value known before solving. -/
def setKnown (g : Game) (id : NodeId) (value : Option Rat) : Game :=
  g.modify id fun n => { n with known := value }

/-- Write the label of a node. -/
def setLabel (g : Game) (id : NodeId) (label : Label) : Game :=
  g.modify id fun n => { n with label := label }

/-- Add a sink with payoff 1 or 0. -/
def addSink (g : Game) (payoff : Bool) : NodeId × Game :=
  let (id, g) := g.addNode .sink
  (id, g.setKnown id (some (if payoff then 1 else 0)))

/-! ### Edges -/

/-- Add an edge between live nodes, or replace the weight of an existing one. -/
def addEdge (g : Game) (source target : NodeId) (weight : Rat) : Game :=
  if g.contains source && g.contains target then
    (g.modify source (·.setSucc target weight)).modify target (·.addPred source)
  else g

/-- Add an edge between live nodes, or add to the weight of an existing one. -/
def addWeight (g : Game) (source target : NodeId) (weight : Rat) : Game :=
  match g.weight? source target with
  | some old => g.addEdge source target (old + weight)
  | none => g.addEdge source target weight

/-- Remove an edge. -/
def removeEdge (g : Game) (source target : NodeId) : Game :=
  match g.weight? source target with
  | some _ => (g.modify source (·.dropSucc target)).modify target (·.dropPred source)
  | none => g

/-- Remove every edge that leaves a node. -/
def clearSuccessors (g : Game) (id : NodeId) : Game :=
  (g.successors id).foldl (fun g succ => g.removeEdge id succ) g

/-! ### Removal -/

/-- Replace what an id's slot holds. -/
def setSlot (g : Game) (id : NodeId) (slot : Slot) : Game :=
  { g with slots := g.slots.setIfInBounds id slot }

/-- Remove a node with all its edges. A sink leaves its payoff behind. -/
def removeNode (g : Game) (id : NodeId) : Game :=
  match g.node? id with
  | some n =>
    let emptied := g.setSlot id (.removed (if n.isSink then n.known else none))
    let unlinked := n.successors.foldl (fun g succ => g.modify succ (·.dropPred id)) emptied
    n.preds.toList.foldl (fun g pred => g.modify pred (·.dropSucc id)) unlinked
  | none => g

/-! ### States -/

/-- Record that a node models a producer state. -/
def bindState (g : Game) (state : State) (id : NodeId) : Game :=
  { g with bindings := g.bindings.insert state id }

end StochasticGame.Game
