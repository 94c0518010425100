import StochasticGame.Node

/-!
# StochasticGame.Game.Basic

**Games.** A game is an arena of slots indexed by node id, together with the
producer states bound to nodes.

Design points:

* a node never moves: removing or merging it leaves a slot that remembers what
  happened, so ids stay meaningful for the lifetime of the game;
* a merged slot names the node that absorbed it, so the node that stands for an
  id is found by following merged slots (`Game.representative?`);
* a removed slot remembers the payoff of a sink, so a state bound to a pruned
  sink still has a value.

The arena may be asked about any id: an id outside it names no node.
-/

namespace StochasticGame

/-- A state of the producer that a node models. -/
abbrev State := Nat

/-- One place of the arena. -/
inductive Slot where
  /-- A node of the game. -/
  | live (node : Node)
  /-- The node that was here has been absorbed by another one. -/
  | merged (into : NodeId)
  /-- The node that was here has been removed; a sink leaves its payoff. -/
  | removed (payoff : Option Rat)
  deriving DecidableEq, Inhabited

/-- The node of a slot, if it still has one. -/
def Slot.node? : Slot → Option Node
  | .live n => some n
  | .merged _ => none
  | .removed _ => none

@[simp] theorem Slot.node?_live (n : Node) : (Slot.live n).node? = some n := rfl

@[simp] theorem Slot.node?_merged (i : NodeId) : (Slot.merged i).node? = none := rfl

@[simp] theorem Slot.node?_removed (p : Option Rat) : (Slot.removed p).node? = none := rfl

/-- A simple stochastic game. -/
structure Game where
  /-- The arena. -/
  slots : Array Slot
  /-- The node bound to each producer state, in binding order. -/
  bindings : OrdMap State NodeId
  deriving DecidableEq

namespace Game

/-- The game without nodes. -/
def empty : Game := ⟨#[], .empty⟩

instance : Inhabited Game := ⟨empty⟩

/-! ### Views -/

/-- The size of the arena, holes included. -/
def capacity (g : Game) : Nat := g.slots.size

/-- The live node of an id. -/
def node? (g : Game) (id : NodeId) : Option Node := g.slots[id]?.bind Slot.node?

/-- Whether an id names a live node. -/
def contains (g : Game) (id : NodeId) : Bool := (g.node? id).isSome

/-- The live nodes with their ids, in arena order. -/
def nodes (g : Game) : List (NodeId × Node) :=
  (List.range g.capacity).filterMap fun id => (g.node? id).map (id, ·)

/-- The ids of the live nodes, in arena order. -/
def nodeIds (g : Game) : List NodeId := g.nodes.map Prod.fst

/-- The successors of an id, in edge order. -/
def successors (g : Game) (id : NodeId) : List NodeId :=
  match g.node? id with
  | some n => n.successors
  | none => []

/-- The weight of an edge. -/
def weight? (g : Game) (source target : NodeId) : Option Rat :=
  (g.node? source).bind fun n => n.weightTo? target

/-- The payoff that a removed sink left behind. -/
def prunedPayoff? (g : Game) (id : NodeId) : Option Rat :=
  match g.slots[id]? with
  | some (.removed payoff) => payoff
  | _ => none

/-- The producer states in binding order. -/
def states (g : Game) : List State := g.bindings.keys

@[simp] theorem capacity_empty : empty.capacity = 0 := rfl

@[simp] theorem node?_empty (id : NodeId) : empty.node? id = none := rfl

/-- A live node lies inside the arena. -/
theorem lt_capacity_of_node? {g : Game} {id : NodeId} {n : Node} (h : g.node? id = some n) :
    id < g.capacity := by
  unfold node? at h
  match hs : g.slots[id]? with
  | none => simp [hs] at h
  | some s => exact (Array.getElem?_eq_some_iff.1 hs).1

/-- The listed nodes are exactly the live ones. -/
theorem mem_nodes {g : Game} {id : NodeId} {n : Node} :
    (id, n) ∈ g.nodes ↔ g.node? id = some n := by
  simp only [nodes, List.mem_filterMap, List.mem_range, Option.map_eq_some_iff, Prod.mk.injEq]
  constructor
  · rintro ⟨j, _, m, hm, rfl, rfl⟩
    exact hm
  · intro h
    exact ⟨id, lt_capacity_of_node? h, n, h, rfl, rfl⟩

/-- The listed ids are exactly those of live nodes. -/
theorem mem_nodeIds {g : Game} {id : NodeId} : id ∈ g.nodeIds ↔ ∃ n, g.node? id = some n := by
  simp only [nodeIds, List.mem_map, Prod.exists, exists_and_right, exists_eq_right, mem_nodes]

/-! ### Counts -/

/-- The number of live nodes. -/
def nodeCount (g : Game) : Nat := g.nodes.length

/-- The number of edges. -/
def edgeCount (g : Game) : Nat := (g.nodes.map fun e => e.2.outDegree).foldr (· + ·) 0

/-- Whether there is no live node. -/
def isEmpty (g : Game) : Bool := g.nodeCount = 0

/-- The nodes without a predecessor. -/
def roots (g : Game) : List NodeId :=
  (g.nodes.filter fun e => e.2.inDegree = 0).map Prod.fst

/-! ### Who stands for an id -/

/-- Follow merged slots for a number of steps. -/
def follow (g : Game) : Nat → NodeId → NodeId
  | 0, id => id
  | n + 1, id =>
    match g.slots[id]? with
    | some (.merged into) => g.follow n into
    | _ => id

/-- The node that now stands for an id of the arena. Every merge points to a
node that was live when it happened, so a chain of merges visits no slot twice
and as many steps as there are slots reach its end. -/
def representative? (g : Game) (id : NodeId) : Option NodeId :=
  if id < g.capacity then some (g.follow g.capacity id) else none

end Game

end StochasticGame
