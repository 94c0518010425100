import StochasticGame.Export
import StochasticGame.Proofs.Game.Operation
import StochasticGame.Proofs.Plan.Schedule

/-!
# StochasticGame.Proofs.Game.Adjacency

**The adjacency invariant, as its readers need it.** `Linked` compares the two records
of the edges as relations on ids. `Adjacency` spells out what that means for the nodes
in their slots, and for the two readers that look up the target of every edge: the
plan, which turns ids into vertices, and the graph files, which turn them into numbers.

The two are equivalent, so the invariant of every sequence of operations is that of
`Linked`, one operation at a time.
-/

namespace StochasticGame.Game

variable {g : Game} {id : NodeId} {n : Node}

theorem node?_eq_some_iff : g.node? id = some n ↔ g.slots[id]? = some (.live n) := by
  unfold node?
  cases hs : g.slots[id]? with
  | none => simp
  | some slot => cases slot <;> simp

/-- The number of a live node is its place in the arena order. -/
theorem number?_of_contains (h : g.contains id = true) :
    ∃ k, g.number? id = some (k + 1) ∧ g.nodeIds[k]? = some id := by
  have hmem : id ∈ g.nodeIds := mem_nodeIds.2 (contains_iff.1 h)
  cases hk : g.nodeIds.idxOf? id with
  | none => exact absurd hmem (List.idxOf?_eq_none_iff.1 hk)
  | some k =>
    obtain ⟨hlt, hget, -⟩ := List.idxOf?_eq_some_iff.1 hk
    refine ⟨k, by rw [number?, hk]; rfl, ?_⟩
    rw [List.getElem?_eq_getElem hlt, hget]

/-- The edges of a game are recorded as they should be, and both ends of an edge can be
looked up. -/
structure Adjacency (g : Game) : Prop where
  /-- The nodes are listed with the indices of their slots. -/
  slot : ∀ id n, (id, n) ∈ g.nodes ↔ g.slots[id]? = some (.live n)
  /-- No index is listed twice. -/
  nodup : g.nodeIds.Nodup
  /-- A node is a successor of another exactly if it is live and records that one as a
  predecessor. -/
  recorded : ∀ u n, g.node? u = some n →
    ∀ v, v ∈ n.successors ↔ ∃ m, g.node? v = some m ∧ u ∈ m.preds.toList
  /-- A live node mentions live nodes only. -/
  live : ∀ u n, g.node? u = some n →
    ∀ v, v ∈ n.successors ∨ v ∈ n.preds.toList → g.contains v = true
  /-- Whatever the plan follows an edge to is one of its vertices. -/
  planned : ∀ u ∈ g.digraph.vertices, ∀ v ∈ g.digraph.next u, v ∈ g.digraph.vertices
  /-- Whatever a line of a graph file mentions has a number, which is its place in the
  list. -/
  numbered : ∀ e ∈ g.nodes, ∀ v, v ∈ e.2.successors ∨ v ∈ e.2.preds.toList →
    ∃ k, g.number? v = some (k + 1) ∧ g.nodeIds[k]? = some v

theorem Linked.contains_of_mention (h : g.Linked) (hn : g.node? id = some n) {v : NodeId}
    (hv : v ∈ n.successors ∨ v ∈ n.preds.toList) : g.contains v = true := by
  cases hv with
  | inl hs => exact h.contains_successor hn hs
  | inr hp => exact h.contains_source (predecessors_of_node? hn ▸ hp)

theorem Linked.mem_successors_iff_recorded (h : g.Linked) (hn : g.node? id = some n)
    (v : NodeId) : v ∈ n.successors ↔ ∃ m, g.node? v = some m ∧ id ∈ m.preds.toList := by
  rw [← successors_of_node? hn, h id v]
  constructor
  · intro hp
    obtain ⟨m, hm⟩ := contains_iff.1 (contains_of_mem_predecessors hp)
    exact ⟨m, hm, predecessors_of_node? hm ▸ hp⟩
  · intro ⟨m, hm, hp⟩
    rwa [predecessors_of_node? hm]

theorem Linked.adjacency (h : g.Linked) : Adjacency g where
  slot _ _ := mem_nodes.trans node?_eq_some_iff
  nodup := g.nodup_nodeIds
  recorded _ _ hn := h.mem_successors_iff_recorded hn
  live _ _ hn _ hv := h.contains_of_mention hn hv
  planned := h.digraph_closed.next_mem
  numbered _ he _ hv := number?_of_contains (h.contains_of_mention (mem_nodes.1 he) hv)

/-- The records of the nodes determine the relations between ids: a dead id has no
successors, and no live node names it as a predecessor. -/
theorem Adjacency.linked (h : Adjacency g) : g.Linked := by
  intro u v
  constructor
  · intro hv
    obtain ⟨n, hn⟩ := contains_iff.1 (contains_of_mem_successors hv)
    rw [successors_of_node? hn] at hv
    obtain ⟨m, hm, hu⟩ := (h.recorded u n hn v).1 hv
    rwa [predecessors_of_node? hm]
  · intro hu
    obtain ⟨m, hm⟩ := contains_iff.1 (contains_of_mem_predecessors hu)
    rw [predecessors_of_node? hm] at hu
    obtain ⟨n, hn⟩ := contains_iff.1 (h.live v m hm u (Or.inr hu))
    rw [successors_of_node? hn]
    exact (h.recorded u n hn v).2 ⟨m, hm, hu⟩

theorem adjacency_iff_linked : Adjacency g ↔ g.Linked := ⟨Adjacency.linked, Linked.adjacency⟩

/-- **Every sequence of operations keeps the adjacency invariant.** The ids that the
operations are given may be those of live, removed or merged nodes, or lie outside the
arena. -/
theorem adjacency_of_operations (ops : List Operation) :
    Adjacency (ops.foldl perform empty) :=
  adjacency_iff_linked.2 (Reachable.linked ⟨ops, rfl⟩)

end StochasticGame.Game
