import StochasticGame.Proofs.Game.Views

/-!
# StochasticGame.Proofs.Game.Linked

**The two records of an edge agree.** Every edge is recorded at its source and at
its target. `Game.Linked` says that the two records are the same relation; since
only live nodes record anything, it also says that an edge joins live nodes.

Removing a node reads one record to clean up the other, so what it does to the
edges is stated here, for linked games.
-/

namespace StochasticGame.Game

/-- A node is a successor of another exactly if it records that one as a
predecessor. -/
def Linked (g : Game) : Prop := ∀ u v, v ∈ g.successors u ↔ u ∈ g.predecessors v

variable {g : Game} {id u v : NodeId} {n : Node}

theorem linked_iff : g.Linked ↔ ∀ u v, (g.weight? u v).isSome ↔ u ∈ g.predecessors v := by
  simp only [Linked, mem_successors_iff]

/-- A game with the same edges and predecessors as a linked one is linked. -/
theorem Linked.of_views {g' : Game} (h : g.Linked) (hw : ∀ u v, g'.weight? u v = g.weight? u v)
    (hp : ∀ v, g'.predecessors v = g.predecessors v) : g'.Linked := by
  rw [linked_iff] at h ⊢
  intro u v
  rw [hw, hp]
  exact h u v

/-- The target of an edge is live. -/
theorem Linked.contains_target (h : g.Linked) (hv : v ∈ g.successors u) : g.contains v = true :=
  contains_of_mem_predecessors ((h u v).1 hv)

theorem Linked.contains_successor (h : g.Linked) (hn : g.node? id = some n)
    (hv : v ∈ n.successors) : g.contains v = true :=
  h.contains_target (by rwa [successors_of_node? hn])

/-- The source of an edge is live. -/
theorem Linked.contains_source (h : g.Linked) (hu : u ∈ g.predecessors v) : g.contains u = true :=
  contains_of_mem_successors ((h u v).2 hu)

/-- The target of an edge with a weight is live. -/
theorem Linked.contains_of_isSome (h : g.Linked) (hv : (g.weight? u v).isSome) :
    g.contains v = true :=
  h.contains_target (mem_successors_iff.2 hv)

/-! ### Nodes and single edges -/

theorem linked_empty : empty.Linked := by
  intro u v
  simp [successors, predecessors]

theorem Linked.addNode (h : g.Linked) (label : Label) : (g.addNode label).2.Linked :=
  h.of_views (weight?_addNode g label) (predecessors_addNode g label)

theorem Linked.setKnown (h : g.Linked) (id : NodeId) (x : Option Rat) : (g.setKnown id x).Linked :=
  h.of_views (fun u v => weight?_setKnown g id u v x) (fun v => predecessors_setKnown g id v x)

theorem Linked.setLabel (h : g.Linked) (id : NodeId) (l : Label) : (g.setLabel id l).Linked :=
  h.of_views (fun u v => weight?_setLabel g id u v l) (fun v => predecessors_setLabel g id v l)

theorem Linked.bindState (h : g.Linked) (state : State) (id : NodeId) :
    (g.bindState state id).Linked := h

theorem Linked.addEdge (h : g.Linked) (u v : NodeId) (w : Rat) : (g.addEdge u v w).Linked := by
  by_cases hl : g.contains u = true ∧ g.contains v = true
  · rw [linked_iff] at h ⊢
    intro a b
    rw [weight?_addEdge hl.1 hl.2, mem_predecessors_addEdge hl.1 hl.2, ← h a b]
    split
    · rename_i hab
      simp [hab]
    · rename_i hab
      simp [hab]
  · rw [addEdge_of_not_live hl]
    exact h

theorem Linked.addWeight (h : g.Linked) (u v : NodeId) (w : Rat) : (g.addWeight u v w).Linked := by
  unfold Game.addWeight
  split
  · exact h.addEdge _ _ _
  · exact h.addEdge _ _ _

/-- In a linked game a node forgets a predecessor with the edge from it. -/
theorem Linked.mem_predecessors_removeEdge (h : g.Linked) (u v a b : NodeId) :
    a ∈ (g.removeEdge u v).predecessors b ↔ a ∈ g.predecessors b ∧ ¬ (a = u ∧ b = v) := by
  rw [Game.mem_predecessors_removeEdge, ← linked_iff.1 h a b]
  constructor
  · rintro ⟨hab, hne⟩
    refine ⟨hab, ?_⟩
    rintro ⟨rfl, rfl⟩
    exact hne ⟨rfl, rfl, hab⟩
  · rintro ⟨hab, hne⟩
    exact ⟨hab, fun hx => hne ⟨hx.1, hx.2.1⟩⟩

theorem Linked.removeEdge (h : g.Linked) (u v : NodeId) : (g.removeEdge u v).Linked := by
  rw [linked_iff]
  intro a b
  rw [weight?_removeEdge, h.mem_predecessors_removeEdge, ← linked_iff.1 h a b]
  split
  · rename_i hab
    simp [hab]
  · rename_i hab
    simp [hab]

theorem Linked.foldl_removeEdge (l : List (NodeId × NodeId)) {g : Game} (h : g.Linked) :
    (l.foldl (fun g e => g.removeEdge e.1 e.2) g).Linked := by
  induction l generalizing g with
  | nil => exact h
  | cons e l ih => exact ih (h.removeEdge e.1 e.2)

theorem Linked.clearSuccessors (h : g.Linked) (id : NodeId) : (g.clearSuccessors id).Linked := by
  have hl := Linked.foldl_removeEdge ((g.successors id).map fun v => (id, v)) h
  rwa [List.foldl_map] at hl

/-! ### Removing a node -/

theorem Linked.weight?_removeNode (h : g.Linked) (id a b : NodeId) :
    (g.removeNode id).weight? a b = if a = id ∨ b = id then none else g.weight? a b := by
  cases hn : g.node? id with
  | none =>
    rw [removeNode_of_not_live hn]
    split
    · rename_i hab
      rcases hab with rfl | rfl
      · exact weight?_of_not_live hn b
      · rw [← Option.not_isSome_iff_eq_none]
        intro hs
        obtain ⟨m, hm⟩ := contains_iff.1 (h.contains_of_isSome hs)
        rw [hn] at hm
        cases hm
    · rfl
  | some n =>
    rw [removeNode_of_node? hn, weight?_unlink, weight?_setSlot rfl]
    by_cases ha : a = id
    · simp [ha]
    · by_cases hb : b = id
      · subst hb
        have hp := linked_iff.1 h a b
        rw [predecessors_of_node? hn] at hp
        by_cases hw : (g.weight? a b).isSome
        · simp [hp.1 hw]
        · rw [Option.not_isSome_iff_eq_none] at hw
          simp [hw]
      · simp [ha, hb]

theorem Linked.mem_predecessors_removeNode (h : g.Linked) (id a b : NodeId) :
    a ∈ (g.removeNode id).predecessors b ↔ a ≠ id ∧ b ≠ id ∧ a ∈ g.predecessors b := by
  cases hn : g.node? id with
  | none =>
    rw [removeNode_of_not_live hn]
    constructor
    · intro hab
      have ha : g.contains a = true := h.contains_source hab
      have hb : g.contains b = true := contains_of_mem_predecessors hab
      refine ⟨?_, ?_, hab⟩
      · rintro rfl
        simp [contains, hn] at ha
      · rintro rfl
        simp [contains, hn] at hb
    · exact fun hx => hx.2.2
  | some n =>
    rw [removeNode_of_node? hn, mem_predecessors_unlink, predecessors_setSlot rfl]
    by_cases hb : b = id
    · simp [hb]
    · simp only [hb, if_false, ne_eq, not_false_eq_true, true_and]
      constructor
      · rintro ⟨hab, hne⟩
        refine ⟨?_, hab⟩
        rintro rfl
        rw [← successors_of_node? hn] at hne
        exact hne ⟨rfl, (h a b).2 hab⟩
      · rintro ⟨ha, hab⟩
        exact ⟨hab, fun hx => ha hx.1⟩

theorem Linked.removeNode (h : g.Linked) (id : NodeId) : (g.removeNode id).Linked := by
  rw [linked_iff]
  intro a b
  rw [h.weight?_removeNode, h.mem_predecessors_removeNode, ← linked_iff.1 h a b]
  split
  · rename_i hab
    constructor
    · intro hx
      cases hx
    · rintro ⟨ha, hb, -⟩
      exact absurd hab (not_or.2 ⟨ha, hb⟩)
  · rename_i hab
    rw [not_or] at hab
    exact ⟨fun hx => ⟨hab.1, hab.2, hx⟩, fun hx => hx.2.2⟩

@[simp] theorem capacity_removeNode (g : Game) (id : NodeId) :
    (g.removeNode id).capacity = g.capacity := by
  cases hn : g.node? id with
  | none => rw [removeNode_of_not_live hn]
  | some n => rw [removeNode_of_node? hn, capacity_unlink, capacity_setSlot]

@[simp] theorem bindings_removeNode (g : Game) (id : NodeId) :
    (g.removeNode id).bindings = g.bindings := by
  cases hn : g.node? id with
  | none => rw [removeNode_of_not_live hn]
  | some n => rw [removeNode_of_node? hn, bindings_unlink, bindings_setSlot]

theorem face?_removeNode (g : Game) (id j : NodeId) :
    (g.removeNode id).face? j = if j = id then none else g.face? j := by
  cases hn : g.node? id with
  | none =>
    rw [removeNode_of_not_live hn]
    split
    · rename_i hj
      rw [hj, face?, hn, Option.map_none]
    · rfl
  | some n => rw [removeNode_of_node? hn, face?_unlink, face?_setSlot rfl]

/-- A removed sink leaves its payoff. -/
theorem grave?_removeNode (hn : g.node? id = some n) (j : NodeId) :
    (g.removeNode id).grave? j =
      if j = id then some (.removed (if n.isSink then n.known else none)) else g.grave? j := by
  have hlt : id < g.capacity := lt_capacity_of_node? hn
  rw [removeNode_of_node? hn, grave?_unlink, grave?_setSlot rfl]
  simp [hlt]

end StochasticGame.Game
