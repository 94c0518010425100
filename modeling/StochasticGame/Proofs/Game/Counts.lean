import Mathlib.Data.List.Perm.Subperm
import StochasticGame.Proofs.Plan.Schedule

/-!
# StochasticGame.Proofs.Game.Counts

**Counting nodes and edges.** The live nodes of a game are listed once each, and so are
its edges. So counts are compared by comparing what is live and what leads where, and no
proof about a count has to look at a list.
-/

namespace StochasticGame.Game

variable {g h : Game} {id a b : NodeId}

/-! ### Nodes -/

theorem nodeCount_eq (g : Game) : g.nodeCount = g.nodeIds.length :=
  (List.length_map Prod.fst).symm

/-- A game all of whose nodes are live in another one has no more of them. -/
theorem nodeCount_le (hsub : ∀ id, h.contains id = true → g.contains id = true) :
    h.nodeCount ≤ g.nodeCount := by
  rw [nodeCount_eq, nodeCount_eq]
  refine (List.subperm_of_subset h.nodup_nodeIds ?_).length_le
  intro id hid
  exact mem_nodeIds_iff.2 (hsub id (mem_nodeIds_iff.1 hid))

/-- A game that lacks listed nodes of another one, and no others, has so many nodes less. -/
theorem nodeCount_add_length {l : List NodeId} (hl : l.Nodup)
    (hlive : ∀ id ∈ l, g.contains id = true)
    (hiff : ∀ j, h.contains j = true ↔ j ∉ l ∧ g.contains j = true) :
    h.nodeCount + l.length = g.nodeCount := by
  have hperm : (h.nodeIds ++ l).Perm g.nodeIds := by
    have hnodup : (h.nodeIds ++ l).Nodup := by
      refine h.nodup_nodeIds.append hl ?_
      intro id hid hmem
      exact ((hiff id).1 (mem_nodeIds_iff.1 hid)).1 hmem
    rw [List.perm_ext_iff_of_nodup hnodup g.nodup_nodeIds]
    intro j
    rw [List.mem_append, mem_nodeIds_iff, mem_nodeIds_iff, hiff]
    by_cases hj : j ∈ l
    · simp [hj, hlive j hj]
    · simp [hj]
  rw [nodeCount_eq, nodeCount_eq, ← hperm.length_eq, List.length_append]

/-- Games with the same live nodes have as many of them. -/
theorem nodeCount_congr (hsame : ∀ id, h.contains id = g.contains id) :
    h.nodeCount = g.nodeCount :=
  le_antisymm (nodeCount_le fun id hid => hsame id ▸ hid)
    (nodeCount_le fun id hid => (hsame id).symm ▸ hid)

/-! ### Edges -/

theorem mem_edges : (a, b) ∈ g.digraph.edges ↔ b ∈ g.successors a := by
  simp only [Digraph.edges, digraph, List.mem_flatMap, List.mem_map, Prod.mk.injEq]
  constructor
  · rintro ⟨u, -, v, hv, rfl, rfl⟩
    exact hv
  · intro hb
    exact ⟨a, mem_nodeIds_iff.2 (contains_of_mem_successors hb), b, hb, rfl, rfl⟩

theorem nodup_successors (g : Game) (id : NodeId) : (g.successors id).Nodup := by
  unfold successors
  split
  · exact OrdMap.keys_nodup _
  · exact List.nodup_nil

/-- No edge is listed twice. -/
theorem nodup_edges (g : Game) : g.digraph.edges.Nodup := by
  refine List.nodup_flatMap.2 ⟨?_, ?_⟩
  · intro u _
    exact (g.nodup_successors u).map fun _ _ he => congrArg Prod.snd he
  · refine g.nodup_nodeIds.imp ?_
    intro u v huv e hu hv
    obtain ⟨_, -, rfl⟩ := List.mem_map.1 hu
    obtain ⟨_, -, he⟩ := List.mem_map.1 hv
    exact huv (congrArg Prod.fst he).symm

theorem edgeCount_eq (g : Game) : g.edgeCount = g.digraph.edges.length := by
  have hdegree : ∀ e ∈ g.nodes, e.2.outDegree = (g.successors e.1).length := by
    intro e he
    rw [successors_of_node? (mem_nodes.1 he), Node.successors, OrdMap.length_keys]
    rfl
  rw [edgeCount, Digraph.edges, List.length_flatMap, List.sum, List.map_congr_left hdegree]
  simp [digraph, nodeIds, Function.comp_def]

/-- A game has no more edges than another one if each of its edges is made from an edge of
that one. -/
theorem edgeCount_le_of_image (f : NodeId × NodeId → NodeId × NodeId)
    (hsub : ∀ a b, b ∈ h.successors a → ∃ u v, v ∈ g.successors u ∧ f (u, v) = (a, b)) :
    h.edgeCount ≤ g.edgeCount := by
  have hsubset : h.digraph.edges ⊆ g.digraph.edges.map f := by
    rintro ⟨a, b⟩ hab
    obtain ⟨u, v, huv, he⟩ := hsub a b (mem_edges.1 hab)
    exact List.mem_map.2 ⟨(u, v), mem_edges.2 huv, he⟩
  rw [edgeCount_eq, edgeCount_eq]
  calc h.digraph.edges.length
      ≤ (g.digraph.edges.map f).length := (List.subperm_of_subset h.nodup_edges hsubset).length_le
    _ = g.digraph.edges.length := List.length_map f

/-- A game all of whose edges are edges of another one has no more of them. -/
theorem edgeCount_le (hsub : ∀ a b, b ∈ h.successors a → b ∈ g.successors a) :
    h.edgeCount ≤ g.edgeCount :=
  edgeCount_le_of_image id fun a b hab => ⟨a, b, hsub a b hab, rfl⟩

/-- A game that lacks listed edges of another one, and no others, has so many edges less. -/
theorem edgeCount_add_length {l : List (NodeId × NodeId)} (hl : l.Nodup)
    (hmem : ∀ e ∈ l, e.2 ∈ g.successors e.1)
    (hiff : ∀ a b, b ∈ h.successors a ↔ (a, b) ∉ l ∧ b ∈ g.successors a) :
    h.edgeCount + l.length = g.edgeCount := by
  have hperm : (h.digraph.edges ++ l).Perm g.digraph.edges := by
    have hnodup : (h.digraph.edges ++ l).Nodup := by
      refine h.nodup_edges.append hl ?_
      rintro ⟨a, b⟩ hab hlisted
      exact ((hiff a b).1 (mem_edges.1 hab)).1 hlisted
    rw [List.perm_ext_iff_of_nodup hnodup g.nodup_edges]
    rintro ⟨a, b⟩
    rw [List.mem_append, mem_edges, mem_edges, hiff]
    by_cases hab : (a, b) ∈ l
    · simp [hab, hmem _ hab]
    · simp [hab]
  rw [edgeCount_eq, edgeCount_eq, ← hperm.length_eq, List.length_append]

end StochasticGame.Game
