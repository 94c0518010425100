import Mathlib.Data.Nat.Count
import StochasticGame.Proofs.Game.Adjacency
import StochasticGame.Proofs.Game.Counts

/-!
# StochasticGame.Proofs.Export.Numbering

**The numbers of nodes in graph files.** The number of a live node is one more than the
number of live nodes with a smaller id. So the numbers keep the order of the arena, two live
nodes never share one, and the nodes that were removed leave no gaps.

Both texts go through the nodes in arena order, and the place at which they meet a node is
its number.
-/

namespace StochasticGame.Game

variable {g : Game} {id : NodeId} {i u : Nat}

/-- The place of an id among the live ones, counted from 1. -/
def rank (g : Game) (id : NodeId) : Nat := Nat.count (fun j => g.contains j = true) id + 1

theorem rank_inj {a b : NodeId} (ha : g.contains a = true) (hb : g.contains b = true)
    (h : g.rank a = g.rank b) : a = b :=
  Nat.count_injective ha hb (Nat.succ_injective h)

theorem nodeIds_eq_filter (g : Game) : g.nodeIds = (List.range g.capacity).filter g.contains := by
  rw [nodeIds, nodes, List.map_filterMap, ← List.filterMap_eq_filter]
  refine List.filterMap_congr fun id _ => ?_
  cases hn : g.node? id with
  | none => simp [Option.guard, contains, hn]
  | some n => simp [Option.guard, contains, hn]

/-- A live node is listed at its place. -/
theorem getElem?_nodeIds_count (h : g.contains id = true) :
    g.nodeIds[Nat.count (fun j => g.contains j = true) id]? = some id := by
  obtain ⟨k, hk⟩ := Nat.exists_eq_add_of_lt (lt_capacity_of_contains h)
  have hsplit : g.nodeIds = (List.range id).filter g.contains ++
      id :: ((List.range k).map fun j => id + 1 + j).filter g.contains := by
    have hrange : List.range g.capacity =
        List.range id ++ id :: (List.range k).map fun j => id + 1 + j := by
      rw [hk, Nat.add_right_comm, List.range_add, List.range_succ, List.append_assoc,
        List.singleton_append]
    rw [nodeIds_eq_filter, hrange, List.filter_append, List.filter_cons_of_pos h]
  have hlength : Nat.count (fun j => g.contains j = true) id =
      ((List.range id).filter g.contains).length := by
    rw [Nat.count, List.countP_eq_length_filter]
    simp only [Bool.decide_eq_true]
  rw [hsplit, hlength, List.getElem?_append_right (Nat.le_refl _), Nat.sub_self]
  rfl

/-- **The order of the arena is the order of the numbers.** -/
theorem getElem?_nodeIds_eq_some_iff :
    g.nodeIds[i]? = some id ↔ g.contains id = true ∧ g.rank id = i + 1 := by
  constructor
  · intro h
    have hlive : g.contains id = true := mem_nodeIds_iff.1 (List.mem_of_getElem? h)
    have hlt : i < g.nodeIds.length := (List.getElem?_eq_some_iff.1 h).1
    have hplace := (List.getElem?_inj hlt g.nodup_nodeIds).1
      (h.trans (getElem?_nodeIds_count hlive).symm)
    exact ⟨hlive, congrArg (· + 1) hplace.symm⟩
  · intro h
    have hi : Nat.count (fun j => g.contains j = true) id = i := Nat.succ_injective h.2
    rw [← hi]
    exact getElem?_nodeIds_count h.1

theorem number?_of_live (h : g.contains id = true) : g.number? id = some (g.rank id) := by
  obtain ⟨k, hk, hget⟩ := number?_of_contains h
  rw [hk, (getElem?_nodeIds_eq_some_iff.1 hget).2]

/-- Looking up the numbers of live nodes loses none of them. -/
theorem filterMap_number? {ids : List NodeId} (h : ∀ id ∈ ids, g.contains id = true) :
    ids.filterMap g.number? = ids.map g.rank := by
  rw [← List.filterMap_eq_map]
  exact List.filterMap_congr fun id hid => number?_of_live (h id hid)

/-- Going through the nodes in arena order counts their numbers. -/
theorem zipIdx_nodes (g : Game) : g.nodes.zipIdx 1 = g.nodes.map fun e => (e, g.rank e.1) := by
  refine List.ext_getElem (by simp) fun i hi hi' => ?_
  have hlt : i < g.nodes.length := by simpa using hi
  have hget : g.nodeIds[i]? = some g.nodes[i].1 := by
    rw [nodeIds, List.getElem?_map, List.getElem?_eq_getElem hlt]
    rfl
  rw [List.getElem_zipIdx, List.getElem_map, (getElem?_nodeIds_eq_some_iff.1 hget).2,
    Nat.add_comm]

end StochasticGame.Game
