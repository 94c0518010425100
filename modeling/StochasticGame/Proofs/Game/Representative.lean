import Mathlib.Data.Finset.Card
import Mathlib.Data.Finset.Range
import Mathlib.Data.List.Nodup
import StochasticGame.Proofs.Game.Contract

/-!
# StochasticGame.Proofs.Game.Representative

**Who stands for whom.** `Stands g id r` says that the merges of a game lead from an id
to `r`, which was not merged itself. Such a chain visits no slot twice, so it is
shorter than the arena and `Game.representative?` follows it to its end.

Merging `drop` into `keep` makes `keep` stand for what `drop` stood for, and changes
nothing else; removing a node changes nothing at all.
-/

namespace StochasticGame.Game

variable {g g' : Game} {id r keep drop : NodeId}

/-- A number of merges leads from an id to one that was not merged. -/
inductive StandsIn (g : Game) : Nat → NodeId → NodeId → Prop where
  /-- An id of the arena that was not merged stands for itself. -/
  | root {id : NodeId} (hlt : id < g.capacity) (h : ∀ into, g.grave? id ≠ some (.merged into)) :
    StandsIn g 0 id id
  /-- Who stands for the target of a merge stands for the merged id. -/
  | merged {id into r : NodeId} {k : Nat} (h : g.grave? id = some (.merged into))
    (hr : StandsIn g k into r) : StandsIn g (k + 1) id r

/-- The merges of a game lead from an id to one that was not merged. -/
def Stands (g : Game) (id r : NodeId) : Prop := ∃ k, g.StandsIn k id r

theorem slot_eq_merged_iff {into : NodeId} :
    g.slots[id]? = some (.merged into) ↔ g.grave? id = some (.merged into) := by
  rw [grave?, Option.filter_eq_some_iff]
  simp

theorem lt_capacity_of_grave? {s : Slot} (h : g.grave? id = some s) : id < g.capacity := by
  rw [grave?, Option.filter_eq_some_iff] at h
  exact (Array.getElem?_eq_some_iff.1 h.1).1

theorem follow_of_merged {into : NodeId} (h : g.grave? id = some (.merged into)) (n : Nat) :
    g.follow (n + 1) id = g.follow n into := by
  rw [follow, slot_eq_merged_iff.2 h]

theorem follow_of_root (h : ∀ into, g.grave? id ≠ some (.merged into)) (n : Nat) :
    g.follow n id = id := by
  cases n with
  | zero => rfl
  | succ n =>
    rw [follow]
    split
    · rename_i into hs
      exact absurd (slot_eq_merged_iff.1 hs) (h into)
    · rfl

namespace StandsIn

variable {k : Nat}

theorem unique {k' : Nat} {r' : NodeId} (h : g.StandsIn k id r) (h' : g.StandsIn k' id r') :
    k = k' ∧ r = r' := by
  induction h generalizing k' with
  | root _ hroot =>
    cases h' with
    | root => exact ⟨rfl, rfl⟩
    | merged hm => exact absurd hm (hroot _)
  | merged hm _ ih =>
    cases h' with
    | root _ hroot => exact absurd hm (hroot _)
    | merged hm' hr' =>
      obtain rfl : _ = _ := by simpa using hm.symm.trans hm'
      obtain ⟨rfl, rfl⟩ := ih hr'
      exact ⟨rfl, rfl⟩

theorem follow (h : g.StandsIn k id r) {n : Nat} (hn : k ≤ n) : g.follow n id = r := by
  induction h generalizing n with
  | root _ hroot => exact follow_of_root hroot n
  | merged hm _ ih =>
    obtain ⟨n, rfl⟩ := Nat.exists_eq_add_of_le' (Nat.lt_of_lt_of_le (Nat.succ_pos _) hn)
    rw [follow_of_merged hm]
    exact ih (Nat.le_of_succ_le_succ hn)

/-- The merged ids on the way are distinct and lie in the arena. -/
theorem exists_path (h : g.StandsIn k id r) :
    ∃ path : List NodeId, path.length = k ∧ path.Nodup ∧
      ∀ x ∈ path, x < g.capacity ∧ ∃ j, 0 < j ∧ j ≤ k ∧ g.StandsIn j x r := by
  induction h with
  | root => exact ⟨[], rfl, List.nodup_nil, by simp⟩
  | @merged id into r k hm hr ih =>
    obtain ⟨path, hlen, hnodup, hall⟩ := ih
    refine ⟨id :: path, by rw [List.length_cons, hlen], List.nodup_cons.2 ⟨?_, hnodup⟩, ?_⟩
    · -- an id met again would have two distances to the end
      intro hid
      obtain ⟨-, j, -, hj, hs⟩ := hall id hid
      have := (hs.unique (.merged hm hr)).1
      omega
    · intro x hx
      rcases List.mem_cons.1 hx with rfl | hx
      · exact ⟨lt_capacity_of_grave? hm, k + 1, Nat.succ_pos k, le_rfl, .merged hm hr⟩
      · obtain ⟨hlt, j, hpos, hj, hs⟩ := hall x hx
        exact ⟨hlt, j, hpos, Nat.le_succ_of_le hj, hs⟩

theorem le_capacity (h : g.StandsIn k id r) : k ≤ g.capacity := by
  obtain ⟨path, rfl, hnodup, hall⟩ := h.exists_path
  have hsub : path.toFinset ⊆ Finset.range g.capacity := by
    intro x hx
    exact Finset.mem_range.2 (hall x (List.mem_toFinset.1 hx)).1
  have hcard := Finset.card_le_card hsub
  rwa [List.toFinset_card_of_nodup hnodup, Finset.card_range] at hcard

theorem lt_capacity (h : g.StandsIn k id r) : id < g.capacity := by
  cases h with
  | root hlt => exact hlt
  | merged hm => exact lt_capacity_of_grave? hm

theorem isRoot (h : g.StandsIn k id r) : r < g.capacity ∧
    ∀ into, g.grave? r ≠ some (.merged into) := by
  induction h with
  | root hlt hroot => exact ⟨hlt, hroot⟩
  | merged _ _ ih => exact ih

end StandsIn

namespace Stands

/-- The function finds who stands for an id. -/
theorem representative? (h : g.Stands id r) : g.representative? id = some r := by
  obtain ⟨k, hk⟩ := h
  rw [Game.representative?, if_pos hk.lt_capacity, hk.follow hk.le_capacity]

/-- What the function finds stands for the id, if it lies in the arena and was not merged. -/
theorem of_representative? (h : g.representative? id = some r) (hlt : r < g.capacity)
    (hroot : ∀ into, g.grave? r ≠ some (.merged into)) : g.Stands id r := by
  have hfollow : ∀ n id, g.follow n id = r → g.Stands id r := by
    intro n
    induction n with
    | zero =>
      intro id he
      obtain rfl : id = r := he
      exact ⟨0, .root hlt hroot⟩
    | succ n ih =>
      intro id he
      by_cases hm : ∃ into, g.grave? id = some (.merged into)
      · obtain ⟨into, hm⟩ := hm
        rw [follow_of_merged hm] at he
        obtain ⟨k, hk⟩ := ih into he
        exact ⟨k + 1, .merged hm hk⟩
      · rw [follow_of_root (not_exists.1 hm)] at he
        subst he
        exact ⟨0, .root hlt hroot⟩
  rw [Game.representative?] at h
  split at h
  · exact hfollow _ _ (Option.some_inj.1 h)
  · cases h

theorem unique {r' : NodeId} (h : g.Stands id r) (h' : g.Stands id r') : r = r' := by
  obtain ⟨k, hk⟩ := h
  obtain ⟨k', hk'⟩ := h'
  exact (hk.unique hk').2

theorem of_contains (h : g.contains id = true) : g.Stands id id :=
  ⟨0, .root (lt_capacity_of_contains h) (by simp [grave?_of_contains h])⟩

/-- Whoever stands for an id stands for itself. -/
theorem self (h : g.Stands id r) : g.Stands r r := by
  obtain ⟨k, hk⟩ := h
  exact ⟨0, .root hk.isRoot.1 hk.isRoot.2⟩

/-- Only merges matter. -/
theorem of_merges (hc : g.capacity ≤ g'.capacity)
    (hm : ∀ j into, g'.grave? j = some (.merged into) ↔ g.grave? j = some (.merged into))
    (h : g.Stands id r) : g'.Stands id r := by
  obtain ⟨k, hk⟩ := h
  refine ⟨k, ?_⟩
  induction hk with
  | root hlt hroot => exact .root (hlt.trans_le hc) fun into h => hroot into ((hm _ _).1 h)
  | merged hmerge _ ih => exact .merged ((hm _ _).2 hmerge) ih

/-- A new node changes nothing for the others. -/
theorem addNode (h : g.Stands id r) (label : Label) : (g.addNode label).2.Stands id r := by
  refine h.of_merges ?_ fun j into => by rw [grave?_addNode]
  rw [capacity_addNode]
  exact Nat.le_succ g.capacity

/-- Removing a node leaves everyone standing. -/
theorem removeNode (h : g.Stands id r) (j : NodeId) : (g.removeNode j).Stands id r := by
  refine h.of_merges (capacity_removeNode g j).ge ?_
  intro i into
  cases hn : g.node? j with
  | none => rw [removeNode_of_not_live hn]
  | some n =>
    rw [grave?_removeNode hn]
    split
    · rename_i hij
      rw [hij, grave?_of_contains (contains_iff.2 ⟨n, hn⟩)]
      simp
    · rfl

/-- After a merge the kept node stands for what the dropped one stood for. -/
theorem contract (h : g.Stands id r) (hkd : keep ≠ drop) (hk : g.contains keep = true)
    (hd : g.contains drop = true) :
    (g.contract keep drop).Stands id (if r = drop then keep else r) := by
  have hkeep : (g.contract keep drop).Stands keep keep := by
    apply of_contains
    rw [contains_contract_of_ne hkd hk hd hkd, hk]
  obtain ⟨k, hk'⟩ := h
  induction hk' with
  | @root id hlt hroot =>
    split
    · rename_i hid
      obtain ⟨k, hs⟩ := hkeep
      exact ⟨k + 1, .merged (by rw [hid, grave?_contract hkd hk hd, if_pos rfl]) hs⟩
    · rename_i hid
      refine ⟨0, .root (by rwa [capacity_contract]) ?_⟩
      intro into
      rw [grave?_contract hkd hk hd, if_neg hid]
      exact hroot into
  | @merged id into r k hm _ ih =>
    obtain ⟨k', hs⟩ := ih
    refine ⟨k' + 1, .merged ?_ hs⟩
    have hne : id ≠ drop := by
      rintro rfl
      rw [grave?_of_contains hd] at hm
      exact absurd hm (by simp)
    rw [grave?_contract hkd hk hd, if_neg hne]
    exact hm

end Stands

end StochasticGame.Game
