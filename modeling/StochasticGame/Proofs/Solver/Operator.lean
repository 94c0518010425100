import Mathlib.Algebra.Order.BigOperators.Group.List
import Mathlib.Algebra.Order.Ring.Rat
import StochasticGame.Proofs.Game.Views
import StochasticGame.Solver.Step

/-!
# StochasticGame.Proofs.Solver.Operator

**What the operators mean.** `Node.Yields` says, without a computation, which value a
node has to have when its successors have given values. `Node.step?` computes
exactly that value, so it is a function of the values at the successors.

A valuation is any assignment of rationals to ids, not only one that a table holds.
-/

namespace StochasticGame

/-- The table of a function on the ids below a size. -/
theorem ValueTable.value_map_range (f : NodeId → Rat) {size id : Nat} (hid : id < size) :
    (ValueTable.mk ((Array.range size).map f)).value id = f id := by
  rw [value, get?, Array.getElem?_map, Array.getElem?_eq_getElem (by simpa using hid),
    Array.getElem_range]
  rfl

/-! ### Greatest and least values -/

section Select

variable {r : Rat → Rat → Prop} [DecidableRel r]

/-- Keeping the later of two values that are in order leaves a last value. -/
theorem foldl_select_spec (total : ∀ a b, r a b ∨ r b a) (trans : ∀ {a b c}, r a b → r b c → r a c)
    (xs : List Rat) (x : Rat) :
    xs.foldl (fun a b => if r a b then b else a) x ∈ x :: xs ∧
    ∀ y ∈ x :: xs, r y (xs.foldl (fun a b => if r a b then b else a) x) := by
  have refl : ∀ a, r a a := fun a => (total a a).elim id id
  induction xs generalizing x with
  | nil => simpa using refl x
  | cons y ys ih =>
    rw [List.foldl_cons]
    obtain ⟨hmem, hall⟩ := ih (if r x y then y else x)
    have hlast := hall _ List.mem_cons_self
    by_cases hxy : r x y
    · simp only [if_pos hxy] at hmem hall hlast ⊢
      refine ⟨List.mem_cons_of_mem x hmem, ?_⟩
      intro z hz
      rcases List.mem_cons.1 hz with rfl | hz
      · exact trans hxy hlast
      · exact hall z hz
    · simp only [if_neg hxy] at hmem hall hlast ⊢
      refine ⟨List.cons_subset_cons x (List.subset_cons_self y ys) hmem, ?_⟩
      intro z hz
      rcases List.mem_cons.1 hz with rfl | hz
      · exact hlast
      · rcases List.mem_cons.1 hz with rfl | hz
        · exact trans ((total x z).resolve_left hxy) hlast
        · exact hall z (List.mem_cons_of_mem x hz)

theorem foldl_select_eq_iff (total : ∀ a b, r a b ∨ r b a)
    (trans : ∀ {a b c}, r a b → r b c → r a c) (antisymm : ∀ {a b}, r a b → r b a → a = b)
    {xs : List Rat} {x m : Rat} :
    xs.foldl (fun a b => if r a b then b else a) x = m ↔ m ∈ x :: xs ∧ ∀ y ∈ x :: xs, r y m := by
  obtain ⟨hmem, hall⟩ := foldl_select_spec total trans xs x
  constructor
  · rintro rfl
    exact ⟨hmem, hall⟩
  · rintro ⟨hm, hlast⟩
    exact antisymm (hlast _ hmem) (hall m hm)

end Select

theorem greatest?_eq_some_iff {xs : List Rat} {m : Rat} :
    greatest? xs = some m ↔ m ∈ xs ∧ ∀ y ∈ xs, y ≤ m := by
  cases xs with
  | nil => simp [greatest?]
  | cons x xs =>
    rw [greatest?, Option.some_inj]
    exact foldl_select_eq_iff le_total le_trans le_antisymm

theorem least?_eq_some_iff {xs : List Rat} {m : Rat} :
    least? xs = some m ↔ m ∈ xs ∧ ∀ y ∈ xs, m ≤ y := by
  cases xs with
  | nil => simp [least?]
  | cons x xs =>
    rw [least?, Option.some_inj]
    exact foldl_select_eq_iff (r := fun a b => b ≤ a) (fun a b => le_total b a)
      (fun hab hbc => hbc.trans hab) (fun hab hba => le_antisymm hba hab)

/-! ### The value a node has to have -/

namespace Node

/-- The weighted sum of a valuation over the successors of a node. -/
def weightedSum (n : Node) (v : NodeId → Rat) : Rat :=
  (n.succs.entries.map fun e => e.2 * v e.1).sum

/-- Given the values of its successors, a node has to have value `x`. -/
def Yields (n : Node) (v : NodeId → Rat) (x : Rat) : Prop :=
  match n.label with
  | .sink => n.known = some x
  | .max => (∃ s ∈ n.successors, v s = x) ∧ ∀ s ∈ n.successors, v s ≤ x
  | .min => (∃ s ∈ n.successors, v s = x) ∧ ∀ s ∈ n.successors, x ≤ v s
  | .average => n.weightedSum v = x

theorem expectation_eq (n : Node) (w : ValueTable) : n.expectation w = n.weightedSum w.value := by
  have h : ∀ (es : List (NodeId × Rat)) (acc : Rat),
      es.foldl (fun acc e => acc + e.2 * w.value e.1) acc =
        acc + (es.map fun e => e.2 * w.value e.1).sum := by
    intro es
    induction es with
    | nil => simp
    | cons e es ih => intro acc; rw [List.foldl_cons, ih, List.map_cons, List.sum_cons, add_assoc]
  rw [expectation, h, zero_add, weightedSum]

/-- The operator computes the value that the node has to have. -/
theorem step?_eq_some_iff {n : Node} {w : ValueTable} {x : Rat} :
    n.step? w = some x ↔ n.Yields w.value x := by
  unfold step? Yields
  cases n.label with
  | sink => exact Iff.rfl
  | max => exact greatest?_eq_some_iff.trans (and_congr List.mem_map List.forall_mem_map)
  | min => exact least?_eq_some_iff.trans (and_congr List.mem_map List.forall_mem_map)
  | average => simp only [Option.some_inj, expectation_eq]

theorem mem_successors_of_entry {n : Node} {e : NodeId × Rat} (h : e ∈ n.succs.entries) :
    e.1 ∈ n.successors := List.mem_map_of_mem h

theorem weightedSum_congr {n : Node} {v v' : NodeId → Rat}
    (h : ∀ s ∈ n.successors, v s = v' s) : n.weightedSum v = n.weightedSum v' := by
  unfold weightedSum
  congr 1
  apply List.map_congr_left
  intro e he
  rw [h e.1 (mem_successors_of_entry he)]

theorem weightedSum_nonneg {n : Node} {v : NodeId → Rat} (hn : ∀ e ∈ n.succs.entries, 0 ≤ e.2)
    (hv : ∀ s ∈ n.successors, 0 ≤ v s) : 0 ≤ n.weightedSum v := by
  apply List.sum_nonneg
  intro y hy
  obtain ⟨e, he, rfl⟩ := List.mem_map.1 hy
  exact mul_nonneg (hn e he) (hv e.1 (mem_successors_of_entry he))

/-- Only the values of the successors matter. -/
theorem yields_congr {n : Node} {v v' : NodeId → Rat} {x : Rat}
    (h : ∀ s ∈ n.successors, v s = v' s) : n.Yields v x ↔ n.Yields v' x := by
  have hex : (∃ s ∈ n.successors, v s = x) ↔ ∃ s ∈ n.successors, v' s = x :=
    exists_congr fun s => and_congr_right fun hs => by rw [h s hs]
  unfold Yields
  cases n.label with
  | sink => exact Iff.rfl
  | max => exact and_congr hex (forall₂_congr fun s hs => by rw [h s hs])
  | min => exact and_congr hex (forall₂_congr fun s hs => by rw [h s hs])
  | average => simp only [weightedSum_congr h]

/-- A node has to have at most one value. -/
theorem Yields.unique {n : Node} {v : NodeId → Rat} {x y : Rat} (hx : n.Yields v x)
    (hy : n.Yields v y) : x = y := by
  unfold Yields at hx hy
  cases hl : n.label with
  | sink =>
    rw [hl] at hx hy
    exact Option.some_inj.1 (hx.symm.trans hy)
  | max =>
    rw [hl] at hx hy
    obtain ⟨⟨s, hs, rfl⟩, hx⟩ := hx
    obtain ⟨⟨t, ht, rfl⟩, hy⟩ := hy
    exact le_antisymm (hy s hs) (hx t ht)
  | min =>
    rw [hl] at hx hy
    obtain ⟨⟨s, hs, rfl⟩, hx⟩ := hx
    obtain ⟨⟨t, ht, rfl⟩, hy⟩ := hy
    exact le_antisymm (hx t ht) (hy s hs)
  | average =>
    rw [hl] at hx hy
    exact hx.symm.trans hy

end Node

/-! ### The equations of a game -/

namespace Game

/-- A live node has the value it has to have. -/
def FixedAt (g : Game) (v : NodeId → Rat) (id : NodeId) : Prop :=
  ∀ n, g.node? id = some n → ∀ x, n.Yields v x → v id = x

/-- Every live node has the value it has to have. -/
def Solves (g : Game) (v : NodeId → Rat) : Prop := ∀ id, g.FixedAt v id

theorem step?_eq_some_iff {g : Game} {w : ValueTable} {id : NodeId} {x : Rat} :
    g.step? w id = some x ↔ ∃ n, g.node? id = some n ∧ n.Yields w.value x := by
  rw [step?, Option.bind_eq_some_iff]
  exact exists_congr fun n => and_congr_right fun _ => Node.step?_eq_some_iff

theorem fixedAt_iff {g : Game} {w : ValueTable} {id : NodeId} :
    g.FixedAt w.value id ↔ ∀ x, g.step? w id = some x → w.value id = x := by
  simp only [step?_eq_some_iff]
  exact ⟨fun h x ⟨n, hn, hx⟩ => h n hn x hx, fun h n hn x hx => h x ⟨n, hn, hx⟩⟩

theorem isFixed_iff {g : Game} {ids : List NodeId} {w : ValueTable} :
    g.isFixed ids w = true ↔ ∀ id ∈ ids, g.FixedAt w.value id := by
  simp only [isFixed, List.all_eq_true, Option.all_eq_true, decide_eq_true_eq, fixedAt_iff]
  exact forall₂_congr fun id _ => forall₂_congr fun x _ => eq_comm

/-- Whether a node has its value depends on that value and on those of its
successors. -/
theorem FixedAt.congr {g : Game} {v v' : NodeId → Rat} {id : NodeId} (h : g.FixedAt v id)
    (hid : v' id = v id) (hs : ∀ s ∈ g.successors id, v' s = v s) : g.FixedAt v' id := by
  intro n hn x hx
  rw [hid]
  apply h n hn x
  exact (Node.yields_congr fun s h' => hs s (by rwa [successors_of_node? hn])).1 hx

end Game

end StochasticGame
