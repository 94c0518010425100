import Mathlib.Algebra.Order.BigOperators.Group.List
import Mathlib.Data.Finset.Max
import Mathlib.Data.Rat.Defs
import Mathlib.Tactic.Linarith
import Mathlib.Tactic.Ring
import StochasticGame.Proofs.Game.Linked
import StochasticGame.Proofs.Solver.Operator

/-!
# StochasticGame.Proofs.Solver.Gap

**Where two valuations of a game can differ.** Operators with non-negative weights are
monotone. If a solution exceeds a valuation that no operator raises, the nodes at
which it does so most form a set that the play need not leave: `Node.Clings` says
how a node keeps inside such a set.

This is what decides whether the equations of a game have one solution or several.
-/

namespace StochasticGame

/-! ### Monotone operators -/

namespace Node

variable {n : Node} {u v : NodeId → Rat} {x y : Rat}

/-- The weights of an average node are non-negative and sum to at most 1. -/
structure Substochastic (n : Node) : Prop where
  /-- No weight is negative. -/
  nonneg : ∀ e ∈ n.succs.entries, 0 ≤ e.2
  /-- The weights sum to at most 1. -/
  sum_le : (n.succs.entries.map Prod.snd).sum ≤ 1

theorem weightedSum_mono (hn : ∀ e ∈ n.succs.entries, 0 ≤ e.2)
    (h : ∀ s ∈ n.successors, v s ≤ u s) : n.weightedSum v ≤ n.weightedSum u :=
  List.sum_le_sum fun e he =>
    mul_le_mul_of_nonneg_left (h e.1 (mem_successors_of_entry he)) (hn e he)

theorem weightedSum_sub (n : Node) (v u : NodeId → Rat) :
    n.weightedSum (fun s => v s - u s) = n.weightedSum v - n.weightedSum u := by
  unfold weightedSum
  induction n.succs.entries with
  | nil => simp
  | cons e es ih =>
    simp only [List.map_cons, List.sum_cons, ih]
    ring

theorem weightedSum_const (n : Node) (c : Rat) :
    n.weightedSum (fun _ => c) = (n.succs.entries.map Prod.snd).sum * c := by
  unfold weightedSum
  induction n.succs.entries with
  | nil => simp
  | cons e es ih =>
    simp only [List.map_cons, List.sum_cons, ih]
    ring

/-- A weighted sum that is at least the greatest value takes only greatest values
into account. -/
theorem Substochastic.eq_of_le_weightedSum (hn : n.Substochastic) {d : NodeId → Rat} {c : Rat}
    (hc : 0 ≤ c) (hd : ∀ s ∈ n.successors, d s ≤ c) (hle : c ≤ n.weightedSum d)
    {e : NodeId × Rat} (he : e ∈ n.succs.entries) (hne : e.2 ≠ 0) : d e.1 = c := by
  have hnonneg : ∀ x ∈ n.succs.entries.map (fun e => e.2 * (c - d e.1)), 0 ≤ x := by
    intro x hx
    obtain ⟨e, he, rfl⟩ := List.mem_map.1 hx
    exact mul_nonneg (hn.nonneg e he) (sub_nonneg.2 (hd e.1 (mem_successors_of_entry he)))
  have hsum : n.weightedSum (fun s => c - d s) = 0 := by
    apply le_antisymm
    · have h := mul_le_mul_of_nonneg_right hn.sum_le hc
      rw [weightedSum_sub n (fun _ => c) d, weightedSum_const]
      linarith
    · exact List.sum_nonneg hnonneg
  have hzero := List.all_zero_of_le_zero_le_of_sum_eq_zero hnonneg hsum
    (List.mem_map_of_mem (f := fun e => e.2 * (c - d e.1)) he)
  rcases mul_eq_zero.1 hzero with h | h
  · exact absurd h hne
  · linarith

/-- Whether a node has to have a value does not depend on the valuation. -/
theorem Yields.exists (h : n.Yields v x) (u : NodeId → Rat) : ∃ y, n.Yields u y := by
  have hmem : n.label = .max ∨ n.label = .min → n.successors ≠ [] := by
    rintro (hl | hl) hnil <;> simp [Yields, hl, hnil] at h
  unfold Yields at h ⊢
  cases hl : n.label with
  | sink =>
    rw [hl] at h
    exact ⟨x, h⟩
  | max =>
    obtain ⟨m, hm⟩ : ∃ m, greatest? (n.successors.map u) = some m := by
      cases hs : n.successors with
      | nil => exact absurd hs (hmem (Or.inl hl))
      | cons s ss => exact ⟨_, rfl⟩
    obtain ⟨hin, hub⟩ := greatest?_eq_some_iff.1 hm
    exact ⟨m, List.mem_map.1 hin, List.forall_mem_map.1 hub⟩
  | min =>
    obtain ⟨m, hm⟩ : ∃ m, least? (n.successors.map u) = some m := by
      cases hs : n.successors with
      | nil => exact absurd hs (hmem (Or.inr hl))
      | cons s ss => exact ⟨_, rfl⟩
    obtain ⟨hin, hlb⟩ := least?_eq_some_iff.1 hm
    exact ⟨m, List.mem_map.1 hin, List.forall_mem_map.1 hlb⟩
  | average => exact ⟨_, rfl⟩

/-- A player with a move has to have some value. -/
theorem exists_yields_of_mem (hl : n.label = .max ∨ n.label = .min) {s : NodeId}
    (hs : s ∈ n.successors) (v : NodeId → Rat) : ∃ x, n.Yields v x := by
  have hzero : n.Yields (fun _ => 0) 0 := by
    rcases hl with hl | hl <;> simpa [Yields, hl] using ⟨s, hs⟩
  exact hzero.exists v

/-- Non-negative weights and payoffs make no value negative. -/
theorem Yields.nonneg (hn : n.label = .average → ∀ e ∈ n.succs.entries, 0 ≤ e.2)
    (hk : n.label = .sink → ∀ k, n.known = some k → 0 ≤ k) (hv : ∀ s ∈ n.successors, 0 ≤ v s)
    (hx : n.Yields v x) : 0 ≤ x := by
  unfold Yields at hx
  cases hl : n.label with
  | sink =>
    rw [hl] at hx
    exact hk hl x hx
  | max =>
    rw [hl] at hx
    obtain ⟨⟨s, hs, rfl⟩, -⟩ := hx
    exact hv s hs
  | min =>
    rw [hl] at hx
    obtain ⟨⟨s, hs, rfl⟩, -⟩ := hx
    exact hv s hs
  | average =>
    rw [hl] at hx
    subst hx
    exact weightedSum_nonneg (hn hl) hv

/-- Operators with non-negative weights are monotone. -/
theorem Yields.mono (hn : n.label = .average → ∀ e ∈ n.succs.entries, 0 ≤ e.2)
    (h : ∀ s ∈ n.successors, v s ≤ u s) (hx : n.Yields v x) (hy : n.Yields u y) : x ≤ y := by
  unfold Yields at hx hy
  cases hl : n.label with
  | sink =>
    rw [hl] at hx hy
    exact (Option.some_inj.1 (hx.symm.trans hy)).le
  | max =>
    rw [hl] at hx hy
    obtain ⟨⟨s, hs, rfl⟩, -⟩ := hx
    exact (h s hs).trans (hy.2 s hs)
  | min =>
    rw [hl] at hx hy
    obtain ⟨⟨s, hs, rfl⟩, -⟩ := hy
    exact (hx.2 s hs).trans (h s hs)
  | average =>
    rw [hl] at hx hy
    subst hx hy
    exact weightedSum_mono (hn hl) h

/-- A node that has to have at most `a` under one valuation and at most `b` under another
has to have at most the smaller of the two under the smaller values. -/
theorem Yields.le_min (hn : n.label = .average → ∀ e ∈ n.succs.entries, 0 ≤ e.2)
    (hx : n.Yields (fun s => min (u s) (v s)) x) {a b : Rat} (hu : ∀ y, n.Yields u y → y ≤ a)
    (hv : ∀ y, n.Yields v y → y ≤ b) : x ≤ min a b := by
  obtain ⟨y, hy⟩ := hx.exists u
  obtain ⟨z, hz⟩ := hx.exists v
  have hxy : x ≤ y := Yields.mono hn (fun s _ => min_le_left _ _) hx hy
  have hxz : x ≤ z := Yields.mono hn (fun s _ => min_le_right _ _) hx hz
  exact le_inf (hxy.trans (hu y hy)) (hxz.trans (hv z hz))

/-- How a node of value `x` keeps inside a set of nodes. A maximizing node has no
successor of its value outside, a minimizing one has some successor of its value
inside, and no branch of positive weight leads out of an average node. -/
def Clings (n : Node) (f : NodeId → Rat) (x : Rat) (S : Set NodeId) : Prop :=
  match n.label with
  | .sink => False
  | .max => ∀ s ∈ n.successors, f s = x → s ∈ S
  | .min => ∃ s ∈ n.successors, f s = x ∧ s ∈ S
  | .average => ∀ e ∈ n.succs.entries, e.2 ≠ 0 → e.1 ∈ S

end Node

/-! ### The largest gap -/

namespace Game

variable {g : Game}

/-- The weights of every average node are non-negative and sum to at most 1. -/
def Substochastic (g : Game) : Prop :=
  ∀ id n, g.node? id = some n → n.label = .average → n.Substochastic

/-- No operator raises the valuation. -/
def Supersolution (g : Game) (u : NodeId → Rat) : Prop :=
  ∀ id n, g.node? id = some n → ∀ x, n.Yields u x → x ≤ u id

theorem Solves.supersolution {f : NodeId → Rat} (hf : g.Solves f) : g.Supersolution f :=
  fun id n hn x hx => (hf id n hn x hx).ge

/-- The live nodes at which `f` exceeds `u` by `c`. -/
def gapSet (g : Game) (f u : NodeId → Rat) (c : Rat) : Set NodeId :=
  {id | g.contains id = true ∧ f id = u id + c}

/-- If a solution exceeds a supersolution, the nodes at which it does so most cling
to each other. -/
theorem Solves.clings_gapSet {f u : NodeId → Rat} {c : Rat} (hf : g.Solves f) (hg : g.Linked)
    (hw : g.Substochastic) (hu : g.Supersolution u) (hc : 0 < c)
    (hmax : ∀ id, g.contains id = true → f id ≤ u id + c) {id : NodeId} {n : Node} {x : Rat}
    (hn : g.node? id = some n) (hx : n.Yields f x) (hid : f id = u id + c) :
    n.Clings f (f id) (g.gapSet f u c) := by
  obtain rfl := hf id n hn x hx
  obtain ⟨y, hy⟩ := hx.exists u
  have hyu := hu id n hn y hy
  have hsucc : ∀ s ∈ n.successors, g.contains s = true ∧ f s ≤ u s + c := fun s hs =>
    ⟨hg.contains_successor hn hs, hmax s (hg.contains_successor hn hs)⟩
  have hin : ∀ s ∈ n.successors, u s + c ≤ f s → s ∈ g.gapSet f u c := fun s hs hle =>
    ⟨(hsucc s hs).1, le_antisymm (hsucc s hs).2 hle⟩
  unfold Node.Clings
  unfold Node.Yields at hx hy
  cases hl : n.label with
  | sink =>
    rw [hl] at hx hy
    have hxy := Option.some_inj.1 (hx.symm.trans hy)
    linarith
  | max =>
    -- an optimal successor has the same value, and `u` is no larger there
    rw [hl] at hx hy
    intro s hs he
    have hsu := hy.2 s hs
    exact hin s hs (by linarith)
  | min =>
    rw [hl] at hx hy
    -- the successor that is optimal under `u`
    obtain ⟨⟨s, hs, rfl⟩, -⟩ := hy
    have hge := hx.2 s hs
    have hle := (hsucc s hs).2
    exact ⟨s, hs, by linarith, hin s hs (by linarith)⟩
  | average =>
    rw [hl] at hx hy
    -- the mean gap is the largest one, so every branch that counts has it
    intro e he hne
    have hd : ∀ s ∈ n.successors, f s - u s ≤ c := fun s hs => by linarith [(hsucc s hs).2]
    have hsum : c ≤ n.weightedSum fun s => f s - u s := by
      rw [Node.weightedSum_sub, hx, hy]
      linarith
    have heq := (hw id n hn hl).eq_of_le_weightedSum hc.le hd hsum he hne
    exact hin e.1 (Node.mem_successors_of_entry he) (by linarith)

/-- Two valuations of a game with a live node have a largest gap. -/
theorem exists_largest_gap (f u : NodeId → Rat) {id : NodeId} (hid : g.contains id = true) :
    ∃ m, g.contains m = true ∧ f id - u id ≤ f m - u m ∧
      ∀ j, g.contains j = true → f j ≤ u j + (f m - u m) := by
  have hmem : ∀ j, j ∈ g.nodeIds.toFinset ↔ g.contains j = true := fun j => by
    rw [List.mem_toFinset, mem_nodeIds, contains_iff]
  obtain ⟨m, hm, hmax⟩ := g.nodeIds.toFinset.exists_max_image (fun j => f j - u j)
    ⟨id, (hmem id).2 hid⟩
  refine ⟨m, (hmem m).1 hm, hmax id ((hmem id).2 hid), ?_⟩
  intro j hj
  linarith [hmax j ((hmem j).2 hj)]

end Game

end StochasticGame
