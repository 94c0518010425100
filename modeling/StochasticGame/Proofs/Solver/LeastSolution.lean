import Mathlib.Algebra.BigOperators.Pi
import Mathlib.Algebra.Order.BigOperators.Group.Finset
import Mathlib.LinearAlgebra.Pi
import StochasticGame.Proofs.Solver.Least
import StochasticGame.Proofs.Solver.LinearProgram

/-!
# StochasticGame.Proofs.Solver.LeastSolution

**The least solution lies below every valuation that no operator raises.** A table holds
rationals, so a limit of sweeps from above need not be one. Instead, the non-negative
valuations below a given one that no operator raises form a polyhedral set. One with the
least sum of values solves the game: a node that its operator would lower could be lowered
alone, and the sum with it.
-/

namespace StochasticGame

open LinearProgram

/-! ### Conditions on a node -/

namespace Node

/-- When a node does not have to have more than `y`. -/
theorem forall_yields_le_iff {n : Node} {v : NodeId → Rat} {y : Rat} :
    (∀ x, n.Yields v x → x ≤ y) ↔
      match n.label with
      | .sink => ∀ k ∈ n.known.toList, k ≤ y
      | .max => ∀ s ∈ n.successors, v s ≤ y
      | .min => n.successors = [] ∨ ∃ s ∈ n.successors, v s ≤ y
      | .average => n.weightedSum v ≤ y := by
  cases hl : n.label with
  | sink => simp [Yields, hl]
  | max =>
    constructor
    · intro h s hs
      obtain ⟨x, hx⟩ := exists_yields_of_mem (Or.inl hl) hs v
      have hle := h x hx
      rw [Yields, hl] at hx
      exact (hx.2 s hs).trans hle
    · intro h x hx
      rw [Yields, hl] at hx
      obtain ⟨⟨s, hs, rfl⟩, -⟩ := hx
      exact h s hs
  | min =>
    constructor
    · intro h
      cases hs : n.successors with
      | nil => exact Or.inl rfl
      | cons s ss =>
        obtain ⟨x, hx⟩ := exists_yields_of_mem (Or.inr hl) (hs ▸ List.mem_cons_self) v
        have hle := h x hx
        rw [Yields, hl] at hx
        obtain ⟨⟨t, ht, rfl⟩, -⟩ := hx
        exact Or.inr ⟨t, hs ▸ ht, hle⟩
    · intro h x hx
      rw [Yields, hl] at hx
      rcases h with hnil | ⟨s, hs, hle⟩
      · obtain ⟨⟨t, ht, -⟩, -⟩ := hx
        simp [hnil] at ht
      · exact (hx.2 s hs).trans hle
  | average => simp [Yields, hl]

/-- The weighted sum as a linear form of the valuation. -/
def weightedSumForm (n : Node) : (NodeId → Rat) →ₗ[Rat] Rat where
  toFun := n.weightedSum
  map_add' u v := by
    simp only [weightedSum, Pi.add_apply, mul_add, List.sum_map_add]
  map_smul' c v := by
    simp only [weightedSum, Pi.smul_apply, smul_eq_mul, mul_left_comm _ c, List.sum_map_mul_left,
      RingHom.id_apply]

/-- The valuations for which a node does not have to have more than the value of an id. -/
theorem polyhedral_yields_le (n : Node) (id : NodeId) :
    Polyhedral {v : NodeId → Rat | ∀ x, n.Yields v x → x ≤ v id} := by
  have hbelow : ∀ f : (NodeId → Rat) →ₗ[Rat] Rat, Polyhedral {v : NodeId → Rat | f v ≤ v id} :=
    fun f => polyhedral_of_iff (LinearMap.proj id - f) 0 fun v => by simp
  simp only [forall_yields_le_iff]
  cases n.label with
  | sink =>
    exact .forall_mem _ fun k _ => polyhedral_of_iff (LinearMap.proj id) k fun v => by simp
  | max => exact .forall_mem _ fun s _ => hbelow (LinearMap.proj s)
  | min =>
    by_cases hnil : n.successors = []
    · simpa [hnil] using polyhedral_univ
    · simp only [hnil, false_or]
      exact .exists_mem _ fun s _ => hbelow (LinearMap.proj s)
  | average => exact hbelow n.weightedSumForm

end Node

namespace Game

variable {g : Game} {id : NodeId} {u : NodeId → Rat} {w : ValueTable}

theorem polyhedral_supersolution (g : Game) : Polyhedral {v | g.Supersolution v} := by
  have hnodes : {v | g.Supersolution v} =
      {v | ∀ e ∈ g.nodes, ∀ x, e.2.Yields v x → x ≤ v e.1} := by
    ext v
    exact ⟨fun h e he => h e.1 e.2 (mem_nodes.1 he), fun h id n hn => h (id, n) (mem_nodes.2 hn)⟩
  rw [hnodes]
  exact .forall_mem _ fun e _ => e.2.polyhedral_yields_le e.1

/-! ### Lowering a node -/

/-- A node may be lowered to a value that its operator does not raise. -/
theorem Supersolution.update (hu : g.Supersolution u) (hw : g.NonnegWeights) {y : Rat}
    (hle : y ≤ u id)
    (hid : ∀ n, g.node? id = some n → ∀ x, n.Yields (Function.update u id y) x → x ≤ y) :
    g.Supersolution (Function.update u id y) := by
  intro j n hn x hx
  by_cases hj : j = id
  · subst hj
    rw [Function.update_self]
    exact hid n hn x hx
  · rw [Function.update_of_ne hj]
    obtain ⟨x', hx'⟩ := hx.exists u
    have hmono : x ≤ x' :=
      Node.Yields.mono (hw j n hn) (fun s _ => update_le_self_iff.2 hle s) hx hx'
    exact hmono.trans (hu j n hn x' hx')

theorem update_nonneg {j : NodeId} {y : Rat} (hy : 0 ≤ y) (hj : 0 ≤ u j) :
    0 ≤ Function.update u id y j := by
  by_cases hjid : j = id
  · rw [hjid, Function.update_self]
    exact hy
  · rwa [Function.update_of_ne hjid]

/-! ### Solutions -/

/-- The payoffs of sinks are not negative. -/
def NonnegPayoffs (g : Game) : Prop :=
  ∀ id n, g.node? id = some n → n.label = .sink → ∀ k, n.known = some k → 0 ≤ k

/-- A non-negative solution of the equations of a game. -/
structure NonnegSolution (g : Game) (w : ValueTable) : Prop where
  /-- The table is one of the game. -/
  size_eq : w.size = g.capacity
  /-- No live node has a negative value. -/
  nonneg : ∀ id, g.contains id = true → 0 ≤ w.value id
  /-- Every live node has the value that its operator gives. -/
  solves : ∀ id x, g.step? w id = some x → w.value id = x

instance (g : Game) (w : ValueTable) : Decidable (g.NonnegSolution w) :=
  decidable_of_iff (w.size = g.capacity ∧ (∀ id ∈ g.nodeIds, 0 ≤ w.value id) ∧
      g.isFixed g.nodeIds w = true)
    ⟨fun ⟨hsize, hnonneg, hfixed⟩ => ⟨hsize,
        fun id hid => hnonneg id (mem_nodeIds_iff.2 hid), fun id x hx => by
          obtain ⟨n, hn, -⟩ := step?_eq_some_iff.1 hx
          exact fixedAt_iff.1 (isFixed_iff.1 hfixed id (mem_nodeIds.2 ⟨n, hn⟩)) x hx⟩,
      fun hw => ⟨hw.size_eq, fun id hid => hw.nonneg id (mem_nodeIds_iff.1 hid),
        isFixed_iff.2 fun id _ => fixedAt_iff.2 (hw.solves id)⟩⟩

/-- The least non-negative solution of the equations of a game. -/
structure LeastSolution (g : Game) (w : ValueTable) : Prop extends NonnegSolution g w where
  /-- No other one has a smaller value anywhere. -/
  least : ∀ w', g.NonnegSolution w' → ∀ id, g.contains id = true → w.value id ≤ w'.value id

/-- A solution is the least one if it is so at the listed nodes. -/
theorem NonnegSolution.leastSolution (hw : g.NonnegSolution w) {ids : List NodeId}
    (hids : g.nodeIds = ids)
    (hle : ∀ w', g.NonnegSolution w' → ∀ id ∈ ids, w.value id ≤ w'.value id) :
    g.LeastSolution w where
  toNonnegSolution := hw
  least w' hw' id hid := hle w' hw' id (hids ▸ mem_nodeIds_iff.2 hid)

theorem NonnegSolution.fixedAt (hw : g.NonnegSolution w) (id : NodeId) : g.FixedAt w.value id :=
  fixedAt_iff.2 (hw.solves id)

theorem NonnegSolution.supersolution (hw : g.NonnegSolution w) : g.Supersolution w.value :=
  Solves.supersolution hw.fixedAt

theorem NonnegSolution.nonnegPayoffs (hw : g.NonnegSolution w) : g.NonnegPayoffs := by
  intro id n hn hl k hk
  have hyields : n.Yields w.value k := by rwa [Node.Yields, hl]
  rw [← hw.fixedAt id n hn k hyields]
  exact hw.nonneg id (contains_iff.2 ⟨n, hn⟩)

/-! ### The least sum of values -/

/-- The sum of the values of the live nodes as a linear form of the valuation. -/
def totalValue (g : Game) : (NodeId → Rat) →ₗ[Rat] Rat :=
  ∑ id ∈ g.nodeIds.toFinset, LinearMap.proj id

theorem totalValue_apply (g : Game) (v : NodeId → Rat) :
    g.totalValue v = ∑ id ∈ g.nodeIds.toFinset, v id := by
  simp [totalValue]

/-- Lowering a node lowers the sum. -/
theorem totalValue_update_lt {v : NodeId → Rat} {y : Rat} (hid : g.contains id = true)
    (hlt : y < v id) : g.totalValue (Function.update v id y) < g.totalValue v := by
  rw [totalValue_apply, totalValue_apply]
  refine Finset.sum_lt_sum (fun j _ => update_le_self_iff.2 hlt.le j)
    ⟨id, List.mem_toFinset.2 (mem_nodeIds_iff.2 hid), ?_⟩
  rwa [Function.update_self]

/-- The non-negative valuations below a given one that no operator raises. -/
def upperBelow (g : Game) (u : NodeId → Rat) : Set (NodeId → Rat) :=
  {v | g.Supersolution v} ∩ {v | ∀ id ∈ g.nodeIds, 0 ≤ v id ∧ v id ≤ u id}

theorem polyhedral_upperBelow (g : Game) (u : NodeId → Rat) : Polyhedral (g.upperBelow u) := by
  refine (polyhedral_supersolution g).inter (.forall_mem _ fun id _ => ?_)
  have hlow : Polyhedral {v : NodeId → Rat | 0 ≤ v id} :=
    polyhedral_of_iff (LinearMap.proj id) 0 fun v => by simp
  have hhigh : Polyhedral {v : NodeId → Rat | v id ≤ u id} :=
    polyhedral_of_iff (-LinearMap.proj id) (-u id) fun v => by simp
  exact hlow.inter hhigh

/-- A node may be lowered to the value that it has to have. -/
theorem update_mem_upperBelow {v : NodeId → Rat} (hv : v ∈ g.upperBelow u) (hg : g.Linked)
    (hw : g.NonnegWeights) (hpay : g.NonnegPayoffs) {n : Node} (hn : g.node? id = some n) {x : Rat}
    (hx : n.Yields v x) : Function.update v id x ∈ g.upperBelow u := by
  obtain ⟨hsuper, hrange⟩ := hv
  have hle := hsuper id n hn x hx
  have hupdate : ∀ j, Function.update v id x j ≤ v j := update_le_self_iff.2 hle
  have hx0 : 0 ≤ x := hx.nonneg (hw id n hn) (hpay id n hn) fun s hs =>
    (hrange s (mem_nodeIds_iff.2 (hg.contains_successor hn hs))).1
  refine ⟨hsuper.update hw hle ?_, ?_⟩
  · intro m hm y hy
    obtain rfl : n = m := Option.some_inj.1 (hn.symm.trans hm)
    exact Node.Yields.mono (hw id n hn) (fun s _ => hupdate s) hy hx
  · intro j hj
    exact ⟨update_nonneg hx0 (hrange j hj).1, (hupdate j).trans (hrange j hj).2⟩

/-- **Below every non-negative valuation that no operator raises lies a solution**: of all
such valuations, one with the least sum. -/
theorem Supersolution.exists_solves_below (hu : g.Supersolution u) (hg : g.Linked)
    (hw : g.NonnegWeights) (hpay : g.NonnegPayoffs)
    (hnonneg : ∀ id, g.contains id = true → 0 ≤ u id) :
    ∃ v, g.Solves v ∧ ∀ id, g.contains id = true → 0 ≤ v id ∧ v id ≤ u id := by
  have hmem : u ∈ g.upperBelow u :=
    ⟨hu, fun id hid => ⟨hnonneg id (mem_nodeIds_iff.1 hid), le_rfl⟩⟩
  have hbound : ∀ v ∈ g.upperBelow u, 0 ≤ g.totalValue v := by
    intro v hv
    rw [totalValue_apply]
    exact Finset.sum_nonneg fun id hid => (hv.2 id (List.mem_toFinset.1 hid)).1
  obtain ⟨v, hv, hmin⟩ := (g.polyhedral_upperBelow u).exists_minimum g.totalValue ⟨u, hmem⟩ hbound
  refine ⟨v, ?_, fun id hid => hv.2 id (mem_nodeIds_iff.2 hid)⟩
  intro id n hn x hx
  refine le_antisymm (not_lt.1 ?_) (hv.1 id n hn x hx)
  -- otherwise the node could be lowered alone, and the sum with it
  intro hlt
  have hless := totalValue_update_lt (contains_iff.2 ⟨n, hn⟩) hlt
  exact absurd (hmin _ (update_mem_upperBelow hv hg hw hpay hn hx)) (not_le.2 hless)

/-! ### The least solution -/

/-- The table of a game with the values of a valuation. -/
def tabulate (g : Game) (v : NodeId → Rat) : ValueTable := ⟨(Array.range g.capacity).map v⟩

theorem size_tabulate (g : Game) (v : NodeId → Rat) : (g.tabulate v).size = g.capacity := by
  simp [tabulate, ValueTable.size]

theorem value_tabulate (v : NodeId → Rat) (hid : g.contains id = true) :
    (g.tabulate v).value id = v id :=
  ValueTable.value_map_range v (lt_capacity_of_contains hid)

/-- The table of a valuation that solves a game solves it. -/
theorem Solves.nonnegSolution_tabulate {v : NodeId → Rat} (hv : g.Solves v) (hg : g.Linked)
    (hnonneg : ∀ id, g.contains id = true → 0 ≤ v id) : g.NonnegSolution (g.tabulate v) where
  size_eq := size_tabulate g v
  nonneg id hid := by
    rw [value_tabulate v hid]
    exact hnonneg id hid
  solves id x hx := by
    obtain ⟨n, hn, hyields⟩ := step?_eq_some_iff.1 hx
    rw [value_tabulate v (contains_iff.2 ⟨n, hn⟩)]
    refine hv id n hn x ((Node.yields_congr ?_).1 hyields)
    intro s hs
    exact value_tabulate v (hg.contains_successor hn hs)

/-- **The least solution lies below every non-negative valuation that no operator
raises.** -/
theorem LeastSolution.le_of_supersolution (hl : g.LeastSolution w) (hg : g.Linked)
    (hw : g.NonnegWeights) (hu : g.Supersolution u)
    (hnonneg : ∀ id, g.contains id = true → 0 ≤ u id) (hid : g.contains id = true) :
    w.value id ≤ u id := by
  have hpay := hl.toNonnegSolution.nonnegPayoffs
  obtain ⟨v, hv, hrange⟩ := hu.exists_solves_below hg hw hpay hnonneg
  have hle := hl.least _ (hv.nonnegSolution_tabulate hg fun id hid => (hrange id hid).1) id hid
  rw [value_tabulate v hid] at hle
  exact hle.trans (hrange id hid).2

end Game

end StochasticGame
