import Mathlib.Data.Set.Basic
import StochasticGame.Proofs.Approximation.Table
import StochasticGame.Proofs.Solver.Equations
import StochasticGame.Proofs.Solver.Gap

/-!
# StochasticGame.Proofs.Solver.Trap

**When the equations of a game have one solution.** A trap is a set of nodes that play
need not leave. Two solutions of the equations of a game are equal if they agree where
no operator gives a value and somewhere in every trap.

The solver never writes to a node whose operator gives no value, except for rounding
it. A known value of 0 or 1 survives that.
-/

namespace StochasticGame

/-! ### Traps -/

/-- Play at the node can stay inside a set of nodes: a player has a successor there, and
no branch of positive weight leads out of an average node. -/
def Node.StaysIn (n : Node) (S : Set NodeId) : Prop :=
  match n.label with
  | .sink => False
  | .max | .min => ∃ s ∈ n.successors, s ∈ S
  | .average => ∀ e ∈ n.succs.entries, e.2 ≠ 0 → e.1 ∈ S

/-- A node that clings to a set can stay inside it. -/
theorem Node.Clings.staysIn {n : Node} {f : NodeId → Rat} {x : Rat} {S : Set NodeId}
    (h : n.Clings f x S) (hx : n.Yields f x) : n.StaysIn S := by
  unfold Node.Clings at h
  unfold Node.Yields at hx
  unfold Node.StaysIn
  cases hl : n.label with
  | sink =>
    rw [hl] at h
    exact h
  | max =>
    rw [hl] at h hx
    obtain ⟨⟨s, hs, hsx⟩, -⟩ := hx
    exact ⟨s, hs, h s hs hsx⟩
  | min =>
    rw [hl] at h
    obtain ⟨s, hs, -, hmem⟩ := h
    exact ⟨s, hs, hmem⟩
  | average =>
    rw [hl] at h
    exact h

namespace Game

variable {g : Game} {f u : NodeId → Rat} {id : NodeId}

/-- A set of nodes that play need not leave. -/
structure Trap (g : Game) (S : Set NodeId) : Prop where
  /-- It has a node. -/
  nonempty : S.Nonempty
  /-- Its nodes are live, and play at each can stay inside. -/
  staysIn : ∀ id ∈ S, ∃ n, g.node? id = some n ∧ n.StaysIn S

/-- The operator of a live node never gives a value. -/
def Idle (g : Game) (id : NodeId) : Prop :=
  ∃ n, g.node? id = some n ∧ ∀ v x, ¬ n.Yields v x

/-- A solution does not exceed a supersolution that it meets at idle nodes and
somewhere in every trap. -/
theorem Solves.le_of_traps (hf : g.Solves f) (hu : g.Supersolution u) (hg : g.Linked)
    (hw : g.Substochastic) (hidle : ∀ id, g.Idle id → f id = u id)
    (htrap : ∀ S, g.Trap S → ∃ id ∈ S, f id = u id) (hid : g.contains id = true) :
    f id ≤ u id := by
  by_contra hlt
  obtain ⟨m, hm, hle, hmax⟩ := exists_largest_gap f u hid
  have hc : 0 < f m - u m := by linarith
  -- the nodes with the largest gap are not idle, so they form a trap
  have hgap : g.Trap (g.gapSet f u (f m - u m)) := by
    refine ⟨⟨m, hm, by ring⟩, ?_⟩
    rintro j ⟨hj, hfj⟩
    obtain ⟨n, hn⟩ := contains_iff.1 hj
    obtain ⟨v, x, hx⟩ : ∃ v x, n.Yields v x := by
      by_contra hnone
      have heq := hidle j ⟨n, hn, fun v x hx => hnone ⟨v, x, hx⟩⟩
      linarith
    obtain ⟨y, hy⟩ := hx.exists f
    have hcling := hf.clings_gapSet hg hw hu hc hmax hn hy hfj
    obtain rfl := hf j n hn y hy
    exact ⟨n, hn, hcling.staysIn hy⟩
  obtain ⟨j, ⟨-, hj⟩, heq⟩ := htrap _ hgap
  linarith

/-- **Two solutions that agree at idle nodes and somewhere in every trap are equal.** -/
theorem Solves.eq_of_traps (hf : g.Solves f) (hu : g.Solves u) (hg : g.Linked)
    (hw : g.Substochastic) (hidle : ∀ id, g.Idle id → f id = u id)
    (htrap : ∀ S, g.Trap S → ∃ id ∈ S, f id = u id) (hid : g.contains id = true) :
    f id = u id := by
  apply le_antisymm
  · exact hf.le_of_traps hu.supersolution hg hw hidle htrap hid
  · refine hu.le_of_traps hf.supersolution hg hw (fun j hj => (hidle j hj).symm) ?_ hid
    intro S hS
    obtain ⟨j, hj, heq⟩ := htrap S hS
    exact ⟨j, hj, heq.symm⟩

/-! ### Idle nodes -/

/-- A player without successors is idle. -/
theorem idle_of_no_successor {n : Node} (hn : g.node? id = some n)
    (hl : n.label = .max ∨ n.label = .min) (hs : n.successors = []) : g.Idle id := by
  refine ⟨n, hn, ?_⟩
  intro v x hx
  unfold Node.Yields at hx
  rcases hl with hl | hl <;> simp [hl, hs] at hx

/-- Only players without successors, and sinks without a payoff, are idle. -/
theorem Idle.cases (h : g.Idle id) : ∃ n, g.node? id = some n ∧
    ((n.label = .max ∨ n.label = .min) ∧ n.successors = [] ∨
      n.label = .sink ∧ n.known = none) := by
  obtain ⟨n, hn, hnone⟩ := h
  refine ⟨n, hn, ?_⟩
  cases hl : n.label with
  | sink =>
    right
    refine ⟨rfl, ?_⟩
    cases hk : n.known with
    | none => rfl
    | some k => exact absurd (by simp [Node.Yields, hl, hk]) (hnone (fun _ => 0) k)
  | max =>
    left
    refine ⟨Or.inl rfl, ?_⟩
    rw [List.eq_nil_iff_forall_not_mem]
    intro s hs
    apply hnone (fun _ => 0) 0
    rw [Node.Yields, hl]
    exact ⟨⟨s, hs, rfl⟩, fun _ _ => le_rfl⟩
  | min =>
    left
    refine ⟨Or.inr rfl, ?_⟩
    rw [List.eq_nil_iff_forall_not_mem]
    intro s hs
    apply hnone (fun _ => 0) 0
    rw [Node.Yields, hl]
    exact ⟨⟨s, hs, rfl⟩, fun _ _ => le_rfl⟩
  | average =>
    exact absurd (by simp [Node.Yields, hl]) (hnone (fun _ => 0) (n.weightedSum fun _ => 0))

/-- A solution gives a node that is not idle the value that it has to have. -/
theorem Solves.yields {n : Node} (hf : g.Solves f) (hn : g.node? id = some n)
    (hi : ¬ g.Idle id) : n.Yields f (f id) := by
  obtain ⟨v, x, hx⟩ : ∃ v x, n.Yields v x := by
    by_contra hnone
    exact hi ⟨n, hn, fun v x hx => hnone ⟨v, x, hx⟩⟩
  obtain ⟨y, hy⟩ := hx.exists f
  rwa [hf id n hn y hy]

/-- No operator writes to an idle node. -/
theorem Idle.step?_eq_none (h : g.Idle id) (w : ValueTable) : g.step? w id = none := by
  obtain ⟨n, hn, hnone⟩ := h
  rw [Option.eq_none_iff_forall_not_mem]
  intro x hx
  obtain ⟨n', hn', hy⟩ := step?_eq_some_iff.1 hx
  obtain rfl := Option.some_inj.1 (hn.symm.trans hn')
  exact hnone _ _ hy

/-- So sweeps leave its value alone. -/
theorem Idle.value_swept {it : Iteration} (h : it.game.Idle id) (m : Nat) (w : ValueTable) :
    (it.swept m w).value id = w.value id := by
  refine Iteration.swept_induction (P := fun t => t.value id = w.value id) m rfl ?_
  intro t j x ht hx
  have hne : id ≠ j := by
    intro he
    rw [← he, h.step?_eq_none] at hx
    cases hx
  rw [ValueTable.value_set_of_ne t x hne, ht]

/-- An idle node is reported with its known value, if that is 0 or 1, and with 0 if it
has none. -/
theorem value_of_idle {settings : SolverSettings} {pace : Nat} {sol : Solution} {l : Label}
    {k : Option Rat} (h : g.solve settings pace = .ok sol) (hi : g.Idle id)
    (hf : g.face? id = some (l, k)) (hk : k = none ∨ k = some 0 ∨ k = some 1) :
    sol.values.value id = k.getD 0 := by
  have hc : k.getD 0 = 0 ∨ k.getD 0 = 1 := by rcases hk with rfl | rfl | rfl <;> simp
  obtain ⟨n, hn⟩ : ∃ n, g.node? id = some n := hi.imp fun _ h => h.1
  refine solve_induction (P := fun _ s => s.values.value id = k.getD 0) h ?_ ?_
  · intro stats _
    rw [face?_of_node? hn] at hf
    rw [← (Prod.mk.inj (Option.some_inj.1 hf)).2]
    exact (ValueTable.value_ofGame g id).trans (by rw [hn, Option.bind_some])
  · intro _ ids _ s o w _ hs hends
    -- no operator writes to the node, and rounding leaves 0 and 1 alone
    have hswept : ∀ m, ((g.iteration settings settings.buildApproximant ids).swept m
        s.values).value id = k.getD 0 := fun m => (Idle.value_swept hi m s.values).trans hs
    cases hends with
    | converged m => exact hswept m
    | snapped m =>
      refine Iteration.snap_induction (P := fun w => w.value id = k.getD 0) (hswept m) ?_
      intro w j hw
      rcases ValueTable.value_set_cases w j id (Approximant.nearest ..) with ⟨rfl, heq⟩ | heq
      · rw [heq, hw]
        exact settings.nearest_of_settled _ hc
      · rw [heq, hw]

end Game

end StochasticGame
