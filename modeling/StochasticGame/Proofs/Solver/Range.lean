import Mathlib.Order.Interval.Set.Basic
import StochasticGame.Proofs.Approximation.Table
import StochasticGame.Proofs.Plan.Connected
import StochasticGame.Proofs.Solver.Equations
import StochasticGame.Proofs.Solver.Gap

/-!
# StochasticGame.Proofs.Solver.Range

**When reported values are probabilities.** Operators of a fair game take values of the
unit interval to values of the unit interval, and a snapshot rounds into it. What can
spoil this is the table that a run starts from: an average node may start above 1.

If such a node is on no cycle, it is a component of its own, and by the time it is
solved all that it reads is in range; its start is overwritten before any other node
reads it (`Fair.mem_unit_of_solve`). On a cycle the other nodes read the start, and
may settle on it.
-/

namespace StochasticGame

/-! ### Fair nodes -/

/-- A node whose operator stays in the unit interval: the weights of an average node are
a distribution. Nothing is known to be negative, and only at an average node something
may be known to be above 1. -/
structure Node.Fair (n : Node) : Prop where
  /-- No weight of an average node is negative. -/
  nonneg : n.label = .average → ∀ e ∈ n.succs.entries, 0 ≤ e.2
  /-- The weights of an average node sum to 1. -/
  sum_eq : n.label = .average → (n.succs.entries.map Prod.snd).sum = 1
  /-- No known value is negative. -/
  known_nonneg : ∀ x, n.known = some x → 0 ≤ x
  /-- A known value above 1 is that of an average node. -/
  known_le : n.label ≠ .average → ∀ x, n.known = some x → x ≤ 1

/-- Distributions and payoffs of the unit interval keep values in it. -/
theorem Node.Yields.mem_unit {n : Node} {v : NodeId → Rat} {x : Rat} (hx : n.Yields v x)
    (hnonneg : n.label = .average → ∀ e ∈ n.succs.entries, 0 ≤ e.2)
    (hsum : n.label = .average → (n.succs.entries.map Prod.snd).sum = 1)
    (hpay : n.label = .sink → ∀ x, n.known = some x → x ∈ Set.Icc (0 : Rat) 1)
    (hv : ∀ s ∈ n.successors, v s ∈ Set.Icc (0 : Rat) 1) : x ∈ Set.Icc (0 : Rat) 1 := by
  unfold Node.Yields at hx
  cases hl : n.label with
  | sink =>
    rw [hl] at hx
    exact hpay hl x hx
  | max | min =>
    rw [hl] at hx
    obtain ⟨⟨s, hs, rfl⟩, -⟩ := hx
    exact hv s hs
  | average =>
    rw [hl] at hx
    subst hx
    -- a mean lies between the means of 0 and of 1
    have hlow := weightedSum_mono (v := fun _ => 0) (hnonneg hl) fun s hs => (hv s hs).1
    have hhigh := weightedSum_mono (u := fun _ => 1) (hnonneg hl) fun s hs => (hv s hs).2
    rw [weightedSum_const, hsum hl] at hlow hhigh
    exact ⟨by linarith, by linarith⟩

theorem Node.Fair.yields_mem_unit {n : Node} (h : n.Fair) {v : NodeId → Rat} {x : Rat}
    (hv : ∀ s ∈ n.successors, v s ∈ Set.Icc (0 : Rat) 1) (hx : n.Yields v x) :
    x ∈ Set.Icc (0 : Rat) 1 :=
  hx.mem_unit h.nonneg h.sum_eq
    (fun hl x hk => ⟨h.known_nonneg x hk, h.known_le (by simp [hl]) x hk⟩) hv

namespace Game

open ValueTable

variable {g : Game} {id : NodeId}

/-! ### Cycles -/

/-- A node on no cycle is a component of its own. -/
theorem Linked.eq_of_not_onCycle (hg : g.Linked) {ids : List NodeId}
    (hids : ids ∈ g.plan.components) (hid : id ∈ ids) (hc : ¬ g.OnCycle id) :
    ∀ j ∈ ids, j = id := by
  intro j hj
  have hto := hg.connected_of_mem_plan hids id hid j hj
  have hback := hg.connected_of_mem_plan hids j hj id hid
  rcases hto.cases_head with he | ⟨s, hs, hsj⟩
  · exact he.symm
  · exact absurd ⟨s, hs, hsj.trans hback⟩ hc

/-! ### Tables in range -/

/-- The listed nodes have values in the unit interval. -/
def InUnit (ids : List NodeId) (w : ValueTable) : Prop :=
  ∀ id ∈ ids, w.value id ∈ Set.Icc (0 : Rat) 1

theorem InUnit.set {ids : List NodeId} {w : ValueTable} (h : InUnit ids w) {x : Rat}
    (hx : id ∈ ids → x ∈ Set.Icc (0 : Rat) 1) : InUnit ids (w.set id x) := by
  intro j hj
  rcases w.value_set_cases id j x with ⟨rfl, he⟩ | he
  · rw [he]
    exact hx hj
  · rw [he]
    exact h j hj

/-- Every live node is fair. -/
def Fair (g : Game) : Prop := ∀ id n, g.node? id = some n → n.Fair

/-- What a table does not start with as 0 is the known value of a live node. -/
theorem exists_known_of_start (h : (ofGame g).value id ≠ 0) :
    ∃ n, g.node? id = some n ∧ n.known = some ((ofGame g).value id) := by
  obtain ⟨l, hf⟩ := (value_ofGame_cases g id).resolve_left h
  obtain ⟨n, hn, -, hk⟩ := face?_eq_some_iff.1 hf
  exact ⟨n, hn, hk⟩

theorem Fair.value_ofGame_nonneg (hf : g.Fair) (id : NodeId) : 0 ≤ (ofGame g).value id := by
  by_cases h : (ofGame g).value id = 0
  · exact h.ge
  · obtain ⟨n, hn, hk⟩ := exists_known_of_start h
    exact (hf id n hn).known_nonneg _ hk

/-- Only an average node starts above 1. -/
theorem Fair.average_of_start (hf : g.Fair) (h : 1 < (ofGame g).value id) :
    ∃ n, g.node? id = some n ∧ n.label = .average := by
  obtain ⟨n, hn, hk⟩ := exists_known_of_start (zero_lt_one.trans h).ne'
  refine ⟨n, hn, ?_⟩
  by_contra hl
  exact absurd ((hf id n hn).known_le hl _ hk) (not_le.2 h)

/-! ### What a run keeps -/

section Component

variable {settings : SolverSettings} {pre post : List (List NodeId)} {ids : List NodeId}
  {w w' : ValueTable} {o : Outcome}

/-- A component that starts in range stays there: sweeps only read nodes up to the
component, and snapshots round into the range. -/
theorem InUnit.of_ends (hf : g.Fair) (hg : g.Linked)
    (hcs : g.plan.components = pre ++ ids :: post) (hw : InUnit (pre ++ [ids]).flatten w)
    (hends : (g.iteration settings settings.buildApproximant ids).Ends w o w') :
    InUnit (pre ++ [ids]).flatten w' := by
  have hswept : ∀ k, InUnit (pre ++ [ids]).flatten
      ((g.iteration settings settings.buildApproximant ids).swept k w) := by
    intro k
    refine Iteration.swept_induction k hw ?_
    intro w id x hw (hx : g.step? w id = some x)
    apply hw.set
    intro hid
    obtain ⟨n, hn, hy⟩ := step?_eq_some_iff.1 hx
    refine (hf id n hn).yields_mem_unit ?_ hy
    intro s hs
    have hnext : s ∈ g.digraph.next id := by
      show s ∈ g.successors id
      rwa [successors_of_node? hn]
    exact hw s (hg.plan_isSchedule.mem_of_next hcs hid hnext)
  cases hends with
  | converged k => exact hswept k
  | snapped k =>
    refine Iteration.snap_induction (hswept k) ?_
    intro w id hw
    apply hw.set
    intro _
    show settings.buildApproximant.nearest _ _ ∈ Set.Icc (0 : Rat) 1
    rw [settings.nearest_eq_walk]
    exact nearestByWalk_mem_unit _ _

/-- A node that is on no cycle ends in range wherever it starts: it reads solved nodes
only. -/
theorem InUnit.of_alone (hf : g.Fair) (hg : g.Linked)
    (hcs : g.plan.components = pre ++ ids :: post) (hw : InUnit pre.flatten w')
    (halone : ∀ j ∈ ids, j = id) (hid : id ∈ ids) (hc : ¬ g.OnCycle id)
    (hhigh : 1 < (ofGame g).value id) (hfix : g.FixedAt w'.value id) :
    w'.value id ∈ Set.Icc (0 : Rat) 1 := by
  obtain ⟨n, hn, hl⟩ := hf.average_of_start hhigh
  have hy : n.Yields w'.value (n.weightedSum w'.value) := by rw [Node.Yields, hl]
  rw [hfix n hn _ hy]
  refine (hf id n hn).yields_mem_unit ?_ hy
  intro s hs
  have hnext : s ∈ g.successors id := by rwa [successors_of_node? hn]
  apply hw s
  rcases hg.plan_isSchedule.order pre ids post hcs id hid s hnext with hin | hpre
  · -- a loop would be a cycle
    exact absurd ⟨s, hnext, halone s hin ▸ .refl⟩ hc
  · exact hpre

/-- The solved nodes have values in range, and the others have those they started with. -/
structure Ranged (g : Game) (done : List (List NodeId)) (w : ValueTable) : Prop where
  /-- Solved nodes have values in the unit interval. -/
  solved : InUnit done.flatten w
  /-- The others have not been written to. -/
  unsolved : ∀ id, id ∉ done.flatten → w.value id = (ofGame g).value id

theorem Ranged.step (h : g.Ranged pre w) (hf : g.Fair) (hg : g.Linked)
    (hcycle : ∀ id, 1 < (ofGame g).value id → ¬ g.OnCycle id)
    (hcs : g.plan.components = pre ++ ids :: post)
    (hends : (g.iteration settings settings.buildApproximant ids).Ends w o w') :
    g.Ranged (pre ++ [ids]) w' := by
  have hflat : ∀ j, j ∈ (pre ++ [ids]).flatten ↔ j ∈ pre.flatten ∨ j ∈ ids := by
    intro j
    rw [List.flatten_append, List.flatten_singleton, List.mem_append]
  have hdisj : ∀ j ∈ pre.flatten, j ∉ ids := by
    intro j hj hj'
    have hnodup := hg.plan_isSchedule.nodup
    rw [hcs, List.flatten_append, List.flatten_cons, List.nodup_append] at hnodup
    exact hnodup.2.2 j hj j (List.mem_append_left _ hj') rfl
  refine ⟨?_, ?_⟩
  · by_cases hlow : ∀ j ∈ ids, (ofGame g).value j ≤ 1
    · refine InUnit.of_ends hf hg hcs ?_ hends
      intro j hj
      by_cases hpre : j ∈ pre.flatten
      · exact h.solved j hpre
      · rw [h.unsolved j hpre]
        exact ⟨hf.value_ofGame_nonneg j, hlow j (((hflat j).1 hj).resolve_left hpre)⟩
    · -- a node that starts above 1 is alone in its component
      simp only [not_forall, not_le] at hlow
      obtain ⟨id, hid, hhigh⟩ := hlow
      have hc := hcycle id hhigh
      have halone := hg.eq_of_not_onCycle (hcs ▸ by simp) hid hc
      have hpre : InUnit pre.flatten w' := by
        intro j hj
        rw [hends.frame.value_eq j (hdisj j hj)]
        exact h.solved j hj
      intro j hj
      rcases (hflat j).1 hj with hj | hj
      · exact hpre j hj
      · rw [halone j hj]
        exact InUnit.of_alone hf hg hcs hpre halone hid hc hhigh (hends.fixedAt id hid)
  · intro j hj
    rw [hflat, not_or] at hj
    exact (hends.frame.value_eq j hj.2).trans (h.unsolved j hj.1)

end Component

/-- **Reported values are probabilities** if no node on a cycle starts above 1. -/
theorem Fair.mem_unit_of_solve {settings : SolverSettings} {pace : Nat} {sol : Solution}
    (hf : g.Fair) (hg : g.Linked) (hcycle : ∀ id, 1 < (ofGame g).value id → ¬ g.OnCycle id)
    (h : g.solve settings pace = .ok sol) (hid : g.contains id = true) :
    sol.values.value id ∈ Set.Icc (0 : Rat) 1 := by
  have hranged : g.Ranged g.plan.components sol.values := by
    refine solve_induction (P := fun done s => g.Ranged done s.values) h ?_ ?_
    · intro _ _
      exact ⟨fun id hid => absurd hid (by simp), fun _ _ => rfl⟩
    · intro pre ids post s o w hcs hs hends
      exact hs.step hf hg hcycle hcs hends
  apply hranged.solved
  rw [hg.plan_isSchedule.mem_iff]
  exact mem_nodeIds.2 (contains_iff.1 hid)

end Game

end StochasticGame
