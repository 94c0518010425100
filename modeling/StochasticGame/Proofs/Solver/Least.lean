import Mathlib.Order.Bounds.Basic
import StochasticGame.Proofs.Approximation.Closeness
import StochasticGame.Proofs.Solver.Equations
import StochasticGame.Proofs.Solver.Gap

/-!
# StochasticGame.Proofs.Solver.Least

**When a solution is the value of the game.** The value of a stochastic game is its
least non-negative valuation that no operator raises. Sweeps approach it from
below, so a run without snapshots reports it. A snapshot may round up, and then
only the equations are checked, which several valuations can satisfy.

* `Inflated` is what a reported solution above the value looks like: a set of nodes
  of positive value that cling to each other, so that their values support
  themselves.
* `solve_isLeast_iff` says that a solution is the value exactly when no set of nodes
  is inflated.
* `echo` is a game with an inflated solution that carries no warning.
* `solution_le_of_no_snapshot` says the same of a run without snapshots for any
  non-negative weights and any known values to start from.
-/

namespace StochasticGame

/-! ### Stochastic games -/

/-- A node of a stochastic game: the weights of an average node are a distribution,
sinks pay 0 or 1, other nodes have no known value, and players can move. -/
structure Node.Proper (n : Node) : Prop where
  /-- No weight of an average node is negative. -/
  nonneg : n.label = .average → ∀ e ∈ n.succs.entries, 0 ≤ e.2
  /-- The weights of an average node sum to 1. -/
  sum_eq : n.label = .average → (n.succs.entries.map Prod.snd).sum = 1
  /-- Sinks pay 0 or 1. -/
  payoff : n.label = .sink → n.known = some 0 ∨ n.known = some 1
  /-- Only sinks have a known value. -/
  unknown : n.label ≠ .sink → n.known = none
  /-- Players can move. -/
  move : n.label = .max ∨ n.label = .min → n.successors ≠ []

instance (n : Node) : Decidable n.Proper :=
  decidable_of_iff
    ((n.label = .average → ∀ e ∈ n.succs.entries, 0 ≤ e.2) ∧
      (n.label = .average → (n.succs.entries.map Prod.snd).sum = 1) ∧
      (n.label = .sink → n.known = some 0 ∨ n.known = some 1) ∧
      (n.label ≠ .sink → n.known = none) ∧
      (n.label = .max ∨ n.label = .min → n.successors ≠ []))
    ⟨fun ⟨h₁, h₂, h₃, h₄, h₅⟩ => ⟨h₁, h₂, h₃, h₄, h₅⟩,
      fun ⟨h₁, h₂, h₃, h₄, h₅⟩ => ⟨h₁, h₂, h₃, h₄, h₅⟩⟩

theorem Node.Proper.exists_yields {n : Node} (h : n.Proper) (v : NodeId → Rat) :
    ∃ x, n.Yields v x := by
  have hplayer : n.label = .max ∨ n.label = .min → ∃ x, n.Yields v x := by
    intro hl
    obtain ⟨s, hs⟩ := List.exists_mem_of_ne_nil _ (h.move hl)
    exact exists_yields_of_mem hl hs v
  cases hl : n.label with
  | sink =>
    rcases h.payoff hl with hk | hk
    · exact ⟨0, by rwa [Yields, hl]⟩
    · exact ⟨1, by rwa [Yields, hl]⟩
  | average => exact ⟨n.weightedSum v, by rw [Yields, hl]⟩
  | max => exact hplayer (Or.inl hl)
  | min => exact hplayer (Or.inr hl)

theorem Node.Proper.yields_nonneg {n : Node} (h : n.Proper) {v : NodeId → Rat} {x : Rat}
    (hv : ∀ s ∈ n.successors, 0 ≤ v s) (hx : n.Yields v x) : 0 ≤ x := by
  refine hx.nonneg h.nonneg ?_ hv
  intro hl k hk
  rcases h.payoff hl with hk' | hk'
  · exact (Option.some_inj.1 (hk'.symm.trans hk)).le
  · exact zero_le_one.trans (Option.some_inj.1 (hk'.symm.trans hk)).le

/-! ### Lowering a set of nodes -/

open Classical in
/-- The valuation with the nodes of a set lowered. -/
noncomputable def lower (f : NodeId → Rat) (S : Set NodeId) (ε : Rat) : NodeId → Rat :=
  fun id => if id ∈ S then f id - ε else f id

section Lower

variable {f : NodeId → Rat} {S : Set NodeId} {id : NodeId} {ε : Rat}

theorem lower_of_mem (h : id ∈ S) : lower f S ε id = f id - ε := if_pos h

theorem lower_of_not_mem (h : id ∉ S) : lower f S ε id = f id := if_neg h

theorem lower_le (hε : 0 ≤ ε) (id : NodeId) : lower f S ε id ≤ f id := by
  by_cases h : id ∈ S
  · rw [lower_of_mem h]
    linarith
  · rw [lower_of_not_mem h]

/-- Lowering a clinging node together with its set leaves its operator nothing to
raise, if the step is at most every positive difference of values. -/
theorem Node.Clings.yields_lower_le {n : Node} {x y : Rat} (h : n.Clings f x S) (hp : n.Proper)
    (hx : n.Yields f x) (hε : 0 < ε) (hdiff : ∀ s ∈ n.successors, f s < x → ε ≤ x - f s)
    (hy : n.Yields (lower f S ε) y) : y ≤ x - ε := by
  unfold Clings at h
  unfold Yields at hx hy
  cases hl : n.label with
  | sink => exact absurd h (by simp [hl])
  | max =>
    rw [hl] at h hx hy
    obtain ⟨⟨s, hs, rfl⟩, -⟩ := hy
    -- a best successor is lowered, and any other one lies below by the step already
    rcases (hx.2 s hs).eq_or_lt with he | hlt
    · rw [lower_of_mem (h s hs he), he]
    · have hle : lower f S ε s ≤ f s := lower_le hε.le s
      linarith [hdiff s hs hlt]
  | min =>
    rw [hl] at h hx hy
    obtain ⟨s, hs, he, hsS⟩ := h
    have hle := hy.2 s hs
    rwa [lower_of_mem hsS, he] at hle
  | average =>
    rw [hl] at h hx hy
    -- branches of weight 0 count for nothing, all others are lowered
    have hterm : n.weightedSum (lower f S ε) = n.weightedSum fun s => f s - ε := by
      unfold weightedSum
      congr 1
      apply List.map_congr_left
      intro e he
      by_cases hne : e.2 = 0
      · rw [hne, zero_mul, zero_mul]
      · rw [lower_of_mem (h e he hne)]
    rw [hterm, weightedSum_sub n f fun _ => ε, weightedSum_const, hp.sum_eq hl, one_mul, hx] at hy
    exact hy.ge

end Lower

namespace Game

open ValueTable

variable {g : Game}

/-- Every live node is one of a stochastic game. -/
def Proper (g : Game) : Prop := ∀ id n, g.node? id = some n → n.Proper

instance (g : Game) : Decidable g.Proper :=
  decidable_of_iff (∀ e ∈ g.nodes, e.2.Proper)
    ⟨fun h id n hn => h (id, n) (mem_nodes.2 hn), fun h e he => h e.1 e.2 (mem_nodes.1 he)⟩

theorem Proper.substochastic (hp : g.Proper) : g.Substochastic :=
  fun id n hn hl => ⟨(hp id n hn).nonneg hl, ((hp id n hn).sum_eq hl).le⟩

/-- No weight of an average node is negative. -/
def NonnegWeights (g : Game) : Prop :=
  ∀ id n, g.node? id = some n → n.label = .average → ∀ e ∈ n.succs.entries, 0 ≤ e.2

instance (g : Game) : Decidable g.NonnegWeights :=
  decidable_of_iff (∀ e ∈ g.nodes, e.2.label = .average → ∀ d ∈ e.2.succs.entries, 0 ≤ d.2)
    ⟨fun h id n hn => h (id, n) (mem_nodes.2 hn), fun h e he => h e.1 e.2 (mem_nodes.1 he)⟩

theorem Proper.nonnegWeights (hp : g.Proper) : g.NonnegWeights :=
  fun id n hn => (hp id n hn).nonneg

/-- The non-negative valuations that no operator raises. -/
def upperValuations (g : Game) : Set (NodeId → Rat) :=
  {u | (∀ id, 0 ≤ u id) ∧ g.Supersolution u}

/-! ### Inflated sets -/

/-- A set of nodes of positive value that cling to each other. -/
structure Inflated (g : Game) (f : NodeId → Rat) (S : Set NodeId) : Prop where
  /-- There is a node in the set. -/
  nonempty : S.Nonempty
  /-- Its nodes have positive values. -/
  positive : ∀ id ∈ S, 0 < f id
  /-- Its nodes are live and keep inside. -/
  clings : ∀ id ∈ S, ∃ n, g.node? id = some n ∧ n.Clings f (f id) S

/-- A solution above a non-negative supersolution is inflated where it is most so. -/
theorem Solves.exists_inflated {f u : NodeId → Rat} (hf : g.Solves f) (hg : g.Linked)
    (hp : g.Proper) (hu : u ∈ g.upperValuations) {id : NodeId} (hid : g.contains id = true)
    (hlt : u id < f id) : ∃ S, g.Inflated f S := by
  obtain ⟨m, hm, hle, hmax⟩ := exists_largest_gap f u hid
  have hc : 0 < f m - u m := by linarith
  refine ⟨g.gapSet f u (f m - u m), ⟨m, hm, by ring⟩, ?_, ?_⟩
  · rintro j ⟨-, hj⟩
    linarith [hu.1 j]
  · rintro j ⟨hlive, hj⟩
    obtain ⟨n, hn⟩ := contains_iff.1 hlive
    obtain ⟨x, hx⟩ := (hp j n hn).exists_yields f
    exact ⟨n, hn, hf.clings_gapSet hg hp.substochastic hu.2 hc hmax hn hx hj⟩

/-- A positive number below all positive members of a list. -/
theorem exists_pos_le (l : List Rat) : ∃ ε : Rat, 0 < ε ∧ ∀ x ∈ l, 0 < x → ε ≤ x := by
  induction l with
  | nil => exact ⟨1, one_pos, by simp⟩
  | cons a l ih =>
    obtain ⟨ε, hε, hl⟩ := ih
    by_cases ha : 0 < a
    · refine ⟨min a ε, lt_min ha hε, ?_⟩
      intro x hx hpos
      rcases List.mem_cons.1 hx with rfl | hx
      · exact min_le_left x ε
      · exact (min_le_right a ε).trans (hl x hx hpos)
    · refine ⟨ε, hε, ?_⟩
      intro x hx hpos
      rcases List.mem_cons.1 hx with rfl | hx
      · exact absurd hpos ha
      · exact hl x hx hpos

/-- An inflated solution lies above a non-negative supersolution. -/
theorem Inflated.exists_lower {f : NodeId → Rat} {S : Set NodeId} (h : g.Inflated f S)
    (hf : g.Solves f) (h0 : ∀ id, 0 ≤ f id) (hg : g.Linked) (hp : g.Proper) :
    ∃ u ∈ g.upperValuations, ∃ id, u id < f id := by
  -- the step is at most every positive value and every positive difference
  obtain ⟨ε, hε, hall⟩ := exists_pos_le
    (g.nodeIds.map f ++ g.nodeIds.flatMap fun a => g.nodeIds.map fun b => f a - f b)
  have hvalue : ∀ a, g.contains a = true → 0 < f a → ε ≤ f a := by
    intro a ha
    apply hall
    rw [List.mem_append, List.mem_map]
    exact Or.inl ⟨a, mem_nodeIds.2 (contains_iff.1 ha), rfl⟩
  have hdiff : ∀ a b, g.contains a = true → g.contains b = true → 0 < f a - f b →
      ε ≤ f a - f b := by
    intro a b ha hb
    apply hall
    rw [List.mem_append, List.mem_flatMap]
    exact Or.inr ⟨a, mem_nodeIds.2 (contains_iff.1 ha),
      List.mem_map.2 ⟨b, mem_nodeIds.2 (contains_iff.1 hb), rfl⟩⟩
  have hlive : ∀ id ∈ S, g.contains id = true := by
    intro id hid
    obtain ⟨n, hn, -⟩ := h.clings id hid
    exact contains_iff.2 ⟨n, hn⟩
  refine ⟨lower f S ε, ⟨?_, ?_⟩, ?_⟩
  · intro id
    by_cases hid : id ∈ S
    · rw [lower_of_mem hid]
      linarith [hvalue id (hlive id hid) (h.positive id hid)]
    · rw [lower_of_not_mem hid]
      exact h0 id
  · intro id n hn y hy
    obtain ⟨x, hx⟩ := (hp id n hn).exists_yields f
    obtain rfl := hf id n hn x hx
    by_cases hid : id ∈ S
    · rw [lower_of_mem hid]
      obtain ⟨m, hm, hcling⟩ := h.clings id hid
      obtain rfl := Option.some_inj.1 (hn.symm.trans hm)
      refine hcling.yields_lower_le (hp id n hn) hx hε ?_ hy
      intro s hs hlt
      exact hdiff id s (hlive id hid) (hg.contains_successor hn hs) (by linarith)
    · -- outside the set the operators are monotone
      rw [lower_of_not_mem hid]
      exact Node.Yields.mono (hp id n hn).nonneg (fun s _ => lower_le hε.le s) hy hx
  · obtain ⟨id, hid⟩ := h.nonempty
    exact ⟨id, by rw [lower_of_mem hid]; linarith⟩

/-- A non-negative solution that is 0 outside the live nodes is the least one exactly
when it is not inflated. -/
theorem Solves.isLeast_iff {f : NodeId → Rat} (hf : g.Solves f) (h0 : ∀ id, 0 ≤ f id)
    (hdead : ∀ id, g.contains id = false → f id = 0) (hg : g.Linked) (hp : g.Proper) :
    IsLeast g.upperValuations f ↔ ∀ S, ¬ g.Inflated f S := by
  constructor
  · intro hleast S hS
    obtain ⟨u, hu, id, hlt⟩ := hS.exists_lower hf h0 hg hp
    exact absurd (hleast.2 hu id) (not_le.2 hlt)
  · intro hnone
    refine ⟨⟨h0, hf.supersolution⟩, ?_⟩
    intro u hu id
    by_contra hlt
    have hid : g.contains id = true := by
      by_contra hid
      rw [hdead id (Bool.eq_false_iff.2 hid)] at hlt
      exact hlt (hu.1 id)
    obtain ⟨S, hS⟩ := hf.exists_inflated hg hp hu hid (not_le.1 hlt)
    exact hnone S hS

/-! ### What a run keeps -/

variable {settings : SolverSettings} {pace : Nat} {sol : Solution}

theorem Proper.value_ofGame_nonneg (hp : g.Proper) (id : NodeId) :
    0 ≤ (ValueTable.ofGame g).value id := by
  rw [value_ofGame]
  cases hn : g.node? id with
  | none => exact le_rfl
  | some n =>
    rw [Option.bind_some]
    by_cases hl : n.label = .sink
    · rcases (hp id n hn).payoff hl with hk | hk <;> simp [hk]
    · simp [(hp id n hn).unknown hl]

theorem Proper.value_ofGame_le (hp : g.Proper) {u : NodeId → Rat} (hu : u ∈ g.upperValuations)
    (id : NodeId) : (ValueTable.ofGame g).value id ≤ u id := by
  rw [value_ofGame]
  cases hn : g.node? id with
  | none => exact hu.1 id
  | some n =>
    rw [Option.bind_some]
    by_cases hl : n.label = .sink
    · -- the operator of a sink gives its payoff
      obtain ⟨x, hx⟩ := (hp id n hn).exists_yields u
      have hk : n.known = some x := by rwa [Node.Yields, hl] at hx
      rw [hk]
      exact hu.2 id n hn x hx
    · rw [(hp id n hn).unknown hl]
      exact hu.1 id

theorem Proper.nonneg_set (hp : g.Proper) {w : ValueTable} {id : NodeId} {x : Rat}
    (hw : ∀ j, 0 ≤ w.value j) (hx : g.step? w id = some x) : ∀ j, 0 ≤ (w.set id x).value j := by
  intro j
  rcases w.value_set_cases id j x with ⟨-, he⟩ | he
  · rw [he]
    obtain ⟨n, hn, hy⟩ := step?_eq_some_iff.1 hx
    exact (hp id n hn).yields_nonneg (fun s _ => hw s) hy
  · rw [he]
    exact hw j

/-- Writing what an operator with non-negative weights gives keeps a table below a
valuation that no operator raises. -/
theorem Supersolution.le_set {u : NodeId → Rat} (hu : g.Supersolution u) (hw : g.NonnegWeights)
    {w : ValueTable} {id : NodeId} {x : Rat} (hle : ∀ j, w.value j ≤ u j)
    (hx : g.step? w id = some x) : ∀ j, (w.set id x).value j ≤ u j := by
  intro j
  rcases w.value_set_cases id j x with ⟨rfl, he⟩ | he
  · rw [he]
    obtain ⟨n, hn, hy⟩ := step?_eq_some_iff.1 hx
    obtain ⟨y, hy'⟩ := hy.exists u
    exact (Node.Yields.mono (hw j n hn) (fun s _ => hle s) hy hy').trans (hu j n hn y hy')
  · rw [he]
    exact hle j

/-- Reported values are not negative. -/
theorem Proper.nonneg_of_solve (hp : g.Proper) (h : g.solve settings pace = .ok sol) :
    ∀ id, 0 ≤ sol.values.value id := by
  refine solve_induction (P := fun _ s => ∀ id, 0 ≤ s.values.value id) h
    (fun _ _ => hp.value_ofGame_nonneg) ?_
  intro pre ids post s o w _ hs hends
  have hswept : ∀ k, ∀ j, 0 ≤ ((g.iteration settings settings.buildApproximant ids).swept k
      s.values).value j := fun k =>
    Iteration.swept_induction (P := fun w => ∀ j, 0 ≤ w.value j) k hs
      fun w id x hw hx => hp.nonneg_set hw hx
  cases hends with
  | converged k => exact hswept k
  | snapped k =>
    refine Iteration.snap_induction (P := fun w => ∀ j, 0 ≤ w.value j) (hswept k) ?_
    intro w id hw j
    rcases w.value_set_cases id j _ with ⟨-, he⟩ | he
    · exact he ▸ Approximant.nearest_nonneg _ _ _
    · exact he ▸ hw j

/-- A run without snapshots stays below every valuation above the initial table that
no operator raises. -/
theorem Supersolution.le_of_solve {u : NodeId → Rat} (hu : g.Supersolution u)
    (hw : g.NonnegWeights) (h : g.solve settings pace = .ok sol)
    (hsnap : sol.stats.exactSnapshots = 0) (hstart : ∀ id, (ValueTable.ofGame g).value id ≤ u id) :
    ∀ id, sol.values.value id ≤ u id := by
  refine solve_induction
    (P := fun _ s => s.stats.exactSnapshots = 0 → ∀ id, s.values.value id ≤ u id) h
    (fun _ _ _ => hstart) ?_ hsnap
  intro pre ids post s o w _ hs hends hzero
  cases hends with
  | converged k =>
    -- a snapshot that fails leaves no trace: only the sweeps count
    exact Iteration.swept_induction (P := fun w => ∀ j, w.value j ≤ u j) k (hs hzero)
      fun w id x hle hx => hu.le_set hw hle hx
  | snapped k => simp [Solution.record, Iteration.accepted] at hzero

/-- A run without snapshots reports at most every non-negative supersolution. -/
theorem Proper.le_of_solve (hp : g.Proper) (h : g.solve settings pace = .ok sol)
    (hsnap : sol.stats.exactSnapshots = 0) {u : NodeId → Rat} (hu : u ∈ g.upperValuations) :
    ∀ id, sol.values.value id ≤ u id :=
  hu.2.le_of_solve hp.nonnegWeights h hsnap (hp.value_ofGame_le hu)

/-- Reported values are 0 outside the live nodes. -/
theorem Linked.value_of_not_live (hg : g.Linked) (h : g.solve settings pace = .ok sol) {id : NodeId}
    (hid : g.contains id = false) : sol.values.value id = 0 := by
  refine solve_induction (P := fun _ s => s.values.value id = 0) h ?_ ?_
  · intro _ _
    rw [value_ofGame]
    rw [contains, Option.isSome_eq_false_iff, Option.isNone_iff_eq_none] at hid
    rw [hid]
    rfl
  · intro pre ids post s o w hcs hs hends
    refine (hends.frame.value_eq id ?_).trans hs
    intro hin
    have hlisted : id ∈ g.plan.components.flatten :=
      List.mem_flatten.2 ⟨ids, by rw [hcs]; simp, hin⟩
    have hmem := (hg.plan_isSchedule.mem_iff id).1 hlisted
    rw [contains_iff.2 (mem_nodeIds.1 hmem)] at hid
    exact absurd hid (by simp)

/-- **When a solution is the value of the game.** The reported values of a stochastic
game are a non-negative solution of its equations. They are the least one exactly
when no set of nodes is inflated, and they always are if no component ended by a
snapshot. -/
theorem solve_isLeast_iff (hg : g.Reachable) (hp : g.Proper) (h : g.solve settings pace = .ok sol) :
    g.Solves sol.values.value ∧ (∀ id, 0 ≤ sol.values.value id) ∧
      (IsLeast g.upperValuations sol.values.value ↔ ∀ S, ¬ g.Inflated sol.values.value S) ∧
      (sol.stats.exactSnapshots = 0 → IsLeast g.upperValuations sol.values.value) := by
  have hsolves := hg.linked.solves_of_solve h
  have hnonneg := hp.nonneg_of_solve h
  refine ⟨hsolves, hnonneg, ?_, ?_⟩
  · exact hsolves.isLeast_iff hnonneg (fun id => hg.linked.value_of_not_live h) hg.linked hp
  · intro hsnap
    exact ⟨⟨hnonneg, hsolves.supersolution⟩, fun u hu => hp.le_of_solve h hsnap hu⟩

/-- Snapshots do no harm in `coinLoop`: whoever stays inside a set with the coin would
have to stay inside it with a sink. -/
theorem coinLoop_isLeast :
    coinLoop.Reachable ∧ coinLoop.Proper ∧
      coinLoop.solve { checkInterval := 1 } 1 = .ok coinLoopSolution ∧
      IsLeast coinLoop.upperValuations coinLoopSolution.values.value := by
  have hg : coinLoop.Reachable := ⟨_, rfl⟩
  have hp : coinLoop.Proper := by decide +kernel
  refine ⟨hg, hp, solve_coinLoop, (solve_isLeast_iff hg hp solve_coinLoop).2.2.1.2 ?_⟩
  intro S hS
  have hsink : ∀ id, (coinLoop.node? id).map Node.label = some .sink → id ∉ S := by
    intro id hl hid
    obtain ⟨n, hn, hc⟩ := hS.clings id hid
    rw [hn, Option.map_some, Option.some_inj] at hl
    simp [Node.Clings, hl] at hc
  have hcoin : 2 ∉ S := by
    intro hid
    obtain ⟨n, hn, hc⟩ := hS.clings 2 hid
    obtain rfl := Option.some_inj.1 (hn.symm.trans (rfl : coinLoop.node? 2 = some _))
    exact hsink 1 (by decide +kernel) (hc (1, 1 / 4) (by decide +kernel) (by decide +kernel))
  have hmin : 3 ∉ S := by
    intro hid
    obtain ⟨n, hn, hc⟩ := hS.clings 3 hid
    obtain rfl := Option.some_inj.1 (hn.symm.trans (rfl : coinLoop.node? 3 = some _))
    obtain ⟨s, hs, -, hsS⟩ := hc
    have hs' : s ∈ [2, 1] := hs
    rcases List.mem_pair.1 hs' with rfl | rfl
    · exact hcoin hsS
    · exact hsink 1 (by decide +kernel) hsS
  obtain ⟨id, hid⟩ := hS.nonempty
  obtain ⟨n, hn, -⟩ := hS.clings id hid
  have hmem : id ∈ [0, 1, 2, 3] := by
    have hids : coinLoop.nodeIds = [0, 1, 2, 3] := by decide +kernel
    rw [← hids]
    exact mem_nodeIds.2 ⟨n, hn⟩
  simp only [List.mem_cons, List.not_mem_nil, or_false] at hmem
  rcases hmem with rfl | rfl | rfl | rfl
  · exact hsink 0 (by decide +kernel) hid
  · exact hsink 1 (by decide +kernel) hid
  · exact hcoin hid
  · exact hmin hid

/-- Two maximizing nodes that lead to each other, one of which can also toss a coin
that wins with probability 3/5. -/
def echo : Game :=
  List.foldl perform empty
    [.addSink false, .addSink true, .addNode .average, .addNode .max, .addNode .max,
      .addEdge 2 1 (3 / 5), .addEdge 2 0 (2 / 5), .addEdge 3 4 1, .addEdge 3 2 1, .addEdge 4 3 1]

/-- What the solver reports for `echo`. -/
def echoSolution : Solution where
  values := ⟨#[0, 1, 3 / 5, 1, 1]⟩
  stats := ⟨false, 4, 2, 4, 4⟩
  warnings := []

theorem plan_echo : echo.plan = ⟨false, [[1], [0], [2], [3, 4]]⟩ :=
  plan_of_sorted [[1], [0], [2], [3, 4]] [0, 1, 2, 3] (by decide +kernel) (by decide +kernel)
    (by decide +kernel) (by decide)

theorem solve_echo : echo.solve { checkInterval := 1 } 1 = .ok echoSolution := by
  unfold solve
  rw [plan_echo]
  decide +kernel

/-- A solution without a warning need not be the least one: both players of `echo`
can have value 3/5 only, and are reported with 1. -/
theorem solve_echo_not_least :
    echo.Reachable ∧ echo.Proper ∧ echo.solve { checkInterval := 1 } 1 = .ok echoSolution ∧
      echoSolution.isExact = true ∧
      ∃ w : ValueTable, (∀ id, 0 ≤ w.value id) ∧
        (∀ id x, echo.step? w id = some x → x ≤ w.value id) ∧
        w.value 3 < echoSolution.values.value 3 := by
  refine ⟨⟨_, rfl⟩, by decide +kernel, solve_echo, rfl, ⟨#[0, 1, 3 / 5, 3 / 5, 3 / 5]⟩, ?_, ?_, ?_⟩
  · have hall : ∀ x ∈ #[0, 1, 3 / 5, 3 / 5, 3 / 5], (0 : Rat) ≤ x := by decide +kernel
    intro id
    rcases value_eq_zero_or_mem ⟨#[0, 1, 3 / 5, 3 / 5, 3 / 5]⟩ id with he | hmem
    · exact he.ge
    · exact hall _ hmem
  · have hall : ∀ e ∈ echo.nodes, (echo.step? ⟨#[0, 1, 3 / 5, 3 / 5, 3 / 5]⟩ e.1).all
        (· ≤ ValueTable.value ⟨#[0, 1, 3 / 5, 3 / 5, 3 / 5]⟩ e.1) = true := by decide +kernel
    intro id x hx
    obtain ⟨n, hn, -⟩ := step?_eq_some_iff.1 hx
    have hid := hall (id, n) (mem_nodes.2 hn)
    rw [hx, Option.all_some, decide_eq_true_eq] at hid
    exact hid
  · decide +kernel

/-- **Plain convergence finds the least solution.** Let no weight be negative and let
no component end by a snapshot. Then the reported values solve the equations, and
they are nowhere above a table that starts out no lower than the initial one and
that no operator raises. -/
theorem solution_le_of_no_snapshot (hg : g.Reachable) (hw : g.NonnegWeights)
    (h : g.solve settings pace = .ok sol) (hsnap : sol.stats.exactSnapshots = 0) :
    g.Solves sol.values.value ∧
      ∀ w : ValueTable, (∀ id, (ValueTable.ofGame g).value id ≤ w.value id) →
        (∀ id x, g.step? w id = some x → x ≤ w.value id) →
        ∀ id, g.contains id = true → ∃ x, sol.value? id = some x ∧ x ≤ w.value id := by
  refine ⟨hg.linked.solves_of_solve h, ?_⟩
  intro w hstart hstep id hid
  have hu : g.Supersolution w.value := fun j n hn x hx =>
    hstep j x (step?_eq_some_iff.2 ⟨n, hn, hx⟩)
  exact ⟨sol.values.value id, hg.linked.value?_of_solve h hid,
    hu.le_of_solve hw h hsnap hstart id⟩

/-- What the solver reports for `echo` if it takes no snapshots. -/
def echoLimit : Solution where
  values := ⟨#[0, 1, 3 / 5, 3 / 5, 3 / 5]⟩
  stats := ⟨false, 4, 2, 6, 0⟩
  warnings := []

theorem solve_echo_limit : echo.solve { checkInterval := 0 } 1 = .ok echoLimit := by
  unfold solve
  rw [plan_echo]
  decide +kernel

/-- Without snapshots the players of `echo` stay below the table of `echoSolution`,
which no operator raises either. -/
theorem echo_le_of_no_snapshot :
    echo.Reachable ∧ echo.NonnegWeights ∧ echo.solve { checkInterval := 0 } 1 = .ok echoLimit ∧
      echoLimit.stats.exactSnapshots = 0 ∧
      (∀ id, (ValueTable.ofGame echo).value id ≤ echoSolution.values.value id) ∧
      (∀ id x, echo.step? echoSolution.values id = some x → x ≤ echoSolution.values.value id) ∧
      ∀ id, echo.contains id = true →
        ∃ x, echoLimit.value? id = some x ∧ x ≤ echoSolution.values.value id := by
  have hg : echo.Reachable := ⟨_, rfl⟩
  have hp : echo.Proper := by decide +kernel
  -- the values of a run with snapshots solve the equations, so no operator raises them
  have hsuper := (hg.linked.solves_of_solve solve_echo).supersolution
  have hstart := hp.value_ofGame_le ⟨hp.nonneg_of_solve solve_echo, hsuper⟩
  have hstep : ∀ id x, echo.step? echoSolution.values id = some x →
      x ≤ echoSolution.values.value id := by
    intro id x hx
    obtain ⟨n, hn, hy⟩ := step?_eq_some_iff.1 hx
    exact hsuper id n hn x hy
  have hleast := solution_le_of_no_snapshot hg hp.nonnegWeights solve_echo_limit rfl
  exact ⟨hg, hp.nonnegWeights, solve_echo_limit, rfl, hstart, hstep,
    hleast.2 echoSolution.values hstart hstep⟩

end Game

end StochasticGame
