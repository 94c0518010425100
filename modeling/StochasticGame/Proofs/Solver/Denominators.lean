import StochasticGame.Proofs.Solver.LinearSystem
import StochasticGame.Proofs.Solver.Termination

/-!
# StochasticGame.Proofs.Solver.Denominators

**How large the denominators of values can be.** Let every player of a stopping game move
to an optimal successor. The values of listed nodes then solve a linear system whose
rows are the weights of average nodes, and what its right side adds are values of nodes
that are not listed. Numbers that clear the weights of one node at a time, and one that
clears the values read from outside, bound the denominators of all solutions.

A bound on denominators that leaves the values read from outside out of account can be
too small. The iteration of a component may then never end.
-/

namespace StochasticGame

open LinearSystem

/-! ### Clearing denominators -/

/-- The least common multiple of the denominators. -/
def commonDenominator (qs : List Rat) : Nat := qs.foldr (fun q d => q.den.lcm d) 1

theorem commonDenominator_pos (qs : List Rat) : 0 < commonDenominator qs := by
  induction qs with
  | nil => exact Nat.one_pos
  | cons q qs ih => exact Nat.lcm_pos q.den_pos ih

theorem den_dvd_commonDenominator {qs : List Rat} {q : Rat} (h : q ∈ qs) :
    q.den ∣ commonDenominator qs := by
  induction qs with
  | nil => exact absurd h List.not_mem_nil
  | cons p qs ih =>
    rcases List.mem_cons.1 h with rfl | h
    · exact Nat.dvd_lcm_left q.den (commonDenominator qs)
    · exact (ih h).trans (Nat.dvd_lcm_right p.den (commonDenominator qs))

theorem mul_mem_integers {q : Rat} {d : Nat} (h : q.den ∣ d) : (d : Rat) * q ∈ integers := by
  obtain ⟨k, rfl⟩ := h
  refine ⟨k * q.num, ?_⟩
  have hq : (q.den : Rat) * q = q.num := Rat.den_mul_eq_num q
  rw [eq_intCast, Int.cast_mul, Nat.cast_mul, mul_right_comm, hq, mul_comm]
  rfl

namespace Game

variable {g : Game} {u v : NodeId → Rat} {ρ : Rat} {ids : List NodeId} {id : NodeId}

/-- The nodes that listed ones read and that are not listed themselves. -/
def outerReads (g : Game) (ids : List NodeId) : List NodeId :=
  (ids.flatMap g.successors).filter (· ∉ ids)

/-- A number that clears the weights of an average node. -/
def rowDenominator (g : Game) (id : NodeId) : Nat :=
  match g.node? id with
  | some n => if n.label = .average then commonDenominator (n.succs.entries.map Prod.snd) else 1
  | none => 1

/-- A bound on the denominators of the values of listed nodes, from the weights of listed
nodes and the values that they read from outside. -/
def valueDenominator (g : Game) (ids : List NodeId) (v : NodeId → Rat) : Nat :=
  commonDenominator ((g.outerReads ids).map v) * (ids.dedup.map g.rowDenominator).prod

theorem rowDenominator_pos (g : Game) (id : NodeId) : 0 < g.rowDenominator id := by
  unfold rowDenominator
  split
  · split
    · exact commonDenominator_pos _
    · exact Nat.one_pos
  · exact Nat.one_pos

/-! ### The linear system -/

/-- An equation for the value of a node: the values of successors with their weights, and
an integer. -/
structure Row (g : Game) (v u : NodeId → Rat) (id : NodeId) (row : List (NodeId × Rat)) (b : Rat) :
    Prop where
  /-- The equation holds. -/
  eq : v id = (row.map fun e => e.2 * v e.1).sum + b
  /-- No weight is negative. -/
  nonneg : ∀ e ∈ row, 0 ≤ e.2
  /-- The values are those of successors. -/
  successor : ∀ e ∈ row, e.1 ∈ g.successors id
  /-- Sizes become smaller. -/
  dampens : (row.map fun e => e.2 * u e.1).sum < u id
  /-- The weights are cleared. -/
  clear : ∀ e ∈ row, (g.rowDenominator id : Rat) * e.2 ∈ integers
  /-- The rest is an integer. -/
  rest : b ∈ integers

/-- Every live node of a stopping game has such an equation. -/
theorem Stopping.exists_row (hs : g.Stopping) (hp : g.WinLose) (hv : g.Solves v)
    (hd : g.Damping u ρ) (hid : g.contains id = true) : ∃ row b, g.Row v u id row b := by
  obtain ⟨n, hn⟩ := contains_iff.1 hid
  have hy := hv.yields hn (hs.not_idle id)
  have hdamp := hd.dampens id n hn
  have hsmaller : ρ * u id < u id := mul_lt_of_lt_one_left (hd.pos id) hd.lt_one
  have hsucc : ∀ s ∈ n.successors, s ∈ g.successors id := fun s hs =>
    successors_of_node? hn ▸ hs
  -- a player moves to a successor of the same value
  have hmove : (∃ s ∈ n.successors, v s = v id) → (∀ s ∈ n.successors, u s ≤ ρ * u id) →
      ∃ row b, g.Row v u id row b := by
    intro ⟨s, hs, he⟩ hle
    refine ⟨[(s, 1)], 0, ⟨by simp [he], by simp, by simp [hsucc s hs], ?_, ?_, zero_mem _⟩⟩
    · simpa using (hle s hs).trans_lt hsmaller
    · intro e he
      rw [List.mem_singleton.1 he, mul_one]
      exact natCast_mem integers (g.rowDenominator id)
  unfold Node.Yields at hy
  unfold Node.Dampens at hdamp
  cases hl : n.label with
  | sink =>
    rw [hl] at hy
    refine ⟨[], v id, ⟨by simp, by simp, by simp, by simpa using hd.pos id, by simp, ?_⟩⟩
    rcases hp.payoff_eq hn hl hy with h | h
    · rw [h]
      exact zero_mem _
    · rw [h]
      exact one_mem _
  | max | min =>
    rw [hl] at hy hdamp
    exact hmove hy.1 hdamp
  | average =>
    rw [hl] at hy hdamp
    refine ⟨n.succs.entries, 0, ⟨?_, (hs.playable id n hn).nonneg hl, ?_, ?_, ?_, zero_mem _⟩⟩
    · rw [add_zero]
      exact hy.symm
    · exact fun e he => hsucc e.1 (Node.mem_successors_of_entry he)
    · exact lt_of_le_of_lt hdamp hsmaller
    · intro e he
      rw [rowDenominator, hn]
      simp only [hl, if_true]
      exact mul_mem_integers (den_dvd_commonDenominator (List.mem_map_of_mem he))

/-! ### Unknowns and the right side -/

/-- The weight with which a row refers to an unknown. -/
def weightOf (row : List (NodeId × Rat)) (j : NodeId) : Rat :=
  (row.map fun e => if e.1 = j then e.2 else 0).sum

/-- What a row adds up from nodes that are no unknowns. -/
def outerSum (S : Finset NodeId) (v : NodeId → Rat) (row : List (NodeId × Rat)) : Rat :=
  (row.map fun e => if e.1 ∈ S then 0 else e.2 * v e.1).sum

theorem sum_weightOf (S : Finset NodeId) (row : List (NodeId × Rat)) (f : NodeId → Rat) :
    ∑ j ∈ S, weightOf row j * f j = (row.map fun e => if e.1 ∈ S then e.2 * f e.1 else 0).sum := by
  unfold weightOf
  induction row with
  | nil => simp
  | cons e row ih =>
    simp only [List.map_cons, List.sum_cons, add_mul, Finset.sum_add_distrib, ih, ite_mul,
      zero_mul, Finset.sum_ite_eq]

namespace Row

variable {row : List (NodeId × Rat)} {b : Rat} (h : g.Row v u id row b)

include h

theorem weightOf_nonneg (j : NodeId) : 0 ≤ weightOf row j := by
  refine List.sum_nonneg ?_
  simp only [List.mem_map]
  rintro x ⟨e, he, rfl⟩
  split
  · exact h.nonneg e he
  · exact le_rfl

/-- Every entry of the row belongs to an unknown or to the right side. -/
theorem eq_split (S : Finset NodeId) :
    v id = ∑ j ∈ S, weightOf row j * v j + (outerSum S v row + b) := by
  rw [sum_weightOf, outerSum, ← add_assoc, ← List.sum_map_add, h.eq]
  congr 2
  refine List.map_congr_left fun e _ => ?_
  split <;> simp

theorem sum_weightOf_lt (hu : ∀ j, 0 < u j) (S : Finset NodeId) :
    ∑ j ∈ S, weightOf row j * u j < u id := by
  rw [sum_weightOf]
  refine lt_of_le_of_lt (List.sum_le_sum fun e he => ?_) h.dampens
  split
  · exact le_rfl
  · exact mul_nonneg (h.nonneg e he) (hu e.1).le

theorem clear_weightOf (j : NodeId) : (g.rowDenominator id : Rat) * weightOf row j ∈ integers := by
  rw [weightOf, ← List.sum_map_mul_left]
  refine list_sum_mem ?_
  simp only [List.mem_map]
  rintro x ⟨e, he, rfl⟩
  split
  · exact h.clear e he
  · rw [mul_zero]
    exact zero_mem _

theorem clear_outerSum (S : Finset NodeId) {d : Nat}
    (hd : ∀ e ∈ row, e.1 ∉ S → (d : Rat) * v e.1 ∈ integers) :
    (d * g.rowDenominator id : Rat) * (outerSum S v row + b) ∈ integers := by
  rw [mul_add, outerSum, ← List.sum_map_mul_left]
  refine add_mem (list_sum_mem ?_)
    (mul_mem (mul_mem (natCast_mem integers _) (natCast_mem integers _)) h.rest)
  simp only [List.mem_map]
  rintro x ⟨e, he, rfl⟩
  split
  · rw [mul_zero]
    exact zero_mem _
  · rename_i hout
    have hprod := mul_mem (hd e he hout) (h.clear e he)
    rwa [mul_mul_mul_comm, mul_comm (v e.1)] at hprod

end Row

theorem prod_rowDenominator (g : Game) (ids : List NodeId) :
    ∏ i : ids.toFinset, g.rowDenominator i = (ids.dedup.map g.rowDenominator).prod := by
  have hdedup : ids.toFinset = ids.dedup.toFinset := by
    ext
    simp
  rw [Finset.prod_coe_sort ids.toFinset g.rowDenominator, hdedup,
    List.prod_toFinset _ ids.nodup_dedup]

/-- **Denominators of values.** The values of listed nodes have denominators of at most
`valueDenominator`. -/
theorem Stopping.den_le (hs : g.Stopping) (hg : g.Linked) (hp : g.WinLose) (hv : g.Solves v)
    (hlive : ∀ id ∈ ids, g.contains id = true) (hid : id ∈ ids) :
    (v id).den ≤ g.valueDenominator ids v := by
  obtain ⟨u, ρ, hd⟩ := hs.exists_damping hg
  have hrow : ∀ i : ids.toFinset, ∃ row b, g.Row v u i row b := fun i =>
    hs.exists_row hp hv hd (hlive i (List.mem_toFinset.1 i.2))
  choose row b hrow using hrow
  -- what a row reads from outside is cleared by the values there
  have houter : ∀ i, ∀ e ∈ row i, e.1 ∉ ids.toFinset →
      (commonDenominator ((g.outerReads ids).map v) : Rat) * v e.1 ∈ integers := by
    intro i e he hout
    refine mul_mem_integers (den_dvd_commonDenominator (List.mem_map_of_mem ?_))
    rw [List.mem_toFinset] at hout
    rw [outerReads, List.mem_filter, List.mem_flatMap]
    exact ⟨⟨i, List.mem_toFinset.1 i.2, (hrow i).successor e he⟩, decide_eq_true hout⟩
  rw [valueDenominator, ← prod_rowDenominator]
  refine den_le_of_solution (x := fun i : ids.toFinset => v i) (u := fun i => u i)
    (P := Matrix.of fun i j => weightOf (row i) j)
    (c := fun i => outerSum ids.toFinset v (row i) + b i) ?_
    (fun i j => (hrow i).weightOf_nonneg j) (fun i => hd.pos i) ?_
    (fun i => g.rowDenominator_pos i) (commonDenominator_pos _)
    (fun i j => (hrow i).clear_weightOf j) (fun i => (hrow i).clear_outerSum _ (houter i))
    ⟨id, List.mem_toFinset.2 hid⟩
  · intro i
    simp only [Matrix.of_apply]
    rw [Finset.sum_coe_sort ids.toFinset fun j => weightOf (row i) j * v j]
    exact (hrow i).eq_split ids.toFinset
  · intro i
    simp only [Matrix.of_apply]
    rw [Finset.sum_coe_sort ids.toFinset fun j => weightOf (row i) j * u j]
    exact (hrow i).sum_weightOf_lt hd.pos ids.toFinset

end Game

/-! ### The bound of a component -/

/-- The bound that the numbers of a list of nodes determine, without a cap. -/
def DenominatorBound.Data.theoretical (d : Data) : Nat := (d.multiple * d.largest) ^ d.averages

theorem DenominatorBound.eq_of_cappedPower {base cap k acc value : Nat}
    (h : cappedPower base cap k acc = some value) : value = acc * base ^ k := by
  induction k generalizing acc with
  | zero =>
    rw [pow_zero, mul_one]
    exact (Option.some_inj.1 h).symm
  | succ k ih =>
    rw [cappedPower] at h
    split at h
    · cases h
    · rw [ih h, pow_succ']
      ring

namespace Game

variable {g : Game} {v : NodeId → Rat} {ids : List NodeId} {w : ValueTable}

theorem value_of_not_capped {cap : Nat} (h : (g.denominatorBound ids cap).capped = false) :
    (g.denominatorBound ids cap).value = (DenominatorBound.Data.ofNodes g ids).theoretical := by
  unfold denominatorBound at h ⊢
  dsimp only at h ⊢
  split at h
  · rename_i value hpower
    have hvalue := DenominatorBound.eq_of_cappedPower hpower
    rwa [one_mul] at hvalue
  · cases h

/-! ### Hypotheses that can be checked -/

theorem winLose_of_forall
    (h : ∀ e ∈ g.nodes, e.2.label = .sink → e.2.known = some 0 ∨ e.2.known = some 1) : g.WinLose :=
  fun id n hn => h (id, n) (mem_nodes.2 hn)

theorem solves_of_isFixed (h : g.isFixed g.nodeIds w = true) : g.Solves w.value := by
  intro id n hn
  exact isFixed_iff.1 h id (mem_nodeIds.2 ⟨n, hn⟩) n hn

theorem exactOutside_of_forall (hsize : w.size = g.capacity)
    (h : ∀ id ∈ g.nodeIds, id ∉ ids → w.value id = v id) : g.ExactOutside v ids w :=
  ⟨hsize, fun id hid => h id (mem_nodeIds.2 (contains_iff.1 hid))⟩

/-! ### When a component is solved -/

/-- The iteration of listed nodes ends exactly if the bound covers the denominators of their
values or sweeps reach these values. -/
theorem Stopping.returns_iff (hs : g.Stopping) (hg : g.Reachable) (hp : g.WinLose)
    (hv : g.Solves v) (hlive : ∀ id ∈ ids, g.contains id = true) (hw : g.ExactOutside v ids w)
    (settings : SolverSettings) (hinterval : settings.checkInterval ≠ 0)
    (hbound : (g.denominatorBound ids settings.denominatorCap.toNat).value ≤ 2 ^ 63) :
    (g.iteration settings settings.buildApproximant ids).Returns w ↔
      (∀ id ∈ ids,
        (v id).den ≤ max (g.denominatorBound ids settings.denominatorCap.toNat).value 1) ∨
      ∃ k, ∀ id ∈ ids,
        ((g.iteration settings settings.buildApproximant ids).swept k w).value id = v id := by
  have hsnaps : 0 < settings.checkInterval.toNat :=
    Nat.pos_of_ne_zero fun h => hinterval (UInt32.toNat_inj.1 h)
  have hfree : (g.iteration settings settings.buildApproximant ids).Unhindered w.size :=
    hw.size_eq ▸ hg.linked.unhindered hlive hbound
  exact Iteration.returns_iff hs hg.linked hp hv hlive hw (fun x => settings.nearest_eq_walk x _)
    hfree hsnaps

/-- **When the iteration of a component ends.** Take a stopping game whose sinks pay 0 or
1, listed live nodes such as a component of the plan, and a table that is right about
all other nodes. Under a bound of at most 2 ^ 63 and with snapshots, the iteration ends
exactly if the bound covers the denominators of the values, or sweeps reach the values.

In particular it ends under an uncapped bound that covers `valueDenominator`, which
takes the values that are read from outside into account. -/
theorem component_returns_iff (hg : g.Reachable) (hs : g.Stopping) (hp : g.WinLose)
    (hv : g.Solves v) (hlive : ∀ id ∈ ids, g.contains id = true) (hw : g.ExactOutside v ids w)
    (settings : SolverSettings) (hinterval : settings.checkInterval ≠ 0)
    (hbound : (g.denominatorBound ids settings.denominatorCap.toNat).value ≤ 2 ^ 63) :
    ((g.iteration settings settings.buildApproximant ids).Returns w ↔
      (∀ id ∈ ids,
        (v id).den ≤ max (g.denominatorBound ids settings.denominatorCap.toNat).value 1) ∨
      ∃ k, ∀ id ∈ ids,
        ((g.iteration settings settings.buildApproximant ids).swept k w).value id = v id) ∧
    ((g.denominatorBound ids settings.denominatorCap.toNat).capped = false →
      g.valueDenominator ids v ≤ (DenominatorBound.Data.ofNodes g ids).theoretical →
      (g.iteration settings settings.buildApproximant ids).Returns w) := by
  have hiff := hs.returns_iff hg hp hv hlive hw settings hinterval hbound
  refine ⟨hiff, ?_⟩
  intro hcapped hcover
  rw [hiff]
  left
  intro id hid
  rw [← value_of_not_capped hcapped] at hcover
  exact ((hs.den_le hg.linked hp hv hlive hid).trans hcover).trans (Nat.le_max_left _ 1)

theorem coinLoop_returns :
    coinLoop.Reachable ∧ coinLoop.Stopping ∧ coinLoop.WinLose ∧
      coinLoop.Solves coinLoopSolution.values.value ∧ [2, 3] ∈ coinLoop.plan.components ∧
      coinLoop.ExactOutside coinLoopSolution.values.value [2, 3] (.ofGame coinLoop) ∧
      coinLoop.denominatorBound [2, 3] 10000 = ⟨16, false⟩ ∧
      coinLoop.valueDenominator [2, 3] coinLoopSolution.values.value = 4 ∧
      (coinLoop.iteration {} .walk [2, 3]).Returns (.ofGame coinLoop) := by
  have hpay : coinLoop.WinLose := winLose_of_forall (by decide +kernel)
  have hsolves : coinLoop.Solves coinLoopSolution.values.value :=
    solves_of_isFixed (by decide +kernel)
  have hw : coinLoop.ExactOutside coinLoopSolution.values.value [2, 3] (.ofGame coinLoop) :=
    exactOutside_of_forall (by decide +kernel) (by decide +kernel)
  refine ⟨⟨_, rfl⟩, stopping_coinLoop, hpay, hsolves, by rw [plan_coinLoop]; decide,
    hw, by decide +kernel, by decide +kernel, ?_⟩
  exact (component_returns_iff ⟨_, rfl⟩ stopping_coinLoop hpay hsolves
    (by decide +kernel) hw {} (by decide) (by decide +kernel)).2 (by decide +kernel)
    (by decide +kernel)

/-- Two average nodes that pass play on to each other or let it go. What the first lets go
comes to a draw with sevenths. -/
def sevenths : Game :=
  List.foldl perform empty
    [.addSink false, .addSink true, .addNode .average, .addNode .average, .addNode .average,
      .addEdge 2 1 (1 / 7), .addEdge 2 0 (6 / 7), .addEdge 3 4 (1 / 2), .addEdge 3 2 (1 / 2),
      .addEdge 4 3 (1 / 2), .addEdge 4 0 (1 / 2)]

/-- The values of `sevenths`. -/
def seventhsValues : ValueTable := ⟨#[0, 1, 1 / 7, 2 / 21, 1 / 21]⟩

/-- What is known of `sevenths` when the two nodes are to be solved. -/
def seventhsTable : ValueTable := ⟨#[0, 1, 1 / 7, 0, 0]⟩

theorem sevenths_setting :
    sevenths.Stopping ∧ sevenths.WinLose ∧ sevenths.Solves seventhsValues.value ∧
      sevenths.ExactOutside seventhsValues.value [3, 4] seventhsTable :=
  ⟨stopping_of_isExitOrder [4, 3, 2, 1, 0] (by decide +kernel) (by decide +kernel)
      (by decide +kernel), winLose_of_forall (by decide +kernel),
    solves_of_isFixed (by decide +kernel),
    exactOutside_of_forall (by decide +kernel) (by decide +kernel)⟩

theorem step?_of_average (es : List (NodeId × Rat)) {id : NodeId}
    (h : (g.node? id).map (fun n => (n.label, n.succs.entries)) = some (.average, es))
    (w : ValueTable) : g.step? w id = some (es.map fun e => e.2 * w.value e.1).sum := by
  obtain ⟨n, hn, he⟩ := Option.map_eq_some_iff.1 h
  simp only [Prod.mk.injEq] at he
  rw [step?, hn, Option.bind_some, Node.step?, he.1, Node.expectation_eq, Node.weightedSum, he.2]

/-- A sweep that starts below the values of the two nodes ends below them. -/
theorem sevenths_sweep_lt (hsize : w.size = 5) (h0 : w.value 0 = 0) (h2 : w.value 2 = 1 / 7)
    (h4 : w.value 4 < 1 / 21) :
    (sevenths.sweep [3, 4] w).2.value 3 < 2 / 21 ∧
      (sevenths.sweep [3, 4] w).2.value 4 < 1 / 21 := by
  obtain ⟨s, hs⟩ : ∃ s, s = sevenths.update (false, w) 3 := ⟨_, rfl⟩
  have hsweep : sevenths.sweep [3, 4] w = sevenths.update s 4 := by
    rw [hs]
    rfl
  have hfirst : ValueTable.Frame [3] w s.2 := hs ▸ frame_update List.mem_cons_self (false, w)
  have hsecond : ValueTable.Frame [4] s.2 (sevenths.update s 4).2 :=
    frame_update List.mem_cons_self s
  have h3 : s.2.value 3 = _ := hs ▸ value_update (s := (false, w)) (show 3 < w.size by omega)
    (step?_of_average [(4, 1 / 2), (2, 1 / 2)] (by cbv) w)
  have h4' := value_update (s := s) (show 4 < s.2.size by rw [hfirst.size_eq]; omega)
    (step?_of_average (g := sevenths) [(3, 1 / 2), (0, 1 / 2)] (by cbv) s.2)
  simp only [List.map_cons, List.map_nil, List.sum_cons, List.sum_nil,
    hfirst.value_eq 0 (by decide), h0, h2] at h3 h4'
  rw [hsweep, hsecond.value_eq 3 (by decide), h4', h3]
  constructor <;> linarith

theorem sevenths_swept_lt (settings : SolverSettings) (k : Nat) :
    ((sevenths.iteration settings settings.buildApproximant [3, 4]).swept k seventhsTable).value 3 <
        2 / 21 ∧
      ((sevenths.iteration settings settings.buildApproximant [3, 4]).swept k
        seventhsTable).value 4 < 1 / 21 := by
  induction k with
  | zero =>
    show (0 : Rat) < 2 / 21 ∧ (0 : Rat) < 1 / 21
    norm_num
  | succ k ih =>
    have hframe := (sevenths.iteration settings settings.buildApproximant [3, 4]).frame_swept k
      seventhsTable
    rw [Iteration.swept_succ]
    exact sevenths_sweep_lt hframe.size_eq (hframe.value_eq 0 (by simp [iteration]))
      (hframe.value_eq 2 (by simp [iteration])) ih.2

/-- **An uncapped bound can be too small.** The bound of the two nodes of `sevenths` is 16
under every cap from 16 on, and their values have denominator 21. Whatever the settings,
given snapshots and a bound that is not capped, the iteration never ends. -/
theorem sevenths_not_returns {settings : SolverSettings} (hinterval : settings.checkInterval ≠ 0)
    (hcap : 16 ≤ settings.denominatorCap.toNat) :
    sevenths.denominatorBound [3, 4] settings.denominatorCap.toNat = ⟨16, false⟩ ∧
      ¬ (sevenths.iteration settings settings.buildApproximant [3, 4]).Returns seventhsTable := by
  have hbound : sevenths.denominatorBound [3, 4] settings.denominatorCap.toNat = ⟨16, false⟩ := by
    have hdata : DenominatorBound.Data.ofNodes sevenths [3, 4] = ⟨2, 2, 2⟩ := by
      decide +kernel
    have h4 : ¬ settings.denominatorCap.toNat < 4 := by omega
    have h16 : ¬ settings.denominatorCap.toNat < 16 := by omega
    simp [denominatorBound, hdata, DenominatorBound.cappedPower, h4, h16]
  refine ⟨hbound, ?_⟩
  obtain ⟨hs, hp, hv, hw⟩ := sevenths_setting
  rw [hs.returns_iff ⟨_, rfl⟩ hp hv (by decide) hw settings hinterval (by rw [hbound]; decide),
    hbound]
  intro h
  rcases h with hden | ⟨k, hval⟩
  · exact absurd (hden 3 List.mem_cons_self)
      (by norm_num [seventhsValues, ValueTable.value, ValueTable.get?])
  · have hlt := (sevenths_swept_lt settings k).1
    rw [hval 3 List.mem_cons_self] at hlt
    exact lt_irrefl _ hlt

/-- A draw that repeats itself, with weights in units of 1/4000000001. -/
def fineDraw : Game :=
  List.foldl perform empty
    [.addSink false, .addSink true, .addNode .average, .addEdge 2 2 (1100000000 / 4000000001),
      .addEdge 2 1 (300000000 / 4000000001), .addEdge 2 0 (2600000001 / 4000000001)]

/-- The values of `fineDraw`. -/
def fineDrawValues : ValueTable := ⟨#[0, 1, 100000000 / 966666667]⟩

/-- Snapshots after every third sweep, and the largest cap. -/
def largestCap : SolverSettings :=
  { checkInterval := 3, denominatorCap := 18446744073709551615 }

/-- **Beyond 2 ^ 63 a snapshot can need more than 64 bits.** The bound of the draw is not
capped and covers the denominator of its value, but the first snapshot of the iteration
fails, whatever the time. -/
theorem fineDraw_not_returns :
    fineDraw.Reachable ∧ fineDraw.Stopping ∧ fineDraw.WinLose ∧
      fineDraw.Solves fineDrawValues.value ∧ [2] ∈ fineDraw.plan.components ∧
      fineDraw.ExactOutside fineDrawValues.value [2] (.ofGame fineDraw) ∧
      fineDraw.denominatorBound [2] largestCap.denominatorCap.toNat =
        ⟨16000000008000000001, false⟩ ∧
      fineDraw.valueDenominator [2] fineDrawValues.value ≤ 16000000008000000001 ∧
      ¬ (fineDraw.iteration largestCap largestCap.buildApproximant [2]).Returns
        (.ofGame fineDraw) := by
  have hplan : fineDraw.plan = ⟨false, [[1], [0], [2]]⟩ :=
    plan_of_sorted [[1], [0], [2]] [0, 1, 2] (by decide +kernel) (by decide +kernel)
      (by decide +kernel) (by decide)
  have hthird : ((fineDraw.iteration largestCap largestCap.buildApproximant [2]).run 3 0
      (.ofGame fineDraw)).1 = .error .overflow := by decide +kernel
  refine ⟨⟨_, rfl⟩, stopping_of_isExitOrder [2, 1, 0] (by decide +kernel)
    (by decide +kernel) (by decide +kernel), winLose_of_forall (by decide +kernel),
    solves_of_isFixed (by decide +kernel), by rw [hplan]; decide,
    exactOutside_of_forall (by decide +kernel) (by decide +kernel), by decide +kernel,
    by decide +kernel, ?_⟩
  rintro ⟨budget, o, w', hrun⟩
  -- a run that ends ends in the same way when it is given other time
  have hsame : (fineDraw.iteration largestCap largestCap.buildApproximant [2]).run 3 0
      (.ofGame fineDraw) = (.ok o, w') := by
    rw [← hrun]
    cases Nat.le_total budget 3 with
    | inl hle => exact Iteration.run_of_le hle (by rw [hrun]; exact fun ⟨_, h⟩ => nomatch h)
    | inr hge =>
      exact (Iteration.run_of_le hge (by rw [hthird]; exact fun ⟨_, h⟩ => nomatch h)).symm
  rw [hsame] at hthird
  cases hthird

end Game

end StochasticGame
