import StochasticGame.Proofs.Solver.Termination

/-!
# StochasticGame.Proofs.Solver.Backward

**Games without cycles.** The values of the successors determine the value of a node.
If no node lies on a cycle, this is a recursion that starts at the nodes without
successors (`backwardValue`), and it has no other solution.

The plan of such a game lists every node alone and after its successors. The iteration
of a single node gives it its value in one sweep and has nothing to change in the next,
so the solver takes two sweeps for a node, and what it reports is the recursion.
-/

namespace StochasticGame

/-! ### The recursion -/

namespace Node

/-- The value of a node, given the values of its successors. A player without successors
has its known value. What is not known counts as 0. -/
def valueFrom (n : Node) (v : NodeId → Rat) : Rat :=
  match n.label with
  | .sink => n.known.getD 0
  | .max => (n.successors.map v).max?.getD (n.known.getD 0)
  | .min => (n.successors.map v).min?.getD (n.known.getD 0)
  | .average => n.weightedSum v

variable {n : Node} {v v' : NodeId → Rat} {x : Rat}

theorem valueFrom_congr (h : ∀ s ∈ n.successors, v s = v' s) :
    n.valueFrom v = n.valueFrom v' := by
  unfold valueFrom
  rw [List.map_congr_left h, weightedSum_congr h]

/-- Where the operator gives a value, it is this one. -/
theorem Yields.valueFrom_eq (hx : n.Yields v x) : n.valueFrom v = x := by
  unfold Yields at hx
  unfold valueFrom
  cases hl : n.label with
  | sink =>
    rw [hl] at hx
    exact congrArg (Option.getD · 0) hx
  | max =>
    rw [hl] at hx
    have hmax : (n.successors.map v).max? = some x :=
      List.max?_eq_some_iff.2 ⟨List.mem_map.2 hx.1, List.forall_mem_map.2 hx.2⟩
    simp [hmax]
  | min =>
    rw [hl] at hx
    have hmin : (n.successors.map v).min? = some x :=
      List.min?_eq_some_iff.2 ⟨List.mem_map.2 hx.1, List.forall_mem_map.2 hx.2⟩
    simp [hmin]
  | average =>
    rw [hl] at hx
    exact hx

end Node

namespace Game

variable {g : Game} {id : NodeId} {n : Node} {w : ValueTable}

/-- A game without cycles is solved node by node. -/
theorem Linked.components_of_acyclic (hg : g.Linked) (ha : g.Acyclic) :
    g.plan.components = g.digraph.postOrder.map ([·]) := by
  have hplan := hg.plan_acyclic_iff.2 ha
  unfold plan at hplan ⊢
  dsimp only at hplan ⊢
  split
  · rfl
  · rename_i hcyclic
    rw [if_neg hcyclic] at hplan
    cases hplan

/-- Without cycles, component numbers go down along edges. -/
theorem Acyclic.rank (ha : g.Acyclic) (hg : g.Linked) :
    ∀ u ∈ g.digraph.vertices, ∀ w ∈ g.digraph.next u,
      Digraph.componentOf g.digraph.components w < Digraph.componentOf g.digraph.components u := by
  have hd := hg.digraph_closed
  apply (Digraph.IsSchedule.components hd).rank_of_isAcyclic
  rw [Digraph.isAcyclic_components_iff hd]
  exact fun u _ w hw hback => ha u ⟨w, hw, hback⟩

/-- Without cycles, paths of successors end. -/
theorem Acyclic.wellFounded (ha : g.Acyclic) (hg : g.Linked) :
    WellFounded fun s id => s ∈ g.successors id := by
  refine Subrelation.wf ?_ (measure (Digraph.componentOf g.digraph.components)).wf
  intro s id hs
  exact ha.rank hg id (mem_nodeIds.2 (contains_iff.1 (contains_of_mem_successors hs))) s hs

/-- **Backward induction.** The values of a game whose paths end, from the nodes without
successors on. -/
def backwardValue (g : Game) (hends : WellFounded fun s id => s ∈ g.successors id)
    (id : NodeId) : Rat :=
  match g.node? id with
  | none => 0
  | some n =>
    n.valueFrom fun s => if _ : s ∈ g.successors id then g.backwardValue hends s else 0
termination_by hends.wrap id
decreasing_by assumption

theorem backwardValue_of_node? (hends : WellFounded fun s id => s ∈ g.successors id)
    (hn : g.node? id = some n) :
    g.backwardValue hends id = n.valueFrom (g.backwardValue hends) := by
  rw [backwardValue, hn]
  apply Node.valueFrom_congr
  intro s hs
  rw [dif_pos (by rwa [successors_of_node? hn])]

/-- Players without successors have a known value of 0 or 1, or none. -/
def Anchored (g : Game) : Prop :=
  ∀ id n, g.node? id = some n → n.label = .max ∨ n.label = .min → n.successors = [] →
    n.known = none ∨ n.known = some 0 ∨ n.known = some 1

/-- Where no operator gives a value, the recursion ends. -/
theorem Idle.valueFrom_eq (h : g.Idle id) (hn : g.node? id = some n) (v : NodeId → Rat) :
    n.valueFrom v = n.known.getD 0 := by
  obtain ⟨n', hn', hcases⟩ := h.cases
  obtain rfl := Option.some_inj.1 (hn.symm.trans hn')
  unfold Node.valueFrom
  rcases hcases with ⟨hl | hl, hs⟩ | ⟨hl, -⟩
  · simp [hl, hs]
  · simp [hl, hs]
  · simp [hl]

/-- **Reported values satisfy the recursion.** -/
theorem Anchored.value_eq_valueFrom {settings : SolverSettings} {pace : Nat} {sol : Solution}
    (hk : g.Anchored) (hg : g.Linked) (h : g.solve settings pace = .ok sol)
    (hn : g.node? id = some n) : sol.values.value id = n.valueFrom sol.values.value := by
  by_cases hi : g.Idle id
  · rw [hi.valueFrom_eq hn]
    refine value_of_idle h hi (face?_of_node? hn) ?_
    obtain ⟨n', hn', hcases⟩ := hi.cases
    obtain rfl := Option.some_inj.1 (hn.symm.trans hn')
    rcases hcases with ⟨hl, hs⟩ | ⟨-, hnone⟩
    · exact hk id n hn hl hs
    · exact Or.inl hnone
  · exact ((hg.solves_of_solve h).yields hn hi).valueFrom_eq.symm

/-- Backward induction is the only solution of the recursion. -/
theorem Linked.eq_backwardValue (hg : g.Linked)
    (hends : WellFounded fun s id => s ∈ g.successors id) {v : NodeId → Rat}
    (hv : ∀ id n, g.node? id = some n → v id = n.valueFrom v) (hid : g.contains id = true) :
    v id = g.backwardValue hends id := by
  induction id using hends.induction with
  | _ id ih =>
    obtain ⟨n, hn⟩ := contains_iff.1 hid
    rw [hv id n hn, backwardValue_of_node? hends hn]
    apply Node.valueFrom_congr
    intro s hs
    rw [← successors_of_node? hn] at hs
    exact ih s hs (hg.contains_target hs)

/-! ### One node at a time -/

/-- A sweep of a single node that does not lead to itself leaves it at its value. -/
theorem fixedAt_sweep_alone (hloop : id ∉ g.successors id) (hlt : id < w.size) :
    g.FixedAt (g.sweep [id] w).2.value id := by
  intro n hn x hx
  -- its successors are where they were before
  have hyields : n.Yields w.value x := by
    refine (Node.yields_congr ?_).1 hx
    intro s hs
    apply (g.frame_sweep [id] w).value_eq s
    intro hmem
    rw [List.mem_singleton] at hmem
    rw [← successors_of_node? hn, hmem] at hs
    exact hloop hs
  exact value_update hlt (step?_eq_some_iff.2 ⟨n, hn, hyields⟩)

end Game

namespace Iteration

variable {it : Iteration} {budget done : Nat} {w w' : ValueTable} {o : Outcome}

/-- An iteration reports no more sweeps than its budget allows. -/
theorem sweeps_le_of_run (h : it.run budget done w = (.ok o, w')) : o.sweeps ≤ done + budget := by
  induction budget generalizing done w with
  | zero => simp [run] at h
  | succ budget ih =>
    simp only [run_succ] at h
    split_ifs at h
    · simp at h
    · simp at h
    · obtain ⟨rfl, -⟩ := Prod.mk.inj h |>.imp_left Except.ok.inj
      show done + 1 ≤ done + (budget + 1)
      omega
    · have hle := ih h
      omega
    · obtain ⟨rfl, -⟩ := Prod.mk.inj h |>.imp_left Except.ok.inj
      show done + 1 ≤ done + (budget + 1)
      omega
    · simp at h

end Iteration

namespace Game

variable {g : Game} {id : NodeId} {w : ValueTable} {settings : SolverSettings} {pace : Nat}

/-- A single node that does not lead to itself is solved in two sweeps, if there is time
for them. -/
theorem Linked.solveNodes_alone (hg : g.Linked) (hcap : settings.denominatorCap.toNat ≤ 2 ^ 63)
    (hid : g.contains id = true) (hloop : id ∉ g.successors id) (hw : w.size = g.capacity) :
    ∃ o w', o.sweeps ≤ 2 ∧ w'.size = g.capacity ∧
      (g.solveNodes settings settings.buildApproximant pace [id] w = (.ok o, w') ∨
        settings.sweepBudget pace < 2 ∧
          TimedOut (g.solveNodes settings settings.buildApproximant pace [id] w).1) := by
  let it := g.iteration settings settings.buildApproximant [id]
  have hbound : (g.denominatorBound [id] settings.denominatorCap.toNat).value ≤ 2 ^ 63 :=
    (g.denominatorBound_value_le [id] _).trans (max_le hcap (by norm_num))
  have hfree : it.Unhindered w.size := hw ▸ hg.unhindered (by simpa using hid) hbound
  -- the first sweep gives the node its value, and the second finds nothing to change
  have hfix : ∀ j ∈ it.ids, it.game.FixedAt (it.swept 1 w).value j := by
    intro j hj
    obtain rfl := List.mem_singleton.1 hj
    exact fixedAt_sweep_alone hloop (hw ▸ lt_capacity_of_contains hid)
  obtain ⟨o, w', hrun⟩ := hfree.run_of_swept hfix
  have hended : ¬ TimedOut (it.run 2 0 w).1 := by
    rw [hrun]
    exact not_timedOut_ok o
  refine ⟨o, w', by simpa using Iteration.sweeps_le_of_run hrun,
    (Iteration.ends_of_run hrun).frame.size_eq.trans hw, ?_⟩
  show it.run (settings.sweepBudget pace) 0 w = _ ∨
    _ ∧ TimedOut (it.run (settings.sweepBudget pace) 0 w).1
  by_cases hle : 2 ≤ settings.sweepBudget pace
  · exact Or.inl ((Iteration.run_of_le hle hended).trans hrun)
  · by_cases ht : TimedOut (it.run (settings.sweepBudget pace) 0 w).1
    · exact Or.inr ⟨not_le.1 hle, ht⟩
    · exact Or.inl ((Iteration.run_of_le (not_le.1 hle).le ht).symm.trans hrun)

/-- Single nodes that do not lead to themselves are solved one after another, in two
sweeps each, if there is time for them. -/
theorem Linked.solveComponents_alone (hg : g.Linked)
    (hcap : settings.denominatorCap.toNat ≤ 2 ^ 63) (ids : List NodeId)
    (hids : ∀ id ∈ ids, g.contains id = true ∧ id ∉ g.successors id) (s : Solution)
    (hs : s.values.size = g.capacity) :
    (∃ sol, g.solveComponents settings settings.buildApproximant pace (ids.map ([·])) s = .ok sol ∧
      sol.stats.acyclic = s.stats.acyclic ∧
      sol.stats.sweeps ≤ s.stats.sweeps + 2 * ids.length) ∨
    settings.sweepBudget pace < 2 ∧
      TimedOut (g.solveComponents settings settings.buildApproximant pace (ids.map ([·])) s) := by
  induction ids generalizing s with
  | nil => exact Or.inl ⟨s, rfl, rfl, Nat.le_refl _⟩
  | cons id ids ih =>
    obtain ⟨hid, hloop⟩ := hids id List.mem_cons_self
    rw [List.map_cons]
    obtain ⟨o, w, hsweeps, hw, hrun | ⟨hshort, ht⟩⟩ := hg.solveNodes_alone hcap hid hloop hs
    · rw [solveComponents, hrun]
      dsimp only
      cases ih (fun j hj => hids j (List.mem_cons_of_mem id hj)) (s.record 1 o w) hw with
      | inl hends =>
        obtain ⟨sol, hsol, hacyclic, hle⟩ := hends
        refine Or.inl ⟨sol, hsol, hacyclic, hle.trans ?_⟩
        show s.stats.sweeps + o.sweeps + 2 * ids.length ≤ s.stats.sweeps + 2 * (ids.length + 1)
        omega
      | inr hcut => exact Or.inr hcut
    · exact Or.inr ⟨hshort, timedOut_solveComponents ht _⟩

/-- A run on a game without cycles takes at most two sweeps for each live node, and fails
only if there is no time for them. -/
theorem Acyclic.solve_cases (ha : g.Acyclic) (hg : g.Linked)
    (hcap : settings.denominatorCap.toNat ≤ 2 ^ 63) :
    (∃ sol, g.solve settings pace = .ok sol ∧ sol.stats.acyclic = true ∧
      sol.stats.sweeps ≤ 2 * g.nodeCount) ∨
    settings.sweepBudget pace < 2 ∧ TimedOut (g.solve settings pace) := by
  obtain ⟨hnodup, hmem, -⟩ := Digraph.postOrder_of_rank hg.digraph_closed (ha.rank hg)
  have hlength : g.digraph.postOrder.length = g.nodeCount := by
    have hperm : g.digraph.postOrder.Perm g.nodeIds :=
      (List.perm_ext_iff_of_nodup hnodup g.nodup_nodeIds).2 hmem
    rw [hperm.length_eq, nodeIds, List.length_map, nodeCount]
  have hids : ∀ id ∈ g.digraph.postOrder, g.contains id = true ∧ id ∉ g.successors id := by
    intro id hid
    exact ⟨contains_iff.2 (mem_nodeIds.1 ((hmem id).1 hid)), fun hs => ha id ⟨id, hs, .refl⟩⟩
  let start : Solution :=
    ⟨.ofGame g, { acyclic := g.plan.acyclic, components := g.plan.components.length }, []⟩
  have hsolve : g.solve settings pace =
      g.solveComponents settings settings.buildApproximant pace
        (g.digraph.postOrder.map ([·])) start := by
    rw [← hg.components_of_acyclic ha]
    rfl
  rw [hsolve]
  cases hg.solveComponents_alone hcap g.digraph.postOrder hids start (ValueTable.size_ofGame g) with
  | inl hends =>
    obtain ⟨sol, hsol, hacyclic, hle⟩ := hends
    refine Or.inl ⟨sol, hsol, hacyclic.trans (hg.plan_acyclic_iff.2 ha), ?_⟩
    rw [← hlength]
    exact hle.trans_eq (Nat.zero_add _)
  | inr hcut => exact Or.inr hcut

/-- **Games without cycles are solved by backward induction.** Let players without
successors have a known value of 0 or 1, or none. Whatever the weights, and whatever is
known at other nodes, a run that is not cut short reports the backward recursion for
every live node, after at most two sweeps for each. Time for two sweeps of a component is
enough. -/
theorem solve_eq_backwardValue (hg : g.Reachable) (ha : g.Acyclic) (hk : g.Anchored)
    (settings : SolverSettings) (hcap : settings.denominatorCap.toNat ≤ 2 ^ 63) (pace : Nat) :
    (2 ≤ settings.sweepBudget pace → ¬ TimedOut (g.solve settings pace)) ∧
    (¬ TimedOut (g.solve settings pace) → ∃ sol, g.solve settings pace = .ok sol ∧
      sol.stats.acyclic = true ∧ sol.stats.sweeps ≤ 2 * g.nodeCount ∧
      ∀ id, g.contains id = true →
        sol.value? id = some (g.backwardValue (ha.wellFounded hg.linked) id)) := by
  have hl := hg.linked
  cases ha.solve_cases hl hcap with
  | inl hends =>
    obtain ⟨sol, hsol, hacyclic, hsweeps⟩ := hends
    refine ⟨?_, fun _ => ⟨sol, hsol, hacyclic, hsweeps, ?_⟩⟩
    · intro _
      rw [hsol]
      exact not_timedOut_ok sol
    · intro id hid
      rw [hl.value?_of_solve hsol hid]
      congr 1
      exact hl.eq_backwardValue _ (fun id n hn => hk.value_eq_valueFrom hl hsol hn) hid
  | inr hcut =>
    obtain ⟨hshort, hcut⟩ := hcut
    exact ⟨fun hle => absurd hle (not_le.2 hshort), fun hended => absurd hcut hended⟩

/-- A minimizer who chooses between a sure win and a maximizer, who chooses between a
loss and an average node whose weights exceed 1. The maximizer starts far off its value. -/
def descent : Game :=
  List.foldl perform empty
    [.addSink false, .addSink true, .addNode .average, .addNode .max, .addNode .min,
      .addNode .min, .addEdge 2 1 (3 / 2), .addEdge 2 0 (1 / 4), .addEdge 3 2 1, .addEdge 3 0 1,
      .setKnown 3 (some (-7 / 5)), .setKnown 4 (some 1), .addEdge 5 3 1, .addEdge 5 4 1]

/-- The values of `descent`, by hand. -/
def descentValue (id : NodeId) : Rat := [0, 1, 3 / 2, 3 / 2, 1, 1].getD id 0

theorem descent_solve_eq_backwardValue :
    ¬ TimedOut (descent.solve { checkInterval := 1 } 1) ∧
    ∃ sol, descent.solve { checkInterval := 1 } 1 = .ok sol ∧ sol.stats.acyclic = true ∧
      sol.stats.sweeps ≤ 2 * 6 ∧
      ∀ id, descent.contains id = true → sol.value? id = some (descentValue id) := by
  have hreach : descent.Reachable := ⟨_, rfl⟩
  have hlinked := hreach.linked
  have ha : descent.Acyclic := hlinked.plan_acyclic_iff.1 (by decide +kernel)
  have hanchored : ∀ e ∈ descent.nodes, e.2.label = .max ∨ e.2.label = .min →
      e.2.successors = [] → e.2.known = none ∨ e.2.known = some 0 ∨ e.2.known = some 1 := by
    decide +kernel
  have hvalues : ∀ e ∈ descent.nodes, descentValue e.1 = e.2.valueFrom descentValue := by
    decide +kernel
  have hcount : descent.nodeCount = 6 := by decide +kernel
  obtain ⟨htime, hsolved⟩ := solve_eq_backwardValue hreach ha
    (fun id n hn => hanchored (id, n) (mem_nodes.2 hn)) { checkInterval := 1 } (by decide) 1
  obtain ⟨sol, hsol, hacyclic, hsweeps, hvalue⟩ := hsolved (htime (by decide))
  refine ⟨htime (by decide), sol, hsol, hacyclic, hcount ▸ hsweeps, ?_⟩
  intro id hid
  rw [hvalue id hid, ← hlinked.eq_backwardValue _ _ hid]
  exact fun id n hn => hvalues (id, n) (mem_nodes.2 hn)

end Game

end StochasticGame
