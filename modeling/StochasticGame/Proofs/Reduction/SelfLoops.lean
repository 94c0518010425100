import StochasticGame.Proofs.Reduction.Law
import StochasticGame.Proofs.Reduction.Lumping
import StochasticGame.Proofs.Solver.LeastSolution

/-!
# StochasticGame.Proofs.Reduction.SelfLoops

**Who may wait.** A player with an edge to itself can wait, and a play that waits forever
is worth 0. Deleting self-loops takes that move away.

* A solution without the loops is one with them: the loop offers the value that the node
  has (`NonnegSolution.of_deleteSelfLoops`).
* A maximizer gains nothing by waiting. In the least solution it could be lowered to the
  best of its other moves, so it has that value.
* A minimizer that can wait has value 0 in the least solution. Without the loop it has the
  least value of its other moves, so the solution is kept exactly if one of those is worth 0
  too (`WaitsInVain`).
-/

namespace StochasticGame

/-! ### A node without its loop -/

/-- Only players wait. -/
theorem Node.waits_cases {n : Node} {j : NodeId}
    (havg : n.label = .average → j ∉ n.successors) : (n.label = .sink ∨ j ∉ n.successors) ∨
    j ∈ n.successors ∧ (n.label = .max ∨ n.label = .min) := by
  by_cases hself : j ∈ n.successors
  · cases hl : n.label with
    | sink => exact Or.inl (Or.inl rfl)
    | average => exact absurd hself (havg hl)
    | max => exact Or.inr ⟨hself, Or.inl rfl⟩
    | min => exact Or.inr ⟨hself, Or.inr rfl⟩
  · exact Or.inl (Or.inr hself)

/-- `m` is `n` without its edge to `j`. -/
structure Node.Unlooped (j : NodeId) (n m : Node) : Prop where
  /-- The labels agree. -/
  label_eq : m.label = n.label
  /-- The known values agree. -/
  known_eq : m.known = n.known
  /-- The other edges are left. -/
  mem_successors : ∀ s, s ∈ m.successors ↔ s ≠ j ∧ s ∈ n.successors
  /-- Without a loop nothing changes. -/
  entries_perm : j ∉ n.successors → m.succs.entries.Perm n.succs.entries

namespace Node.Unlooped

variable {j : NodeId} {n m : Node} {v : NodeId → Rat} {x : Rat}

theorem mirrors (h : n.Unlooped j m) (hself : n.label = .sink ∨ j ∉ n.successors) :
    n.Mirrors id m := by
  by_cases hsink : n.label = .sink
  · exact .of_sinks hsink (h.label_eq.trans hsink) h.known_eq
  · exact .of_perm hsink h.label_eq (h.entries_perm (hself.resolve_left hsink))

/-- A node that cannot wait has to have the same value. -/
theorem yields_iff (h : n.Unlooped j m) (hself : n.label = .sink ∨ j ∉ n.successors) :
    n.Yields v x ↔ m.Yields v x :=
  (h.mirrors hself).yields_iff v x

variable (havg : n.label = .average → j ∉ n.successors)

include havg

/-- Unless a player waits, it has to have the same value without the loop. -/
theorem yields_or (h : n.Unlooped j m) (hx : n.Yields v x) : v j = x ∨ m.Yields v x := by
  cases waits_cases havg with
  | inl hself => exact Or.inr ((h.yields_iff hself).1 hx)
  | inr hwaits =>
    have hmem : ∀ {s}, s ∈ n.successors → v s = x → v j = x ∨ ∃ s ∈ m.successors, v s = x := by
      intro s hs he
      by_cases hsj : s = j
      · exact Or.inl (hsj ▸ he)
      · exact Or.inr ⟨s, (h.mem_successors s).2 ⟨hsj, hs⟩, he⟩
    have hsub : ∀ s ∈ m.successors, s ∈ n.successors := fun s hs => ((h.mem_successors s).1 hs).2
    unfold Yields at hx ⊢
    rw [h.label_eq]
    cases hwaits.2 with
    | inl hmax =>
      rw [hmax] at hx ⊢
      obtain ⟨⟨s, hs, he⟩, hle⟩ := hx
      exact (hmem hs he).imp_right fun hex => ⟨hex, fun t ht => hle t (hsub t ht)⟩
    | inr hmin =>
      rw [hmin] at hx ⊢
      obtain ⟨⟨s, hs, he⟩, hle⟩ := hx
      exact (hmem hs he).imp_right fun hex => ⟨hex, fun t ht => hle t (hsub t ht)⟩

/-- A condition that no operator raises a valuation survives, except at a minimizer that can
wait. -/
theorem yields_le (h : n.Unlooped j m) (hmin : n.label = .min → j ∉ n.successors)
    (hle : ∀ x, n.Yields v x → x ≤ v j) : ∀ x, m.Yields v x → x ≤ v j := by
  intro x hx
  cases waits_cases havg with
  | inl hself => exact hle x ((h.yields_iff hself).2 hx)
  | inr hwaits =>
    have hmax : n.label = .max := hwaits.2.resolve_right fun hl => hmin hl hwaits.1
    rw [forall_yields_le_iff, hmax] at hle
    rw [Yields, h.label_eq, hmax] at hx
    obtain ⟨⟨s, hs, rfl⟩, -⟩ := hx
    exact hle s ((h.mem_successors s).1 hs).2

end Node.Unlooped

namespace Game

variable {g : Game} {id : NodeId} {n m : Node} {w : ValueTable}

theorem unlooped_of_node? (hn : g.node? id = some n)
    (hm : g.deleteSelfLoops.2.node? id = some m) : n.Unlooped id m := by
  have hface := face?_deleteSelfLoops g id
  rw [face?_of_node? hn, face?_of_node? hm, Option.some_inj, Prod.mk.injEq] at hface
  refine ⟨hface.1, hface.2, ?_, ?_⟩
  · intro s
    rw [← successors_of_node? hm, ← successors_of_node? hn, mem_successors_deleteSelfLoops,
      ne_comm]
  · intro hself
    refine OrdMap.entries_perm fun s => ?_
    have hweight := weight?_deleteSelfLoops g id s
    rw [weight?_of_node? hn, weight?_of_node? hm] at hweight
    refine hweight.trans ?_
    split
    · rename_i he
      subst he
      rw [Node.successors, OrdMap.mem_keys_iff, Option.not_isSome_iff_eq_none] at hself
      exact hself.symm
    · rfl

theorem exists_unlooped (hn : g.node? id = some n) :
    ∃ m, g.deleteSelfLoops.2.node? id = some m ∧ n.Unlooped id m := by
  obtain ⟨m, hm⟩ := contains_iff.1 ((contains_deleteSelfLoops g id).trans (contains_iff.2 ⟨n, hn⟩))
  exact ⟨m, hm, unlooped_of_node? hn hm⟩

theorem exists_looped (hm : g.deleteSelfLoops.2.node? id = some m) :
    ∃ n, g.node? id = some n ∧ n.Unlooped id m := by
  obtain ⟨n, hn⟩ :=
    contains_iff.1 ((contains_deleteSelfLoops g id).symm.trans (contains_iff.2 ⟨m, hm⟩))
  exact ⟨n, hn, unlooped_of_node? hn hm⟩

theorem NoAverageLoop.not_mem (hloop : g.NoAverageLoop) (hn : g.node? id = some n) :
    n.label = .average → id ∉ n.successors :=
  hloop (id, n) (mem_nodes.2 hn)

theorem NonnegWeights.deleteSelfLoops (hw : g.NonnegWeights) (hloop : g.NoAverageLoop) :
    g.deleteSelfLoops.2.NonnegWeights := by
  intro id m hm hl e he
  obtain ⟨n, hn, hu⟩ := exists_looped hm
  have havg : n.label = .average := hu.label_eq.symm.trans hl
  exact hw id n hn havg e ((hu.entries_perm (hloop.not_mem hn havg)).mem_iff.1 he)

/-! ### Solutions with and without loops -/

/-- **A solution without the loops is one with them.** -/
theorem NonnegSolution.of_deleteSelfLoops (hs : g.deleteSelfLoops.2.NonnegSolution w)
    (hloop : g.NoAverageLoop) : g.NonnegSolution w where
  size_eq := hs.size_eq.trans (capacity_deleteSelfLoops g)
  nonneg id hid := hs.nonneg id ((contains_deleteSelfLoops g id).trans hid)
  solves id x hx := by
    obtain ⟨n, hn, hyields⟩ := step?_eq_some_iff.1 hx
    obtain ⟨m, hm, hu⟩ := exists_unlooped hn
    exact (hu.yields_or (hloop.not_mem hn) hyields).elim (fun he => he) (hs.fixedAt id m hm x)

/-- Waiting gains no minimizer anything: one that can wait or move has another move to a
node of value 0. -/
def WaitsInVain (g : Game) (w : ValueTable) : Prop :=
  ∀ id n, g.node? id = some n → n.label = .min → id ∈ n.successors →
    (∃ s ∈ n.successors, s ≠ id) → ∃ s ∈ n.successors, s ≠ id ∧ w.value s = 0

/-- Then a minimizer that can wait does not have to have a positive value without its loop. -/
theorem WaitsInVain.yields_nonpos (hvain : g.WaitsInVain w) (hn : g.node? id = some n)
    (hmin : n.label = .min) (hself : id ∈ n.successors) (hu : n.Unlooped id m)
    {v : NodeId → Rat} (hv : ∀ s, w.value s = 0 → v s ≤ 0) {x : Rat} (hx : m.Yields v x) :
    x ≤ 0 := by
  rw [Node.Yields, hu.label_eq, hmin] at hx
  obtain ⟨⟨s, hs, -⟩, hleast⟩ := hx
  obtain ⟨hsid, hsn⟩ := (hu.mem_successors s).1 hs
  obtain ⟨t, ht, htid, hzero⟩ := hvain id n hn hmin hself ⟨s, hsn, hsid⟩
  exact (hleast t ((hu.mem_successors t).2 ⟨htid, ht⟩)).trans (hv t hzero)

section Least

variable (hg : g.Linked) (hw : g.NonnegWeights)

include hg hw

/-- The least solution is not above a value to which a node can be lowered alone. -/
theorem LeastSolution.le_of_update (hl : g.LeastSolution w) (hn : g.node? id = some n) {y : Rat}
    (hy : 0 ≤ y) (hle : ∀ x, n.Yields (Function.update w.value id y) x → x ≤ y) :
    w.value id ≤ y := by
  by_contra hlt
  rw [not_le] at hlt
  have hsuper : g.Supersolution (Function.update w.value id y) := by
    refine hl.supersolution.update hw hlt.le ?_
    intro m hm
    obtain rfl : n = m := Option.some_inj.1 (hn.symm.trans hm)
    exact hle
  have hbelow := hl.le_of_supersolution hg hw hsuper
    (fun j hj => update_nonneg hy (hl.nonneg j hj)) (contains_iff.2 ⟨n, hn⟩)
  rw [Function.update_self] at hbelow
  exact absurd hbelow (not_le.2 hlt)

/-- A minimizer that can wait has value 0. -/
theorem LeastSolution.eq_zero_of_waits (hl : g.LeastSolution w) (hn : g.node? id = some n)
    (hmin : n.label = .min) (hself : id ∈ n.successors) : w.value id = 0 := by
  refine le_antisymm (hl.le_of_update hg hw hn le_rfl ?_) (hl.nonneg id (contains_iff.2 ⟨n, hn⟩))
  rw [Node.forall_yields_le_iff, hmin]
  exact Or.inr ⟨id, hself, (Function.update_self ..).le⟩

/-- A maximizer has the best value of its other moves. -/
theorem LeastSolution.eq_of_waits (hl : g.LeastSolution w) (hn : g.node? id = some n)
    (hmax : n.label = .max) (hu : n.Unlooped id m) {x : Rat} (hx : m.Yields w.value x) :
    w.value id = x := by
  rw [Node.Yields, hu.label_eq, hmax] at hx
  obtain ⟨⟨s, hs, rfl⟩, hbest⟩ := hx
  have hsn := ((hu.mem_successors s).1 hs).2
  have hsuper := hl.supersolution id n hn
  rw [Node.forall_yields_le_iff, hmax] at hsuper
  refine le_antisymm ?_ (hsuper s hsn)
  refine hl.le_of_update hg hw hn (hl.nonneg s (hg.contains_successor hn hsn)) ?_
  rw [Node.forall_yields_le_iff, hmax]
  intro t ht
  by_cases htid : t = id
  · rw [htid, Function.update_self]
  · rw [Function.update_of_ne htid]
    exact hbest t ((hu.mem_successors t).2 ⟨htid, ht⟩)

/-- If the least solution is kept, waiting was in vain. -/
theorem LeastSolution.waitsInVain (hl : g.LeastSolution w)
    (hl' : g.deleteSelfLoops.2.LeastSolution w) : g.WaitsInVain w := by
  intro id n hn hmin hself ⟨s, hs, hsid⟩
  obtain ⟨m, hm, hu⟩ := exists_unlooped hn
  have hlabel : m.label = .min := hu.label_eq.trans hmin
  obtain ⟨x, hx⟩ := Node.exists_yields_of_mem (Or.inr hlabel)
    ((hu.mem_successors s).2 ⟨hsid, hs⟩) w.value
  have hzero := hl.eq_zero_of_waits hg hw hn hmin hself
  rw [hl'.fixedAt id m hm x hx] at hzero
  rw [Node.Yields, hlabel] at hx
  obtain ⟨⟨t, ht, he⟩, -⟩ := hx
  obtain ⟨htid, htn⟩ := (hu.mem_successors t).1 ht
  exact ⟨t, htn, htid, he.trans hzero⟩

variable (hloop : g.NoAverageLoop)

include hloop

/-- If waiting is in vain, the least solution solves the game without the loops. -/
theorem LeastSolution.solves_deleteSelfLoops (hl : g.LeastSolution w) (hvain : g.WaitsInVain w) :
    g.deleteSelfLoops.2.NonnegSolution w where
  size_eq := hl.size_eq.trans (capacity_deleteSelfLoops g).symm
  nonneg id hid := hl.nonneg id ((contains_deleteSelfLoops g id).symm.trans hid)
  solves id x hx := by
    obtain ⟨m, hm, hyields⟩ := step?_eq_some_iff.1 hx
    obtain ⟨n, hn, hu⟩ := exists_looped hm
    cases Node.waits_cases (hloop.not_mem hn) with
    | inl hself => exact hl.fixedAt id n hn x ((hu.yields_iff hself).2 hyields)
    | inr hwaits =>
      obtain ⟨hself, hmax | hmin⟩ := hwaits
      · exact hl.eq_of_waits hg hw hn hmax hu hyields
      · -- both the node and its best other move are worth 0
        have hle := hvain.yields_nonpos hn hmin hself hu (fun s hs => hs.le) hyields
        rw [Node.Yields, hu.label_eq, hmin] at hyields
        obtain ⟨⟨s, hs, rfl⟩, -⟩ := hyields
        rw [hl.eq_zero_of_waits hg hw hn hmin hself]
        have hlive := hg.contains_successor hn ((hu.mem_successors s).1 hs).2
        exact le_antisymm (hl.nonneg s hlive) hle

theorem LeastSolution.deleteSelfLoops (hl : g.LeastSolution w) (hvain : g.WaitsInVain w) :
    g.deleteSelfLoops.2.LeastSolution w where
  toNonnegSolution := hl.solves_deleteSelfLoops hg hw hloop hvain
  least w' hw' id hid := hl.least w' (hw'.of_deleteSelfLoops hloop) id
    ((contains_deleteSelfLoops g id).symm.trans hid)

/-- If waiting is in vain, no solution with the loops is below the least one without. -/
theorem LeastSolution.of_deleteSelfLoops (hl : g.deleteSelfLoops.2.LeastSolution w)
    (hvain : g.WaitsInVain w) : g.LeastSolution w where
  toNonnegSolution := hl.toNonnegSolution.of_deleteSelfLoops hloop
  least w' hw' id hid := by
    have hsuper : g.deleteSelfLoops.2.Supersolution fun j => min (w.value j) (w'.value j) := by
      intro j m hm x hx
      obtain ⟨n, hn, hu⟩ := exists_looped hm
      by_cases hwaits : n.label = .min ∧ j ∈ n.successors
      · -- the move of value 0 is worth 0 in both
        have hle := hvain.yields_nonpos hn hwaits.1 hwaits.2 hu
          (fun s hs => (min_le_left _ _).trans hs.le) hx
        have hnonneg := hl.nonneg j (contains_iff.2 ⟨m, hm⟩)
        have hnonneg' := hw'.nonneg j (contains_iff.2 ⟨n, hn⟩)
        exact hle.trans (le_min hnonneg hnonneg')
      · refine hx.le_min (hw.deleteSelfLoops hloop j m hm) (hl.supersolution j m hm) ?_
        exact hu.yields_le (hloop.not_mem hn) (fun hmin hself => hwaits ⟨hmin, hself⟩)
          (hw'.supersolution j n hn)
    have hlive := (contains_deleteSelfLoops g id).trans hid
    have hle := hl.le_of_supersolution hg.deleteSelfLoops (hw.deleteSelfLoops hloop) hsuper
      (fun j hj => le_min (hl.nonneg j hj)
        (hw'.nonneg j ((contains_deleteSelfLoops g j).symm.trans hj))) hlive
    exact hle.trans (min_le_right _ _)

end Least

/-- **Deleting self-loops keeps the least solution exactly if no minimizer gains by
waiting.** In particular it does if only maximizers lead to themselves. In any case it
lowers no value. -/
theorem leastSolution_deleteSelfLoops (hg : g.Linked) (hw : g.NonnegWeights)
    (hloop : g.NoAverageLoop) (w : ValueTable) :
    (g.WaitsInVain w → (g.LeastSolution w ↔ g.deleteSelfLoops.2.LeastSolution w)) ∧
      (g.LeastSolution w → g.deleteSelfLoops.2.LeastSolution w → g.WaitsInVain w) ∧
      ((∀ id n, g.node? id = some n → n.label = .min → id ∉ n.successors) →
        (g.LeastSolution w ↔ g.deleteSelfLoops.2.LeastSolution w)) ∧
      ∀ w', g.LeastSolution w → g.deleteSelfLoops.2.LeastSolution w' →
        ∀ id, g.contains id = true → w.value id ≤ w'.value id := by
  have hiff : g.WaitsInVain w → (g.LeastSolution w ↔ g.deleteSelfLoops.2.LeastSolution w) :=
    fun hvain => ⟨fun hl => hl.deleteSelfLoops hg hw hloop hvain,
      fun hl => hl.of_deleteSelfLoops hg hw hloop hvain⟩
  refine ⟨hiff, fun hl hl' => hl.waitsInVain hg hw hl', ?_, ?_⟩
  · intro hmax
    exact hiff fun id n hn hmin hself => absurd hself (hmax id n hn hmin)
  · intro w' hl hl' id hid
    exact hl.least w' (hl'.toNonnegSolution.of_deleteSelfLoops hloop) id hid

/-- A maximizer that can wait, lose or toss a coin which wins or comes back to it, and a
minimizer that can wait, lose or win. -/
def patience : Game :=
  List.foldl perform empty
    [.addSink false, .addSink true, .addNode .max, .addNode .min, .addNode .average,
      .addEdge 2 2 1, .addEdge 2 0 1, .addEdge 2 4 1, .addEdge 3 3 1, .addEdge 3 0 1,
      .addEdge 3 1 1, .addEdge 4 1 (1 / 2), .addEdge 4 2 (1 / 2)]

/-- The least solution of `patience`. -/
def patienceValues : ValueTable := ⟨#[0, 1, 1, 0, 1]⟩

/-- The maximizer wins without waiting, and the minimizer can lose at once. -/
theorem patience_leastSolution :
    patience.Linked ∧ patience.NonnegWeights ∧ patience.NoAverageLoop ∧
      patience.WaitsInVain patienceValues ∧ patience.LeastSolution patienceValues ∧
      patience.deleteSelfLoops.2.LeastSolution patienceValues := by
  have hg : patience.Linked := Reachable.linked ⟨_, rfl⟩
  have hchecked : patience.NonnegWeights ∧ patience.NoAverageLoop ∧
      patience.NonnegSolution patienceValues ∧ patience.nodeIds = [0, 1, 2, 3, 4] ∧
      ∀ e ∈ patience.nodes, e.2.label = .min → e.1 ∈ e.2.successors →
        ∃ s ∈ e.2.successors, s ≠ e.1 ∧ patienceValues.value s = 0 := by
    decide +kernel
  obtain ⟨hw, hloop, hsolution, hids, hmoves⟩ := hchecked
  have hvain : patience.WaitsInVain patienceValues := fun id n hn hmin hself _ =>
    hmoves (id, n) (mem_nodes.2 hn) hmin hself
  have hleast : patience.LeastSolution patienceValues := by
    refine hsolution.leastSolution hids ?_
    intro w' hw'
    have hwin : w'.value 1 = 1 := hw'.solves 1 1 rfl
    have hcoin : w'.value 4 = 0 + 1 / 2 * w'.value 1 + 1 / 2 * w'.value 2 := hw'.solves 4 _ rfl
    have hmax : ∀ s ∈ [2, 0, 4], w'.value s ≤ w'.value 2 :=
      Node.forall_yields_le_iff.1 (hw'.supersolution 2 _ rfl)
    have hbest : w'.value 4 ≤ w'.value 2 := hmax 4 (by decide)
    rw [List.forall_mem_cons, List.forall_mem_cons, List.forall_mem_cons, List.forall_mem_cons,
      List.forall_mem_singleton]
    refine ⟨hw'.nonneg 0 rfl, hwin.ge, ?_, hw'.nonneg 3 rfl, ?_⟩
    · show 1 ≤ w'.value 2
      linarith
    · show 1 ≤ w'.value 4
      linarith
  exact ⟨hg, hw, hloop, hvain, hleast,
    ((leastSolution_deleteSelfLoops hg hw hloop patienceValues).1 hvain).1 hleast⟩

/-- A minimizer that can wait or move to a sink that pays 1. -/
def standoff : Game :=
  List.foldl perform empty [.addSink true, .addNode .min, .addEdge 1 1 1, .addEdge 1 0 1]

/-- Only players lead to themselves, and they have another move. Still the minimizer, which
is worth 0 while it can wait, is worth 1 when it has to move. -/
theorem standoff_leastSolution_changes :
    standoff.Linked ∧ standoff.Proper ∧ standoff.NoAverageLoop ∧
      (∀ e ∈ standoff.nodes, e.1 ∈ e.2.successors →
        (e.2.label = .max ∨ e.2.label = .min) ∧ ∃ s ∈ e.2.successors, s ≠ e.1) ∧
      standoff.LeastSolution ⟨#[1, 0]⟩ ∧ ¬ standoff.deleteSelfLoops.2.LeastSolution ⟨#[1, 0]⟩ ∧
      standoff.deleteSelfLoops.2.LeastSolution ⟨#[1, 1]⟩ ∧ ¬ standoff.LeastSolution ⟨#[1, 1]⟩ := by
  have hsolution : standoff.NonnegSolution ⟨#[1, 0]⟩ ∧
      ¬ standoff.deleteSelfLoops.2.NonnegSolution ⟨#[1, 0]⟩ ∧
      standoff.deleteSelfLoops.2.NonnegSolution ⟨#[1, 1]⟩ := by
    decide +kernel
  obtain ⟨hbefore, hnot, hafter⟩ := hsolution
  refine ⟨Reachable.linked ⟨_, rfl⟩, by decide, by decide, by decide,
    hbefore.leastSolution (show _ = [0, 1] from rfl) ?_, fun hl => hnot hl.toNonnegSolution,
    hafter.leastSolution (show _ = [0, 1] from rfl) ?_, ?_⟩
  · intro w' hw'
    rw [List.forall_mem_cons, List.forall_mem_singleton]
    exact ⟨(hw'.solves 0 1 rfl).ge, hw'.nonneg 1 rfl⟩
  · intro w' hw'
    have hsink : w'.value 0 = 1 := hw'.solves 0 1 rfl
    have hmin : w'.value 1 = w'.value 0 := hw'.solves 1 _ rfl
    rw [List.forall_mem_cons, List.forall_mem_singleton]
    exact ⟨hsink.ge, (hmin.trans hsink).ge⟩
  · intro hl
    exact absurd (hl.least _ hbefore 1 rfl) (by decide)

end Game

end StochasticGame
