import Mathlib.Order.Bounds.Basic
import Mathlib.Order.Nat
import StochasticGame.Proofs.Reduction.Fusion
import StochasticGame.Proofs.Reduction.Law

/-!
# StochasticGame.Proofs.Reduction.Correction

**When a run with correction fails.** The correction gives an average node with `n`
successors the weight `1 / n` on each edge, and these sum to one whatever `n` is. So the
check of the law can only find an average node without successors, whose weights sum to 0.
Which nodes these are is decided by the passes before: deleting a loop can take a node's last
edge, and merging two nodes that lead to one of them leaves nothing but a loop.

Correcting a game twice is correcting it once, and only weights at average nodes change.
-/

namespace StochasticGame

/-- The weights of a uniform node sum to one, unless there is none. -/
theorem Node.weightSum_uniform (n : Node) :
    n.uniform.weightSum = if n.successors = [] then 0 else 1 := by
  rw [weightSum_eq_sum, sum_uniform]
  split
  · rename_i hnil
    simp [hnil]
  · rename_i hne
    have hlength : (n.successors.length : Rat) ≠ 0 :=
      Nat.cast_ne_zero.2 (mt List.eq_nil_of_length_eq_zero hne)
    exact div_self hlength

namespace Game

variable {g : Game} {id : NodeId} {n : Node} {v : LawViolation} {passes : Passes}

/-! ### Correcting a game -/

/-- Changing a node into itself changes nothing. -/
theorem modify_eq_self {f : Node → Node} (hf : ∀ n, g.node? id = some n → f n = n) :
    g.modify id f = g := by
  unfold modify
  split
  · rename_i n hn
    have hlt : id < g.slots.size := lt_capacity_of_node? hn
    have hslot : g.slots[id] = .live n := by
      have hs := hn
      unfold node? at hs
      rw [Array.getElem?_eq_getElem hlt, Option.bind_some] at hs
      cases hslot : g.slots[id] <;> simp_all
    rw [hf n hn, ← hslot, Array.setIfInBounds_def, dif_pos hlt, Array.set_getElem_self]
  · rfl

/-- A game whose average nodes are uniform needs no correction. -/
theorem correctLaw_eq_self
    (huniform : ∀ id n, g.node? id = some n → n.label = .average → n.uniform = n) :
    g.correctLaw = g := by
  have hlisted : ∀ e ∈ g.nodes.filter (fun e => e.2.label = .average),
      g.modify e.1 Node.uniform = g := by
    intro e he
    obtain ⟨hmem, hl⟩ := List.mem_filter.1 he
    rw [mem_nodes] at hmem
    refine modify_eq_self ?_
    intro n hn
    obtain rfl := Option.some.inj (hmem.symm.trans hn)
    exact huniform e.1 e.2 hmem (of_decide_eq_true hl)
  unfold correctLaw
  generalize g.nodes.filter (fun e => e.2.label = .average) = l at hlisted
  induction l with
  | nil => rfl
  | cons e l ih =>
    rw [List.foldl_cons, hlisted e List.mem_cons_self]
    exact ih fun e' he' => hlisted e' (List.mem_cons_of_mem e he')

/-- **Correcting a game twice is correcting it once.** -/
theorem correctLaw_correctLaw (g : Game) : g.correctLaw.correctLaw = g.correctLaw := by
  refine correctLaw_eq_self ?_
  intro id n hn hl
  rw [node?_correctLaw, Option.map_eq_some_iff] at hn
  obtain ⟨m, -, rfl⟩ := hn
  by_cases hm : m.label = .average
  · rw [if_pos hm, Node.uniform_uniform]
  · rw [if_neg hm] at hl
    exact absurd hl hm

theorem node?_correctLaw_of_ne (hn : g.node? id = some n) (hl : n.label ≠ .average) :
    g.correctLaw.node? id = some n := by
  rw [node?_correctLaw, hn, Option.map_some, if_neg hl]

theorem predecessors_correctLaw (g : Game) (id : NodeId) :
    g.correctLaw.predecessors id = g.predecessors id := by
  rw [predecessors, predecessors, node?_correctLaw]
  cases g.node? id with
  | none => rfl
  | some n => by_cases hl : n.label = .average <;> simp [hl, Node.uniform]

/-! ### The first violation -/

/-- Nodes are listed by increasing id. -/
theorem pairwise_lt_nodes (g : Game) : g.nodes.Pairwise fun a b => a.1 < b.1 := by
  rw [nodes, List.pairwise_filterMap]
  refine List.pairwise_lt_range.imp ?_
  intro i j hij a ha b hb
  obtain ⟨n, -, rfl⟩ := Option.map_eq_some_iff.1 ha
  obtain ⟨m, -, rfl⟩ := Option.map_eq_some_iff.1 hb
  exact hij

/-- The check reports the violation with the lowest id. -/
theorem lawViolation?_spec (hv : g.lawViolation? = some v) :
    (∃ n, g.node? v.node = some n ∧ n.label = .average ∧ n.weightSum ≠ 1 ∧
      n.weightSum = v.sum) ∧
    ∀ id n, g.node? id = some n → n.label = .average → n.weightSum ≠ 1 → v.node ≤ id := by
  obtain ⟨⟨i, m⟩, hfind, rfl⟩ := Option.map_eq_some_iff.1 hv
  obtain ⟨hviolates, before, after, hsplit, hlawful⟩ := List.find?_eq_some_iff_append.1 hfind
  obtain ⟨hl, hsum⟩ := of_decide_eq_true hviolates
  have hm : g.node? i = some m := mem_nodes.1 (hsplit ▸ List.mem_append_right before
    List.mem_cons_self)
  refine ⟨⟨m, hm, hl, hsum, rfl⟩, ?_⟩
  intro id n hn hln hne
  have hmem : (id, n) ∈ before ++ (i, m) :: after := hsplit ▸ mem_nodes.2 hn
  cases List.mem_append.1 hmem with
  | inl hbefore =>
    have hnot := hlawful (id, n) hbefore
    simp [hln, hne] at hnot
  | inr hrest =>
    cases List.mem_cons.1 hrest with
    | inl heq => exact (congrArg Prod.fst heq).ge
    | inr hafter =>
      have hsorted := hsplit ▸ g.pairwise_lt_nodes
      exact ((List.pairwise_cons.1 (List.pairwise_append.1 hsorted).2.1).1 _ hafter).le

/-! ### Dead ends -/

/-- A live average node that leads nowhere. -/
def DeadEnd (g : Game) (id : NodeId) : Prop :=
  ∃ n, g.node? id = some n ∧ n.label = .average ∧ n.successors = []

/-- In a corrected game the violations of the law are the dead ends, with the sum 0. -/
theorem violates_correctLaw_iff {sum : Rat} :
    (∃ n, g.correctLaw.node? id = some n ∧ n.label = .average ∧ n.weightSum ≠ 1 ∧
      n.weightSum = sum) ↔ g.DeadEnd id ∧ sum = 0 := by
  constructor
  · intro hviolates
    obtain ⟨m, hm, hl, hne, hsum⟩ := hviolates
    rw [node?_correctLaw, Option.map_eq_some_iff] at hm
    obtain ⟨n, hn, rfl⟩ := hm
    by_cases hln : n.label = .average
    · rw [if_pos hln, Node.weightSum_uniform] at hne hsum
      by_cases hnil : n.successors = []
      · rw [if_pos hnil] at hsum
        exact ⟨⟨n, hn, hln, hnil⟩, hsum.symm⟩
      · rw [if_neg hnil] at hne
        exact absurd rfl hne
    · rw [if_neg hln] at hl
      exact absurd hl hln
  · intro hdead
    obtain ⟨⟨n, hn, hl, hnil⟩, rfl⟩ := hdead
    have hzero : n.uniform.weightSum = 0 := by rw [Node.weightSum_uniform, if_pos hnil]
    refine ⟨n.uniform, ?_, hl, ?_, hzero⟩
    · rw [node?_correctLaw, hn, Option.map_some, if_pos hl]
    · rw [hzero]
      exact zero_ne_one

/-- The check of a corrected game reports its first dead end. -/
theorem lawViolation?_correctLaw_iff :
    g.correctLaw.lawViolation? = some v ↔ IsLeast {id | g.DeadEnd id} v.node ∧ v.sum = 0 := by
  have hleast : ∀ u, g.correctLaw.lawViolation? = some u →
      IsLeast {id | g.DeadEnd id} u.node ∧ u.sum = 0 := by
    intro u hu
    obtain ⟨hviolates, hfirst⟩ := lawViolation?_spec hu
    obtain ⟨hdead, hsum⟩ := violates_correctLaw_iff.1 hviolates
    refine ⟨⟨hdead, ?_⟩, hsum⟩
    intro id hid
    obtain ⟨n, hn, hl, hne, -⟩ := violates_correctLaw_iff.2 ⟨hid, rfl⟩
    exact hfirst id n hn hl hne
  refine ⟨hleast v, ?_⟩
  intro hv
  obtain ⟨n, hn, hl, hne, -⟩ := violates_correctLaw_iff.2 ⟨hv.1.1, rfl⟩
  cases hu : g.correctLaw.lawViolation? with
  | none =>
    rw [n.weightSum_eq_sum] at hne
    exact absurd (lawViolation?_eq_none_iff.1 hu v.node n hn hl) hne
  | some u =>
    obtain ⟨hnode, hsum⟩ := hleast u hu
    obtain ⟨i, s⟩ := u
    obtain ⟨j, t⟩ := v
    obtain rfl : i = j := hnode.unique hv.1
    obtain rfl : s = t := hsum.trans hv.2.symm
    rfl

/-! ### Runs with correction -/

/-- The game that the enabled passes leave before probabilities are corrected. -/
def uncorrected (passes : Passes) (g : Game) : Game :=
  let promoted := (g.passIf passes.promoteSinks promoteAll).2
  let pruned := (promoted.passIf passes.pruneSinks prune).2
  let mergedSinks := (pruned.passIf passes.fuseNodes fuseSinks).2
  let mergedNodes := (mergedSinks.passIf passes.fuseNodes fuseNodes).2
  (mergedNodes.passIf passes.deleteSelfLoops deleteSelfLoops).2

theorem reduce_snd_of_correct (hc : passes.correctProbabilities = true) :
    (g.reduce passes).2 = (g.uncorrected passes).correctLaw := by
  rw [reduce_snd]
  exact if_pos hc

/-- A run fails with the violation that the check of its result finds. -/
theorem reduce_error_iff :
    (g.reduce passes).1 = .error v ↔ (g.reduce passes).2.lawViolation? = some v := by
  cases g.reduce_cases passes with
  | inl herror =>
    obtain ⟨u, hu, herr⟩ := herror
    simp [herr, hu]
  | inr hok =>
    obtain ⟨hnone, stats, hstats⟩ := hok
    simp [hstats, hnone]

/-- **A run with correction fails only for a dead end.** It fails exactly if the passes before
the correction leave a live average node without successors, and it then reports the lowest
one, with the sum 0. Correcting a game twice is correcting it once; the successors and
predecessors of every node stay as they are and in their order, and so do the weights that
leave a player or a sink. -/
theorem corrected_run_fails_iff (hc : passes.correctProbabilities = true) (g : Game) :
    ((∃ violation, (g.reduce passes).1 = .error violation) ↔
        ∃ id, (g.uncorrected passes).DeadEnd id) ∧
      (∀ violation, (g.reduce passes).1 = .error violation ↔
        IsLeast {id | (g.uncorrected passes).DeadEnd id} violation.node ∧ violation.sum = 0) ∧
      ∀ h : Game, h.correctLaw.correctLaw = h.correctLaw ∧
        (∀ id, h.correctLaw.successors id = h.successors id ∧
          h.correctLaw.predecessors id = h.predecessors id) ∧
        ∀ id n, h.node? id = some n → n.label ≠ .average →
          ∀ v, h.correctLaw.weight? id v = h.weight? id v := by
  have hfails : ∀ violation, (g.reduce passes).1 = .error violation ↔
      IsLeast {id | (g.uncorrected passes).DeadEnd id} violation.node ∧ violation.sum = 0 := by
    intro violation
    rw [reduce_error_iff, reduce_snd_of_correct hc, lawViolation?_correctLaw_iff]
  refine ⟨⟨?_, ?_⟩, hfails, ?_⟩
  · intro hfailed
    obtain ⟨violation, hviolation⟩ := hfailed
    exact ⟨violation.node, ((hfails violation).1 hviolation).1.1⟩
  · intro hdead
    classical
    refine ⟨⟨Nat.find hdead, 0⟩, (hfails _).2 ⟨⟨Nat.find_spec hdead, ?_⟩, rfl⟩⟩
    intro id hid
    exact Nat.find_min' hdead hid
  · intro h
    refine ⟨h.correctLaw_correctLaw, fun id => ⟨h.successors_correctLaw id,
      h.predecessors_correctLaw id⟩, ?_⟩
    intro id n hn hl v
    rw [weight?_of_node? hn, weight?_of_node? (node?_correctLaw_of_ne hn hl)]

/-- A maximizer who leads to a coin and a sink, a coin that leads to another one, which leads
to itself, and a coin that leads nowhere. -/
def spinningCoins : Game :=
  List.foldl perform empty
    [.addNode .max, .addNode .average, .addNode .average, .addNode .average, .addSink true,
      .addEdge 0 1 1, .addEdge 0 4 1, .addEdge 1 2 1, .addEdge 2 2 1]

/-- The two spinning coins are merged, which leaves a loop, and with the loop goes the last
edge. So the first of them is reported, before the coin that led nowhere all along. -/
theorem spinningCoins_run_fails :
    ({} : Passes).correctProbabilities = true ∧ (spinningCoins.reduce {}).1 = .error ⟨1, 0⟩ ∧
      (∀ id, (spinningCoins.uncorrected {}).DeadEnd id ↔ id = 1 ∨ id = 3) ∧
      spinningCoins.correctLaw.correctLaw = spinningCoins.correctLaw := by
  have hfirst : spinningCoins.promoteAll.2.prune.2.fuseSinks.2.nodeMerges = [(1, 2)] := by
    rw [nodeMerges_of_sorted (by decide +kernel)]
    decide +kernel
  have hsecond :
      (spinningCoins.promoteAll.2.prune.2.fuseSinks.2.mergeAll [(1, 2)]).nodeMerges = [] := by
    rw [nodeMerges_of_sorted (by decide +kernel)]
    decide +kernel
  have hcount : spinningCoins.promoteAll.2.prune.2.fuseSinks.2.nodeCount = 4 + 1 := by
    decide +kernel
  have hgame : spinningCoins.uncorrected {} =
      (spinningCoins.promoteAll.2.prune.2.fuseSinks.2.mergeAll [(1, 2)]).deleteSelfLoops.2 := by
    simp only [uncorrected, passIf, if_true]
    rw [fuseNodes, hcount, fuseRounds_of_cons hfirst, fuseRounds_of_nil hsecond]
  have hlisted : ∀ e ∈ (spinningCoins.uncorrected {}).nodes,
      e.2.label = .average ∧ e.2.successors = [] ↔ e.1 = 1 ∨ e.1 = 3 := by
    rw [hgame]
    decide +kernel
  have hlive : 1 ∈ (spinningCoins.uncorrected {}).nodeIds ∧
      3 ∈ (spinningCoins.uncorrected {}).nodeIds := by
    rw [hgame]
    decide +kernel
  have hdead : ∀ id, (spinningCoins.uncorrected {}).DeadEnd id ↔ id = 1 ∨ id = 3 := by
    intro id
    constructor
    · intro hid
      obtain ⟨n, hn, hl, hnil⟩ := hid
      exact (hlisted (id, n) (mem_nodes.2 hn)).1 ⟨hl, hnil⟩
    · intro hid
      obtain ⟨n, hn⟩ : ∃ n, (spinningCoins.uncorrected {}).node? id = some n := by
        cases hid with
        | inl he => exact he ▸ mem_nodeIds.1 hlive.1
        | inr he => exact he ▸ mem_nodeIds.1 hlive.2
      exact ⟨n, hn, (hlisted (id, n) (mem_nodes.2 hn)).2 hid⟩
  obtain ⟨-, hfails, hcorrect⟩ :=
    corrected_run_fails_iff (rfl : Passes.correctProbabilities {} = true) spinningCoins
  refine ⟨rfl, (hfails _).2 ⟨⟨(hdead 1).2 (Or.inl rfl), ?_⟩, rfl⟩, hdead,
    (hcorrect spinningCoins).1⟩
  intro id hid
  cases (hdead id).1 hid with
  | inl he => exact he.ge
  | inr he => exact he ▸ (by decide : 1 ≤ 3)

end Game

end StochasticGame
