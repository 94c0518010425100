import StochasticGame.Proofs.Reduction.Law
import StochasticGame.Proofs.Reduction.Lumping
import StochasticGame.Proofs.Reduction.MergePlan

/-!
# StochasticGame.Proofs.Reduction.Outflow

**What merges do to the probability law.** A merge leads the edges into the dropped node
to the kept one, so what leaves any other node stays the same in total. The kept node is
the exception: it takes over the loop of the dropped node on top of its own edges
(`Linked.outflow_contract`).

The rounds of fusion therefore add to the weights of a node exactly the loops of the
nodes that are merged into it (`Game.fusedLoops`). Alike nodes have equal edges, so if
the dropped node has a loop, the kept one has an edge of the same weight to it: the loop
is then counted twice, and the law is lost.
-/

namespace StochasticGame

theorem Node.sum_eq_weightedSum (n : Node) :
    (n.succs.entries.map Prod.snd).sum = n.weightedSum fun _ => 1 := by
  rw [weightedSum_const, mul_one]

namespace Game

variable {g h : Game} {plan : List (NodeId × NodeId)} {r keep drop : NodeId} {n : Node}

/-! ### One merge -/

/-- The total weight of the edges that leave a node. -/
def outflow (g : Game) (id : NodeId) : Rat :=
  ((g.node? id).map fun n => (n.succs.entries.map Prod.snd).sum).getD 0

theorem outflow_of_node? (hn : g.node? r = some n) :
    g.outflow r = (n.succs.entries.map Prod.snd).sum := by
  rw [outflow, hn]
  rfl

/-- The total may range over any set of nodes that includes the successors. -/
theorem outflow_eq_sum {S : Finset NodeId} (hS : ∀ s ∈ g.successors r, s ∈ S) :
    g.outflow r = ∑ s ∈ S, (g.weight? r s).getD 0 := by
  cases hn : g.node? r with
  | none =>
    rw [outflow, hn, Finset.sum_eq_zero fun s _ => by rw [weight?_of_not_live hn]; rfl]
    rfl
  | some n =>
    rw [successors_of_node? hn] at hS
    rw [outflow_of_node? hn, Node.sum_eq_weightedSum, n.weightedSum_eq_sum _ hS]
    refine Finset.sum_congr rfl fun s _ => ?_
    rw [weight?_of_node? hn, mul_one]

/-- **A merge adds the loop of the dropped node to what leaves the kept one**, and leaves
the total of every other node. -/
theorem Linked.outflow_contract (hl : h.Linked) (hkd : keep ≠ drop) (hk : h.contains keep = true)
    (hd : h.contains drop = true) (hr : r ≠ drop) :
    (h.contract keep drop).outflow r =
      h.outflow r + if keep = r then (h.weight? drop drop).getD 0 else 0 := by
  have hweight := fun s => hl.weight?_contract hkd hk hd r s
  -- only the edges to the merged nodes change
  have hother : ∀ s, s ≠ keep ∧ s ≠ drop → (h.contract keep drop).weight? r s = h.weight? r s := by
    intro s ⟨hsk, hsd⟩
    rw [hweight, if_neg (not_or.2 ⟨hr, hsd⟩), if_neg hsk]
  have hkeep : ((h.contract keep drop).weight? r keep).getD 0 = (h.weight? r keep).getD 0 +
      (h.weight? r drop).getD 0 + if keep = r then (h.weight? drop drop).getD 0 else 0 := by
    rw [hweight, if_neg (not_or.2 ⟨hr, hkd⟩), if_pos rfl, getD_mergedWeight?]
  have hdrop : ((h.contract keep drop).weight? r drop).getD 0 = 0 := by
    rw [hweight, if_pos (Or.inr rfl), Option.getD_none]
  have hS : ∀ s ∈ h.successors r, s ∈ insert keep (insert drop (h.successors r).toFinset) := by
    intro s hs
    simp [hs]
  have hS' : ∀ s ∈ (h.contract keep drop).successors r,
      s ∈ insert keep (insert drop (h.successors r).toFinset) := by
    intro s hs
    by_cases hm : s ≠ keep ∧ s ≠ drop
    · rw [mem_successors_iff, hother s hm, ← mem_successors_iff] at hs
      exact hS s hs
    · rw [← not_or, not_not] at hm
      cases hm with
      | inl hsk => simp [hsk]
      | inr hsd => simp [hsd]
  rw [outflow_eq_sum hS, outflow_eq_sum hS', ← sub_eq_iff_eq_add', ← Finset.sum_sub_distrib,
    Finset.sum_eq_add keep drop hkd]
  · rw [hkeep, hdrop]
    ring
  · intro s _ hs
    rw [hother s hs, sub_self]
  · intro hmem
    exact absurd (Finset.mem_insert_self _ _) hmem
  · intro hmem
    exact absurd (Finset.mem_insert_of_mem (Finset.mem_insert_self _ _)) hmem

/-! ### Planned merges -/

/-- The weights of the loops of the nodes that a plan merges into a node. -/
def loopsInto (h : Game) (plan : List (NodeId × NodeId)) (r : NodeId) : Rat :=
  (plan.map fun m => if m.1 = r then (h.weight? m.2 m.2).getD 0 else 0).sum

/-- A merge leaves the loops of the nodes that it does not touch. -/
theorem Linked.loopsInto_contract (hl : h.Linked) (hp : h.Feasible ((keep, drop) :: plan))
    (r : NodeId) : (h.contract keep drop).loopsInto plan r = h.loopsInto plan r := by
  obtain ⟨hkd, hk, hd⟩ := hp.head
  unfold loopsInto
  congr 1
  apply List.map_congr_left
  intro m hm
  have hmem : m.2 ∈ plan.map Prod.snd := List.mem_map_of_mem hm
  have hmd : m.2 ≠ drop := fun he => hp.not_mem_tail.2 (he ▸ hmem)
  have hmk : m.2 ≠ keep := fun he => hp.not_mem_tail.1 (he ▸ hmem)
  rw [hl.weight?_contract hkd hk hd, if_neg (not_or.2 ⟨hmd, hmd⟩), if_neg hmk]

/-- What a plan adds to the weights of a node that it leaves. -/
theorem Linked.outflow_mergeAll (hl : h.Linked) (hp : h.Feasible plan)
    (hr : r ∉ plan.map Prod.snd) :
    (h.mergeAll plan).outflow r = h.outflow r + h.loopsInto plan r := by
  unfold Game.mergeAll
  induction plan generalizing h with
  | nil => exact (add_zero _).symm
  | cons m plan ih =>
    obtain ⟨keep, drop⟩ := m
    obtain ⟨hkd, hk, hd⟩ := hp.head
    rw [List.map_cons, List.mem_cons, not_or] at hr
    calc (((keep, drop) :: plan).foldl (fun g m => g.contract m.1 m.2) h).outflow r
        = (h.contract keep drop).outflow r + (h.contract keep drop).loopsInto plan r :=
          ih (hl.contract keep drop) hp.tail hr.2
      _ = h.outflow r + (if keep = r then (h.weight? drop drop).getD 0 else 0) +
            h.loopsInto plan r := by
          rw [hl.outflow_contract hkd hk hd hr.1, hl.loopsInto_contract hp]
      _ = h.outflow r + h.loopsInto ((keep, drop) :: plan) r := by
          rw [loopsInto, loopsInto, List.map_cons, List.sum_cons, add_assoc]

/-! ### Rounds of fusion -/

/-- The weights of the loops that the given number of rounds merge into a node. -/
def roundLoops : Nat → Game → NodeId → Rat
  | 0, _, _ => 0
  | rounds + 1, g, r =>
    g.loopsInto g.nodeMerges r + roundLoops rounds (g.mergeAll g.nodeMerges) r

/-- The weights of the loops that fusion merges into a node. -/
def fusedLoops (g : Game) (r : NodeId) : Rat := g.roundLoops g.nodeCount r

theorem roundLoops_of_nil (hplan : g.nodeMerges = []) (rounds : Nat) (r : NodeId) :
    g.roundLoops rounds r = 0 := by
  induction rounds with
  | zero => rfl
  | succ rounds ih =>
    rw [roundLoops, hplan]
    show 0 + g.roundLoops rounds r = 0
    rw [ih, add_zero]

/-- What rounds of fusion add to the weights of a node that is left. -/
theorem Linked.outflow_fuseRounds (hl : g.Linked) (rounds : Nat) {f : Label × Option Rat}
    (hf : (Game.fuseRounds rounds g).2.face? r = some f) :
    (Game.fuseRounds rounds g).2.outflow r = g.outflow r + g.roundLoops rounds r := by
  induction rounds generalizing g with
  | zero => exact (add_zero _).symm
  | succ rounds ih =>
    cases hplan : g.nodeMerges with
    | nil => rw [fuseRounds_of_nil hplan, roundLoops_of_nil hplan, add_zero]
    | cons m plan =>
      have hround := fuseRounds_of_cons hplan rounds
      rw [hround, ← hplan] at hf
      rw [hround, ← hplan]
      -- a node that is left at the end was not dropped in the first round
      have hnot := (feasible_nodeMerges g).not_mem_drops (face?_of_fuseRounds hf)
      rw [ih (hl.mergeAll _) hf, hl.outflow_mergeAll (feasible_nodeMerges g) hnot, roundLoops,
        add_assoc]

/-! ### The law -/

/-- What fusion makes of the weights of an average node that is left. -/
theorem Linked.sum_fuseNodes (hl : g.Linked) (hlaw : g.Lawful)
    (hn : g.fuseNodes.2.node? r = some n) (havg : n.label = .average) :
    (n.succs.entries.map Prod.snd).sum = 1 + g.fusedLoops r := by
  have hf := face?_of_node? hn
  obtain ⟨m, hm, hl', -⟩ := face?_eq_some_iff.1 (face?_of_fuseRounds hf)
  calc (n.succs.entries.map Prod.snd).sum
      = g.fuseNodes.2.outflow r := (outflow_of_node? hn).symm
    _ = g.outflow r + g.fusedLoops r := hl.outflow_fuseRounds g.nodeCount hf
    _ = 1 + g.fusedLoops r := by
        rw [outflow_of_node? hm, hlaw r m hm (hl'.trans havg)]

/-- Without loops at average nodes the merges only rename successors. -/
theorem Linked.lawful_fuseNodes (hl : g.Linked) (hlaw : g.Lawful) (hloop : g.NoAverageLoop) :
    g.fuseNodes.2.Lawful := by
  intro r n hn havg
  have hlumps : Lumps g g.fuseNodes.2 := (Lumps.refl hl hloop).fuseNodes
  have hlive := hlumps.live r (contains_iff.2 ⟨n, hn⟩)
  obtain ⟨m, hm⟩ := contains_iff.1 hlive
  obtain ⟨r', k, hs, hk, hmir⟩ := hlumps.mirrors r m hm
  obtain rfl := (Stands.of_contains (contains_iff.2 ⟨n, hn⟩)).unique hs
  obtain rfl : n = k := Option.some_inj.1 (hn.symm.trans hk)
  have hm' : m.label = .average := hmir.label_eq.symm.trans havg
  calc (n.succs.entries.map Prod.snd).sum
      = n.weightedSum fun _ => 1 := n.sum_eq_weightedSum
    _ = m.weightedSum fun _ => 1 := hmir.weightedSum_eq hm' fun _ => 1
    _ = (m.succs.entries.map Prod.snd).sum := m.sum_eq_weightedSum.symm
    _ = 1 := hlaw r m hm hm'

/-- **What fusion does to the probability law.** Let the weights of every average node sum
to one. Then those of an average node that is left sum to one plus the loops of the nodes
that were merged into it. So fusion keeps the law exactly if these loops cancel at every
such node, and certainly if no average node leads to itself. -/
theorem lawful_fuseNodes_iff (hg : g.Linked) (hlaw : g.Lawful) :
    (∀ r n, g.fuseNodes.2.node? r = some n → n.label = .average →
      (n.succs.entries.map Prod.snd).sum = 1 + g.fusedLoops r) ∧
    (g.fuseNodes.2.Lawful ↔ ∀ r n, g.fuseNodes.2.node? r = some n → n.label = .average →
      g.fusedLoops r = 0) ∧
    (g.NoAverageLoop → g.fuseNodes.2.Lawful) := by
  have hsum : ∀ r n, g.fuseNodes.2.node? r = some n → n.label = .average →
      (n.succs.entries.map Prod.snd).sum = 1 + g.fusedLoops r :=
    fun _ _ hn havg => hg.sum_fuseNodes hlaw hn havg
  refine ⟨hsum, ?_, hg.lawful_fuseNodes hlaw⟩
  refine forall₂_congr fun r n => forall₂_congr fun hn havg => ?_
  rw [hsum r n hn havg, add_eq_left]

/-- Two pairs of coins: the first two may be thrown again by way of the first, the others
lead to the first two. -/
def lazyCoins : Game :=
  List.foldl perform empty
    [.addSink true, .addNode .average, .addNode .average, .addNode .average, .addNode .average,
      .addEdge 1 0 (1 / 2), .addEdge 1 1 (1 / 2), .addEdge 2 0 (1 / 2), .addEdge 2 1 (1 / 2),
      .addEdge 3 1 (1 / 3), .addEdge 3 2 (2 / 3), .addEdge 4 1 1]

/-- The law survives two rounds, although the coins that are merged can be thrown again:
only a loop of the dropped coin would do harm. -/
theorem lazyCoins_fused_lawful :
    lazyCoins.Linked ∧ lazyCoins.Lawful ∧ lazyCoins.fuseNodes.2.nodeIds = [0, 1, 3] ∧
      lazyCoins.fuseNodes.2.Lawful := by
  have hlinked : lazyCoins.Linked := Reachable.linked ⟨_, rfl⟩
  have hlaw : lazyCoins.Lawful := lawViolation?_eq_none_iff.1 (by decide +kernel)
  have hfirst : lazyCoins.nodeMerges = [(1, 2)] := by
    rw [nodeMerges_of_sorted (by decide +kernel)]
    decide +kernel
  have hsecond : (lazyCoins.mergeAll [(1, 2)]).nodeMerges = [(3, 4)] := by
    rw [nodeMerges_of_sorted (by decide +kernel)]
    decide +kernel
  have hthird : ((lazyCoins.mergeAll [(1, 2)]).mergeAll [(3, 4)]).nodeMerges = [] := by
    rw [nodeMerges_of_sorted (by decide +kernel)]
    decide +kernel
  have hcount : lazyCoins.nodeCount = 3 + 1 + 1 := by decide +kernel
  have hloops : lazyCoins.weight? 2 2 = none ∧
      (lazyCoins.mergeAll [(1, 2)]).weight? 4 4 = none := by decide +kernel
  refine ⟨hlinked, hlaw, ?_, (lawful_fuseNodes_iff hlinked hlaw).2.1.2 ?_⟩
  · rw [fuseNodes, hcount, fuseRounds_of_cons hfirst, fuseRounds_of_cons hsecond,
      fuseRounds_of_nil hthird]
    decide +kernel
  · intro r n _ _
    rw [fusedLoops, hcount, roundLoops, hfirst, roundLoops, hsecond, roundLoops_of_nil hthird]
    simp [loopsInto, hloops]

/-- Two coins that throw the second of them again. -/
def loopedCoins : Game :=
  List.foldl perform empty
    [.addSink true, .addNode .average, .addNode .average, .addEdge 1 0 (1 / 2),
      .addEdge 1 2 (1 / 2), .addEdge 2 0 (1 / 2), .addEdge 2 2 (1 / 2)]

/-- The coins are alike and are merged. The first has led to the second as often as the
second to itself, and now leads to itself twice as often. -/
theorem loopedCoins_fused_unlawful :
    loopedCoins.Linked ∧ loopedCoins.Lawful ∧
      loopedCoins.fuseNodes.2.lawViolation? = some ⟨1, 3 / 2⟩ := by
  have hplan : loopedCoins.nodeMerges = [(1, 2)] := by
    rw [nodeMerges_of_sorted (by decide +kernel)]
    decide +kernel
  have hdone : (loopedCoins.mergeAll [(1, 2)]).nodeMerges = [] := by
    rw [nodeMerges_of_sorted (by decide +kernel)]
    decide +kernel
  have hcount : loopedCoins.nodeCount = 2 + 1 := by decide +kernel
  refine ⟨Reachable.linked ⟨_, rfl⟩, lawViolation?_eq_none_iff.1 (by decide +kernel), ?_⟩
  rw [fuseNodes, hcount, fuseRounds_of_cons hplan, fuseRounds_of_nil hdone]
  decide +kernel

end Game

end StochasticGame
