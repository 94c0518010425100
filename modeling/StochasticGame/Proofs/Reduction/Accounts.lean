import StochasticGame.Proofs.Reduction.Law
import StochasticGame.Proofs.Reduction.NormalForm
import StochasticGame.Proofs.Reduction.Trimming

/-!
# StochasticGame.Proofs.Reduction.Accounts

**The counters of a reduction run add up.** A pass counts what it plans: sinks to prune,
merges to make, loops to delete. That these are also the nodes and edges that are gone
afterwards is stated pass by pass (`Removes`), and the accounts of passes that follow one
another are added.

* Plans are feasible, so every planned merge finds both nodes live and removes one of them.
* A merge renames the dropped node in every edge, the loop of the dropped node included
  (`mergedEdge`). So every edge that it leaves is made from one that was there, and a run
  adds no edge, however often edges are led elsewhere.
-/

namespace StochasticGame.Game

variable {g h k : Game} {keep drop : NodeId} {nodes edges nodes' edges' : Nat}

/-! ### The account of a pass -/

/-- A change that removes so many nodes, and at least so many edges. -/
structure Removes (nodes edges : Nat) (g h : Game) : Prop where
  /-- The nodes that are left and those that are gone make up all nodes. -/
  nodeCount_eq : h.nodeCount + nodes = g.nodeCount
  /-- The edges that are left and those that are known to be gone are among all edges. -/
  edgeCount_le : h.edgeCount + edges ≤ g.edgeCount

namespace Removes

theorem refl (g : Game) : Removes 0 0 g g := ⟨rfl, le_rfl⟩

theorem trans (hgh : Removes nodes edges g h) (hhk : Removes nodes' edges' h k) :
    Removes (nodes + nodes') (edges + edges') g k where
  nodeCount_eq := by
    have hfirst := hgh.nodeCount_eq
    have hsecond := hhk.nodeCount_eq
    omega
  edgeCount_le := by
    have hfirst := hgh.edgeCount_le
    have hsecond := hhk.edgeCount_le
    omega

/-- A change that keeps all nodes and adds no edge. -/
theorem of_same_nodes (hsame : ∀ id, h.contains id = g.contains id)
    (hsub : ∀ a b, b ∈ h.successors a → b ∈ g.successors a) : Removes 0 0 g h :=
  ⟨nodeCount_congr hsame, Game.edgeCount_le hsub⟩

end Removes

/-- What holds of a pass with its counter, and of the game as it is with the count 0, holds
of a pass that runs only if it is enabled. -/
theorem of_passIf {P : Nat → Game → Prop} {pass : Game → Nat × Game} {enabled : Bool}
    {count : Nat} (hp : g.passIf enabled pass = (count, h)) (idle : P 0 g)
    (run : P (pass g).1 (pass g).2) : P count h := by
  unfold passIf at hp
  split at hp
  · rwa [hp] at run
  · obtain ⟨rfl, rfl⟩ := Prod.mk.inj hp
    exact idle

/-! ### Promotion and pruning -/

theorem removes_promoteAll (g : Game) : Removes 0 0 g g.promoteAll.2 :=
  .of_same_nodes (contains_promoteAll g) fun _ _ hedge => (mem_successors_promoteAll.1 hedge).2

theorem nodup_orphanSinks (g : Game) : g.orphanSinks.Nodup :=
  (List.filter_sublist.map Prod.fst).nodup g.nodup_nodeIds

/-- Every orphan is live, so each removal takes one node. -/
theorem nodeCount_prune (g : Game) : g.prune.2.nodeCount + g.prune.1 = g.nodeCount := by
  refine nodeCount_add_length g.nodup_orphanSinks ?_ fun _ => contains_prune_iff
  intro id hid
  obtain ⟨⟨k, hf⟩, -⟩ := mem_orphanSinks.1 hid
  rw [contains_eq_isSome_face?, hf]
  rfl

theorem Linked.removes_prune (hg : g.Linked) : Removes g.prune.1 0 g g.prune.2 :=
  ⟨g.nodeCount_prune, hg.edgeCount_prune_le⟩

/-! ### Merges -/

/-- An edge once `drop` is read as `keep`. -/
def mergedEdge (keep drop : NodeId) (e : NodeId × NodeId) : NodeId × NodeId :=
  (if e.1 = drop then keep else e.1, if e.2 = drop then keep else e.2)

/-- Every edge after a merge is a renamed edge from before it. -/
theorem Linked.exists_mergedEdge (hg : g.Linked) (hkd : keep ≠ drop)
    (hk : g.contains keep = true) (hd : g.contains drop = true) {a b : NodeId}
    (hedge : b ∈ (g.contract keep drop).successors a) :
    ∃ u v, v ∈ g.successors u ∧ mergedEdge keep drop (u, v) = (a, b) := by
  rw [mem_successors_iff, hg.weight?_contract hkd hk hd] at hedge
  split at hedge
  · cases hedge
  rename_i hne
  obtain ⟨ha, hb⟩ := not_or.1 hne
  split at hedge
  · rename_i hbk
    subst hbk
    rcases (g.isSome_mergedWeight?_iff b drop a).1 hedge with hkeep | hdrop | ⟨rfl, hloop⟩
    · exact ⟨a, b, hkeep, by simp [mergedEdge, ha, hb]⟩
    · exact ⟨a, drop, hdrop, by simp [mergedEdge, ha]⟩
    · -- the loop of the dropped node is now one of the kept node
      exact ⟨drop, drop, hloop, by simp [mergedEdge]⟩
  · exact ⟨a, b, mem_successors_iff.2 hedge, by simp [mergedEdge, ha, hb]⟩

theorem Linked.edgeCount_contract_le (hg : g.Linked) (hkd : keep ≠ drop)
    (hk : g.contains keep = true) (hd : g.contains drop = true) :
    (g.contract keep drop).edgeCount ≤ g.edgeCount :=
  edgeCount_le_of_image (mergedEdge keep drop) fun _ _ hedge =>
    hg.exists_mergedEdge hkd hk hd hedge

theorem Linked.edgeCount_mergeAll_le (hg : g.Linked) (plan : List (NodeId × NodeId)) :
    (g.mergeAll plan).edgeCount ≤ g.edgeCount := by
  refine (mergeAll_invariant (P := fun h => h.Linked ∧ h.edgeCount ≤ g.edgeCount)
    ⟨hg, le_rfl⟩ plan ?_).2
  intro h keep drop hh hkd hk hd
  exact ⟨hh.1.contract keep drop, (hh.1.edgeCount_contract_le hkd hk hd).trans hh.2⟩

theorem Linked.removes_fuseSinks (hg : g.Linked) : Removes g.fuseSinks.1 0 g g.fuseSinks.2 :=
  ⟨(feasible_sinkMerges g).nodeCount_mergeAll, hg.edgeCount_mergeAll_le g.sinkMerges⟩

/-- The accounts of the rounds of fusion are added. -/
theorem Linked.removes_of_fuses {count : Nat} (hg : g.Linked) (hf : Fuses g count h) :
    Removes count 0 g h := by
  induction hf with
  | done _ => exact .refl _
  | round hplan _ ih =>
    have hround : Removes _ 0 _ _ := ⟨nodeCount_nodeMerges hplan, hg.edgeCount_mergeAll_le _⟩
    exact hround.trans (ih (hg.mergeAll _))

theorem Linked.removes_fuseNodes (hg : g.Linked) : Removes g.fuseNodes.1 0 g g.fuseNodes.2 :=
  hg.removes_of_fuses (fuses_fuseNodes g)

/-! ### Self-loops and the law -/

theorem mem_loopedNodes {id : NodeId} : id ∈ g.loopedNodes ↔ id ∈ g.successors id := by
  rw [mem_successors_iff, loopedNodes, List.mem_map]
  constructor
  · intro h
    obtain ⟨⟨j, n⟩, he, rfl⟩ := h
    obtain ⟨hn, hloop⟩ := List.mem_filter.1 he
    rwa [weight?_of_node? (mem_nodes.1 hn)]
  · intro hloop
    obtain ⟨n, hn⟩ := contains_iff.1 (contains_of_mem_successors (mem_successors_iff.2 hloop))
    rw [weight?_of_node? hn] at hloop
    exact ⟨(id, n), List.mem_filter.2 ⟨mem_nodes.2 hn, hloop⟩, rfl⟩

/-- The loops that are counted are the edges that are gone. -/
theorem edgeCount_deleteSelfLoops (g : Game) :
    g.deleteSelfLoops.2.edgeCount + g.deleteSelfLoops.1 = g.edgeCount := by
  have hnodup : (g.loopedNodes.map fun id => (id, id)).Nodup :=
    ((List.filter_sublist.map Prod.fst).nodup g.nodup_nodeIds).map fun _ _ he =>
      congrArg Prod.fst he
  have hcount := edgeCount_add_length (g := g) (h := g.deleteSelfLoops.2) hnodup ?_ ?_
  · rwa [List.length_map] at hcount
  · intro e he
    obtain ⟨id, hid, rfl⟩ := List.mem_map.1 he
    exact mem_loopedNodes.1 hid
  · intro a b
    rw [mem_successors_deleteSelfLoops, List.mem_map]
    rw [and_congr_left_iff]
    intro hedge
    rw [not_iff_not]
    constructor
    · intro hab
      exact ⟨a, mem_loopedNodes.2 (hab ▸ hedge), by rw [hab]⟩
    · intro hloop
      obtain ⟨id, -, he⟩ := hloop
      obtain ⟨rfl, rfl⟩ := Prod.mk.inj he
      rfl

theorem removes_deleteSelfLoops (g : Game) :
    Removes 0 g.deleteSelfLoops.1 g g.deleteSelfLoops.2 :=
  ⟨nodeCount_congr (contains_deleteSelfLoops g), g.edgeCount_deleteSelfLoops.le⟩

theorem removes_correctLaw (g : Game) : Removes 0 0 g g.correctLaw :=
  .of_same_nodes (contains_correctLaw g) fun a b hedge => by rwa [successors_correctLaw] at hedge

/-! ### A whole run -/

/-- What a run that succeeds has done, and where its counters come from. -/
theorem exists_passes_of_reduce {passes : Passes} {stats : ReductionStats}
    (hok : g.reduce passes = (.ok stats, h)) :
    ∃ g₁ g₂ g₃ g₄ g₅ : Game,
      g.passIf passes.promoteSinks promoteAll = (stats.promoted, g₁) ∧
      g₁.passIf passes.pruneSinks prune = (stats.pruned, g₂) ∧
      g₂.passIf passes.fuseNodes fuseSinks = (stats.fusedSinks, g₃) ∧
      g₃.passIf passes.fuseNodes fuseNodes = (stats.fusedNodes, g₄) ∧
      g₄.passIf passes.deleteSelfLoops deleteSelfLoops = (stats.selfLoops, g₅) ∧
      h = (if passes.correctProbabilities then g₅.correctLaw else g₅) ∧
      (stats.nodesBefore = g.nodeCount ∧ stats.edgesBefore = g.edgeCount) ∧
      stats.nodesAfter = h.nodeCount ∧ stats.edgesAfter = h.edgeCount := by
  unfold Game.reduce at hok
  dsimp only at hok
  split at hok
  · cases hok
  · obtain ⟨hstats, rfl⟩ := Prod.mk.inj hok
    obtain rfl := Except.ok.inj hstats
    exact ⟨_, _, _, _, _, rfl, rfl, rfl, rfl, rfl, rfl, ⟨rfl, rfl⟩, rfl, rfl⟩

/-- **The counters of a reduction run add up.** In the report of a run that succeeds, the
nodes after the run and those that were pruned or merged make up the nodes before it, and the
edges after it together with the deleted self-loops are no more than the edges before it.
What is reported as before and after are the counts of the game before and after. -/
theorem reduction_accounts (hg : g.Linked) {passes : Passes} {stats : ReductionStats}
    (hok : g.reduce passes = (.ok stats, h)) :
    stats.nodesAfter + stats.pruned + stats.fusedSinks + stats.fusedNodes = stats.nodesBefore ∧
      stats.edgesAfter + stats.selfLoops ≤ stats.edgesBefore ∧
      (stats.nodesBefore = g.nodeCount ∧ stats.edgesBefore = g.edgeCount) ∧
      stats.nodesAfter = h.nodeCount ∧ stats.edgesAfter = h.edgeCount := by
  obtain ⟨g₁, g₂, g₃, g₄, g₅, h₁, h₂, h₃, h₄, h₅, hlast, hbefore, hafter⟩ :=
    exists_passes_of_reduce hok
  have promoted := of_passIf (P := fun _ k => k.Linked ∧ Removes 0 0 g k) h₁
    ⟨hg, .refl g⟩ ⟨hg.promoteAll, g.removes_promoteAll⟩
  have pruned := of_passIf (P := fun count k => k.Linked ∧ Removes count 0 g₁ k) h₂
    ⟨promoted.1, .refl g₁⟩ ⟨promoted.1.prune, promoted.1.removes_prune⟩
  have fusedSinks := of_passIf (P := fun count k => k.Linked ∧ Removes count 0 g₂ k) h₃
    ⟨pruned.1, .refl g₂⟩ ⟨pruned.1.fuseSinks, pruned.1.removes_fuseSinks⟩
  have fusedNodes := of_passIf (P := fun count k => Removes count 0 g₃ k) h₄
    (.refl g₃) fusedSinks.1.removes_fuseNodes
  have unlooped := of_passIf (P := fun count k => Removes 0 count g₄ k) h₅
    (.refl g₄) g₄.removes_deleteSelfLoops
  have corrected : Removes 0 0 g₅ h := by
    rw [hlast]
    split
    · exact g₅.removes_correctLaw
    · exact .refl g₅
  have total := ((((promoted.2.trans pruned.2).trans fusedSinks.2).trans fusedNodes).trans
    unlooped).trans corrected
  have hnodes := total.nodeCount_eq
  have hedges := total.edgeCount_le
  refine ⟨?_, ?_, hbefore, hafter⟩
  · rw [hafter.1, hbefore.1]
    omega
  · rw [hafter.2, hbefore.2]
    omega

/-- Two maximizers that lead to themselves and to each other, each with a winning sink of its
own, a settled coin that nothing leads to, and a losing sink that nothing leads to. -/
def knot : Game :=
  List.foldl perform empty
    [.addNode .max, .addNode .max, .addNode .average, .addSink true, .addSink true, .addSink false,
      .setKnown 2 (some 1), .addEdge 0 0 1, .addEdge 0 1 1, .addEdge 0 3 1, .addEdge 1 0 1,
      .addEdge 1 1 1, .addEdge 1 4 1, .addEdge 2 0 1]

/-- What a full run reports for `knot`. -/
def knotStats : ReductionStats where
  nodesBefore := 6
  edgesBefore := 7
  nodesAfter := 2
  edgesAfter := 1
  promoted := 1
  pruned := 2
  fusedSinks := 1
  fusedNodes := 1
  selfLoops := 1
  labelsBefore := ⟨2, 0, 1, 1, 2⟩
  labelsAfter := ⟨1, 0, 0, 0, 1⟩

/-- The coin is promoted and then pruned with the losing sink. The winning sinks are merged,
which makes the maximizers alike; their four edges to each other become one loop. -/
theorem knot_reduction_accounts :
    knot.Linked ∧ ∃ h, knot.reduce {} = (.ok knotStats, h) ∧
      knotStats.nodesAfter + knotStats.pruned + knotStats.fusedSinks + knotStats.fusedNodes =
        knotStats.nodesBefore ∧
      knotStats.edgesAfter + knotStats.selfLoops ≤ knotStats.edgesBefore ∧
      knotStats.nodesAfter = h.nodeCount ∧ knotStats.edgesAfter = h.edgeCount := by
  have hl : knot.Linked := Reachable.linked ⟨_, rfl⟩
  have hfirst : knot.promoteAll.2.prune.2.fuseSinks.2.nodeMerges = [(0, 1)] := by
    rw [nodeMerges_of_sorted (by decide +kernel)]
    decide +kernel
  have hsecond : (knot.promoteAll.2.prune.2.fuseSinks.2.mergeAll [(0, 1)]).nodeMerges = [] := by
    rw [nodeMerges_of_sorted (by decide +kernel)]
    decide +kernel
  have hcount : knot.promoteAll.2.prune.2.fuseSinks.2.nodeCount = 2 + 1 := by decide +kernel
  have hfused : knot.promoteAll.2.prune.2.fuseSinks.2.fuseNodes =
      (1, knot.promoteAll.2.prune.2.fuseSinks.2.mergeAll [(0, 1)]) := by
    rw [fuseNodes, hcount, fuseRounds, hfirst]
    simp only [fuseRounds_of_nil hsecond, List.length_singleton, Nat.add_zero]
  have hstats : (knot.reduce {}).1 = .ok knotStats := by
    unfold reduce
    simp only [passIf, if_true, hfused]
    decide +kernel
  have hrun : knot.reduce {} = (.ok knotStats, (knot.reduce {}).2) := Prod.ext hstats rfl
  obtain ⟨hnodes, hedges, -, hafter⟩ := reduction_accounts hl hrun
  exact ⟨hl, _, hrun, hnodes, hedges, hafter⟩

end StochasticGame.Game
