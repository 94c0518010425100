import StochasticGame.Proofs.Reduction.Law
import StochasticGame.Proofs.Reduction.MergePlan
import StochasticGame.Proofs.Reduction.Sinks

/-!
# StochasticGame.Proofs.Reduction.Reduced

**What a full reduction run leaves.** `Reduced` describes the normal form. Each of its
parts is the work of one pass, and no later pass undoes it:

* promotion makes sinks of the settled nodes and cuts their edges (`Tracks`);
* pruning leaves the sinks that some node leads to. It removes sinks only, which lead
  nowhere, so no sink loses the node that leads to it (`SinksReached`);
* fusing sinks leaves one for each payoff (`SinksDiffer`);
* the self-loops are deleted after the last merge, since merges can create new ones;
* the law is checked last.
-/

namespace StochasticGame.Game

variable {g h : Game} {keep drop : NodeId}

/-! ### Sinks that are reached -/

/-- Every sink is a successor. -/
def SinksReached (h : Game) : Prop :=
  ∀ id k, h.face? id = some (.sink, k) → ∃ a, id ∈ h.successors a

/-- A sink that is not pruned keeps a predecessor. -/
theorem Tracks.sinksReached_prune (ht : Tracks g h) : h.prune.2.SinksReached := by
  intro id k hf
  rw [face?_prune] at hf
  split at hf
  · cases hf
  · rename_i hid
    rw [mem_orphanSinks, not_and] at hid
    have hpred := hid ⟨k, hf⟩
    simp only [not_forall] at hpred
    obtain ⟨a, ha, -⟩ := hpred
    have hedge := (ht.linked a id).2 ha
    refine ⟨a, (ht.linked.mem_successors_foldl_removeNode _).2 ⟨?_, ?_, hedge⟩⟩
    · -- what leads somewhere is no sink
      intro horphan
      obtain ⟨⟨k', hf'⟩, -⟩ := mem_orphanSinks.1 horphan
      exact ht.leaf a k' hf' id hedge
    · intro horphan
      exact hid ⟨k, hf⟩ (mem_orphanSinks.1 horphan).2

namespace SinksReached

/-- The node that is kept leads to where the dropped one did. -/
theorem contract (hs : h.SinksReached) (hl : h.Linked) (hkd : keep ≠ drop)
    (hk : h.contains keep = true) (hd : h.contains drop = true)
    (hsame : h.SameSuccessors keep drop) : (h.contract keep drop).SinksReached := by
  intro id k hf
  obtain ⟨hne, hf⟩ := face?_of_contract hkd hk hd hf
  obtain ⟨a, ha⟩ := hs id k hf
  have hmem : ∀ {a}, a ≠ drop → id ∈ h.successors a → id ∈ (h.contract keep drop).successors a :=
    fun hadrop ha => (mem_successors_contract hl hkd hk hd (fun _ => (hsame drop).2) hadrop).2
      ⟨hne, Or.inl ha⟩
  by_cases hadrop : a = drop
  · subst hadrop
    exact ⟨keep, hmem hkd ((hsame id).2 ha)⟩
  · exact ⟨a, hmem hadrop ha⟩

theorem mergeAll (hs : h.SinksReached) (hl : h.Linked) {plan : List (NodeId × NodeId)}
    (hplan : ∀ p ∈ plan, h.SameSuccessors p.1 p.2) : (h.mergeAll plan).SinksReached := by
  refine (mergeAll_induction (P := fun h => h.Linked ∧ h.SinksReached) (R := SameSuccessors)
    ⟨hl, hs⟩ (fun p hp _ _ => hplan p hp) ?_).2
  intro h keep drop ⟨hl, hs⟩ hkd hk hd hsame
  refine ⟨⟨hl.contract keep drop, hs.contract hl hkd hk hd hsame⟩, ?_⟩
  intro a b ha hb _ _ hab
  exact hab.contract hl hkd hk hd hsame ha hb

theorem fuseSinks (hs : h.SinksReached) (ht : Tracks g h) : h.fuseSinks.2.SinksReached :=
  hs.mergeAll ht.linked fun _ hp => ht.sameSuccessors_of_mem_sinkMerges hp

theorem fuseNodes (hs : h.SinksReached) (hl : h.Linked) : h.fuseNodes.2.SinksReached :=
  (fuseNodes_induction (P := fun h => h.Linked ∧ h.SinksReached) ⟨hl, hs⟩ fun _ hh =>
    ⟨hh.1.mergeAll _, hh.2.mergeAll hh.1 fun _ hp => sameSuccessors_of_mem_nodeMerges hp⟩).2

theorem deleteSelfLoops (hs : h.SinksReached)
    (hleaf : ∀ id k, h.face? id = some (.sink, k) → ∀ v, v ∉ h.successors id) :
    h.deleteSelfLoops.2.SinksReached := by
  intro id k hf
  rw [face?_deleteSelfLoops] at hf
  obtain ⟨a, ha⟩ := hs id k hf
  refine ⟨a, mem_successors_deleteSelfLoops.2 ⟨?_, ha⟩⟩
  intro he
  subst he
  exact hleaf a k hf a ha

theorem correctLaw (hs : h.SinksReached) : h.correctLaw.SinksReached := by
  intro id k hf
  rw [face?_correctLaw] at hf
  obtain ⟨a, ha⟩ := hs id k hf
  exact ⟨a, by rwa [successors_correctLaw]⟩

end SinksReached

/-! ### Sinks that differ -/

/-- No two sinks pay the same. -/
def SinksDiffer (h : Game) : Prop :=
  ∀ a b k, h.face? a = some (.sink, k) → h.face? b = some (.sink, k) → a = b

/-- What is a sink now is settled. -/
theorem Tracks.settled_of_sink (ht : Tracks g h) {id : NodeId} {k : Option Rat}
    (hf : h.face? id = some (.sink, k)) : k = some 0 ∨ k = some 1 := by
  obtain ⟨⟨l, k'⟩, hf', he⟩ := ht.face id _ hf
  rw [Prod.mk.injEq] at he
  obtain ⟨hl, rfl⟩ := he
  by_contra hs
  rw [kindOf, if_neg hs] at hl
  obtain rfl : Label.sink = l := hl
  exact hs (ht.settled id k hf')

/-- What is settled now is a sink that leads nowhere. -/
theorem Tracks.sink_of_settled (ht : Tracks g h) {id : NodeId} {n : Node}
    (hn : h.node? id = some n) (hk : n.known = some 0 ∨ n.known = some 1) :
    n.label = .sink ∧ n.successors = [] := by
  obtain ⟨f, -, he⟩ := ht.face id _ (face?_of_node? hn)
  rw [Prod.mk.injEq] at he
  have hl : n.label = .sink := by rw [he.1, kindOf, if_pos (he.2 ▸ hk)]
  refine ⟨hl, List.eq_nil_iff_forall_not_mem.2 ?_⟩
  intro v hv
  exact ht.leaf id _ (face?_eq_some_iff.2 ⟨n, hn, hl, rfl⟩) v (successors_of_node? hn ▸ hv)

theorem Tracks.sinksDiffer_fuseSinks (ht : Tracks g h) : h.fuseSinks.2.SinksDiffer := by
  intro a b k ha hb
  cases ht.fuseSinks.settled_of_sink ha with
  | inl hk =>
    subst hk
    exact eq_of_face?_fuseSinks ha hb
  | inr hk =>
    subst hk
    exact eq_of_face?_fuseSinks ha hb

/-- Sinks still differ if some of them go. -/
theorem SinksDiffer.of_faces {h' : Game} (hd : h.SinksDiffer)
    (hface : ∀ j f, h'.face? j = some f → h.face? j = some f) : h'.SinksDiffer :=
  fun a b k ha hb => hd a b k (hface a _ ha) (hface b _ hb)

/-! ### The normal form -/

/-- What a full reduction run leaves. -/
structure Reduced (h : Game) : Prop where
  /-- The weights of every average node sum to one. -/
  lawful : ∀ id n, h.node? id = some n → n.label = .average →
    (n.succs.entries.map Prod.snd).sum = 1
  /-- A node of known value 0 or 1 is a sink without successors. -/
  settled : ∀ id n, h.node? id = some n → n.known = some 0 ∨ n.known = some 1 →
    n.label = .sink ∧ n.successors = []
  /-- No node leads to itself. -/
  noLoop : ∀ id n, h.node? id = some n → id ∉ n.successors
  /-- No two sinks pay the same. -/
  distinct : ∀ a b n m, h.node? a = some n → h.node? b = some m → n.label = .sink →
    m.label = .sink → n.known = m.known → a = b
  /-- Every sink has a live predecessor other than itself. -/
  reached : ∀ id n, h.node? id = some n → n.label = .sink →
    ∃ p ∈ n.preds.toList, p ≠ id ∧ h.contains p = true

/-- The sinks that a full reduction run leaves. -/
theorem sinks_of_reduce (hg : g.Linked)
    (hsinks : ∀ id k, g.face? id = some (.sink, k) → k = some 0 ∨ k = some 1) :
    (g.reduce {}).2.SinksReached ∧ (g.reduce {}).2.SinksDiffer := by
  have promoted := Tracks.promoteAll hg hsinks
  have pruned := promoted.prune
  have fused := pruned.fuseSinks.fuseNodes
  rw [reduce_full_snd]
  constructor
  · have hs := promoted.sinksReached_prune.fuseSinks pruned
    exact ((hs.fuseNodes pruned.fuseSinks.linked).deleteSelfLoops fused.leaf).correctLaw
  · refine pruned.sinksDiffer_fuseSinks.of_faces ?_
    intro j f hf
    rw [face?_correctLaw, face?_deleteSelfLoops] at hf
    exact face?_of_fuseRounds hf

/-- **A full reduction run that succeeds leaves a reduced game.** -/
theorem reduced_of_reduce (hg : g.Linked)
    (hsinks : ∀ id n, g.node? id = some n → n.label = .sink → n.known = some 0 ∨ n.known = some 1)
    {stats : ReductionStats} (hok : g.reduce {} = (.ok stats, h)) : Reduced h := by
  have hfaces : ∀ id k, g.face? id = some (.sink, k) → k = some 0 ∨ k = some 1 := by
    intro id k hf
    obtain ⟨n, hn, hl, hk⟩ := face?_eq_some_iff.1 hf
    exact hk ▸ hsinks id n hn hl
  obtain ⟨hsnd, hlaw⟩ := reduce_ok_iff.1 ⟨stats, hok⟩
  have ht : Tracks g h := hsnd ▸ Tracks.reduce hg hfaces
  obtain ⟨hreached, hdiffer⟩ := hsnd ▸ sinks_of_reduce hg hfaces
  have hface : ∀ {id n}, h.node? id = some n → n.label = .sink →
      h.face? id = some (.sink, n.known) :=
    fun hn hl => face?_eq_some_iff.2 ⟨_, hn, hl, rfl⟩
  refine ⟨lawViolation?_eq_none_iff.1 hlaw, fun id n hn hk => ht.sink_of_settled hn hk, ?_, ?_, ?_⟩
  · intro id n hn hself
    rw [← successors_of_node? hn, ← hsnd, reduce_full_snd, successors_correctLaw] at hself
    exact not_mem_successors_deleteSelfLoops _ id hself
  · intro a b n m hn hm hl hl' hk
    exact hdiffer a b n.known (hface hn hl) (hk ▸ hface hm hl')
  · intro id n hn hl
    obtain ⟨p, hp⟩ := hreached id _ (hface hn hl)
    refine ⟨p, predecessors_of_node? hn ▸ (ht.linked p id).1 hp, ?_, contains_of_mem_successors hp⟩
    intro he
    subst he
    exact ht.leaf p _ (hface hn hl) p hp

/-- A node that is as good as lost, one that can wait, two coins that lead to the first and
pay at different sinks, a minimizer, and a sink that nothing leads to. -/
def clutter : Game :=
  List.foldl perform empty
    [.addNode .max, .setKnown 0 (some 0), .addNode .max, .addNode .average, .addNode .average,
      .addNode .min, .addSink false, .addSink true, .addSink true, .addEdge 0 1 1, .addEdge 1 1 1,
      .addEdge 1 6 1, .addEdge 2 0 (1 / 2), .addEdge 2 6 (1 / 2), .addEdge 3 0 (1 / 2),
      .addEdge 3 7 (1 / 2), .addEdge 4 1 1, .addEdge 4 2 1, .addEdge 4 3 1]

/-- Every pass has something to do. -/
theorem clutter_reduced :
    ∃ stats h, clutter.reduce {} = (.ok stats, h) ∧ h.nodeIds = [0, 1, 2, 4, 6] ∧ Reduced h := by
  have hlinked : clutter.Linked := Reachable.linked ⟨_, rfl⟩
  have hsinks : ∀ e ∈ clutter.nodes, e.2.label = .sink →
      e.2.known = some 0 ∨ e.2.known = some 1 := by decide +kernel
  have hfirst : clutter.promoteAll.2.prune.2.fuseSinks.2.nodeMerges = [(2, 3)] := by
    rw [nodeMerges_of_sorted (by decide +kernel)]
    decide +kernel
  have hsecond :
      (clutter.promoteAll.2.prune.2.fuseSinks.2.mergeAll [(2, 3)]).nodeMerges = [] := by
    rw [nodeMerges_of_sorted (by decide +kernel)]
    decide +kernel
  have hcount : clutter.promoteAll.2.prune.2.fuseSinks.2.nodeCount = 5 + 1 := by decide +kernel
  have hresult : (clutter.reduce {}).2 = (clutter.promoteAll.2.prune.2.fuseSinks.2.mergeAll
      [(2, 3)]).deleteSelfLoops.2.correctLaw := by
    rw [reduce_full_snd, fuseNodes, hcount, fuseRounds_of_cons hfirst, fuseRounds_of_nil hsecond]
  obtain ⟨stats, hok⟩ := reduce_ok_iff.2 ⟨hresult, by decide +kernel⟩
  exact ⟨stats, _, hok, by decide +kernel, reduced_of_reduce hlinked
    (fun id n hn hl => hsinks (id, n) (mem_nodes.2 hn) hl) hok⟩

end StochasticGame.Game
