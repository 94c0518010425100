import StochasticGame.Proofs.Game.Counts
import StochasticGame.Proofs.Reduction.Lumping
import StochasticGame.Proofs.Reduction.Sinks

/-!
# StochasticGame.Proofs.Reduction.Trimming

**Promotion and pruning are safe.** Promotion cuts the edges of settled nodes, which may
leave sinks that nothing leads to, and pruning removes those. Which sinks are orphans is
decided once; a sink that leads only to itself counts as one. Three facts carry the
argument, for any mix of settled nodes, sinks with edges and shared successors:

* an orphan has no predecessor but itself, so no node that is left has lost an edge
  (`Linked.weight?_prune`);
* a path that starts outside the orphans stays outside of them
  (`Linked.not_mem_orphanSinks_of_reaches`);
* a node that is not settled keeps its label, known value and edges, and a settled one pays
  its known value.
-/

namespace StochasticGame

/-- Nodes with the same label, known value and weighted edges compute the same. -/
theorem Node.step?_congr {n m : Node} (hl : m.label = n.label) (hk : m.known = n.known)
    (hw : ∀ v, m.weightTo? v = n.weightTo? v) (w : ValueTable) : n.step? w = m.step? w := by
  by_cases hsink : n.label = .sink
  · exact (Mirrors.of_sinks hsink (hl.trans hsink) hk).step?_eq w
  · exact (Mirrors.of_perm hsink hl (OrdMap.entries_perm hw)).step?_eq w

namespace Game

variable {g h : Game} {a b id : NodeId} {n : Node}

/-! ### What pruning leaves -/

theorem contains_prune_iff : h.prune.2.contains id = true ↔
    id ∉ h.orphanSinks ∧ h.contains id = true := by
  rw [contains_eq_isSome_face?, contains_eq_isSome_face?, face?_prune]
  by_cases hid : id ∈ h.orphanSinks <;> simp [hid]

/-- What leads to an orphan is the orphan itself. -/
theorem Linked.eq_of_mem_orphanSinks (hl : h.Linked) (hb : b ∈ h.orphanSinks)
    (hedge : b ∈ h.successors a) : a = b :=
  (mem_orphanSinks.1 hb).2 a ((hl a b).1 hedge)

/-- A node that is left keeps all its edges. -/
theorem Linked.weight?_prune (hl : h.Linked) (ha : a ∉ h.orphanSinks) (b : NodeId) :
    h.prune.2.weight? a b = h.weight? a b := by
  rw [Game.prune, hl.weight?_foldl_removeNode]
  split
  · rename_i hor
    have hb := hor.resolve_left ha
    symm
    rw [← Option.not_isSome_iff_eq_none, ← mem_successors_iff]
    intro hedge
    exact ha (hl.eq_of_mem_orphanSinks hb hedge ▸ hb)
  · rfl

/-- No path leads from outside the orphans to an orphan. -/
theorem Linked.not_mem_orphanSinks_of_reaches (hl : h.Linked) (ha : a ∉ h.orphanSinks)
    (hr : h.digraph.Reaches a b) : b ∉ h.orphanSinks := by
  induction hr with
  | refl => exact ha
  | tail _ hedge ih =>
    intro hb
    exact ih (hl.eq_of_mem_orphanSinks hb hedge ▸ hb)

/-- Whatever a node that is not a sink leads to is left. -/
theorem Linked.contains_prune_of_reaches (hl : h.Linked) (hn : h.node? a = some n)
    (hsink : n.label ≠ .sink) (hr : h.digraph.Reaches a b) : h.prune.2.contains b = true := by
  have ha : a ∉ h.orphanSinks := by
    intro horphan
    obtain ⟨⟨k, hf⟩, -⟩ := mem_orphanSinks.1 horphan
    rw [face?_of_node? hn] at hf
    exact hsink (congrArg Prod.fst (Option.some.inj hf))
  refine contains_prune_iff.2 ⟨hl.not_mem_orphanSinks_of_reaches ha hr, ?_⟩
  cases hr with
  | refl => exact contains_iff.2 ⟨n, hn⟩
  | tail _ hedge => exact hl.contains_target hedge

theorem nodeCount_prune_le (h : Game) : h.prune.2.nodeCount ≤ h.nodeCount :=
  nodeCount_le fun _ hid => (contains_prune_iff.1 hid).2

theorem Linked.edgeCount_prune_le (hl : h.Linked) : h.prune.2.edgeCount ≤ h.edgeCount :=
  edgeCount_le fun _ _ hedge => ((hl.mem_successors_foldl_removeNode _).1 hedge).2.2

/-! ### What promotion changes -/

theorem nodeCount_promoteAll_le (g : Game) : g.promoteAll.2.nodeCount ≤ g.nodeCount :=
  nodeCount_le fun id hid => contains_promoteAll g id ▸ hid

theorem edgeCount_promoteAll_le (g : Game) : g.promoteAll.2.edgeCount ≤ g.edgeCount :=
  edgeCount_le fun _ _ hedge => (mem_successors_promoteAll.1 hedge).2

/-- What is live after both passes was live before, with the face that promotion gives it. -/
theorem exists_node?_of_trimmed (hid : g.promoteAll.2.prune.2.contains id = true) :
    id ∉ g.promoteAll.2.orphanSinks ∧ ∃ n m, g.node? id = some n ∧
      g.promoteAll.2.prune.2.node? id = some m ∧
      (m.label, m.known) = promotedFace (n.label, n.known) := by
  obtain ⟨horphan, hlive⟩ := contains_prune_iff.1 hid
  rw [contains_promoteAll] at hlive
  obtain ⟨n, hn⟩ := contains_iff.1 hlive
  obtain ⟨m, hm⟩ := contains_iff.1 hid
  refine ⟨horphan, n, m, hn, hm, ?_⟩
  have hface : g.promoteAll.2.prune.2.face? id = some (promotedFace (n.label, n.known)) := by
    rw [face?_prune, if_neg horphan, face?_promoteAll, face?_of_node? hn, Option.map_some]
  rw [face?_of_node? hm] at hface
  exact Option.some.inj hface

/-- **Promotion and pruning are safe.** Neither pass adds a node or an edge. Pruning removes
no node that is not a sink then, and nothing that such a node leads to. For a table with
the known values of the nodes that are known to be worth 0 or 1, such a node that is left
computes its value, and any other one what it computed before. -/
theorem trimming_is_safe (hg : g.Linked) :
    (g.promoteAll.2.prune.2.nodeCount ≤ g.promoteAll.2.nodeCount ∧
        g.promoteAll.2.nodeCount ≤ g.nodeCount) ∧
      (g.promoteAll.2.prune.2.edgeCount ≤ g.promoteAll.2.edgeCount ∧
        g.promoteAll.2.edgeCount ≤ g.edgeCount) ∧
      (∀ a n b, g.promoteAll.2.node? a = some n → n.label ≠ .sink →
        g.promoteAll.2.digraph.Reaches a b → g.promoteAll.2.prune.2.contains b = true) ∧
      ∀ w : ValueTable,
        (∀ id n, g.node? id = some n → n.known = some 0 ∨ n.known = some 1 →
          n.known = some (w.value id)) →
        ∀ id, g.promoteAll.2.prune.2.contains id = true → ∃ n, g.node? id = some n ∧
          g.promoteAll.2.prune.2.step? w id =
            if n.known = some 0 ∨ n.known = some 1 then some (w.value id) else g.step? w id := by
  have hp := hg.promoteAll
  refine ⟨⟨nodeCount_prune_le _, nodeCount_promoteAll_le g⟩,
    ⟨hp.edgeCount_prune_le, edgeCount_promoteAll_le g⟩,
    fun a n b hn hsink hr => hp.contains_prune_of_reaches hn hsink hr, ?_⟩
  intro w hw id hid
  obtain ⟨horphan, n, m, hn, hm, hface⟩ := exists_node?_of_trimmed hid
  refine ⟨n, hn, ?_⟩
  rw [step?, hm, Option.bind_some, step?, hn, Option.bind_some]
  split
  · -- a settled node is a sink now, and pays what the table holds
    rename_i hs
    rw [promotedFace_of_settled hs, Prod.mk.injEq] at hface
    rw [Node.step?_eq_some_iff, Node.Yields, hface.1]
    exact hface.2.trans (hw id n hn hs)
  · rename_i hs
    rw [promotedFace_of_not_settled hs, Prod.mk.injEq] at hface
    refine (Node.step?_congr hface.1 hface.2 ?_ w).symm
    intro v
    rw [← weight?_of_node? hm, ← weight?_of_node? hn, hp.weight?_prune horphan,
      weight?_promoteAll, settledAt_of_node? hn, if_neg (mt isSettled_iff.1 hs)]

/-- A settled coin that leads to a sink of its own, a losing sink with a loop, another sink
that leads to itself and to the losing one, two players that lead to each other, and a
minimizer that is known to be worth nothing although it leads to the winning sink. -/
def overgrown : Game :=
  List.foldl perform empty
    [.addNode .max, .addNode .average, .addSink false, .addSink true, .addNode .sink,
      .addNode .min, .addNode .min, .setKnown 1 (some 1), .setKnown 4 (some 2),
      .setKnown 6 (some 0), .addEdge 0 1 1, .addEdge 0 2 1, .addEdge 0 5 1, .addEdge 0 6 1,
      .addEdge 5 0 1, .addEdge 1 3 1, .addEdge 2 2 1, .addEdge 4 4 1, .addEdge 4 2 1,
      .addEdge 6 3 1]

/-- Values that do not solve the game, with those of the settled nodes among them. -/
def overgrownValues : ValueTable := ⟨#[3, 1, 0, 1, 7, 2, 0]⟩

/-- The coin and the settled minimizer keep their values without their edges, and the other
players compute what they did. The losing sink is reached by the maximizer, so it stays; the
two other sinks go. -/
theorem overgrown_trimming_is_safe :
    overgrown.Linked ∧
      (∀ id n, overgrown.node? id = some n → n.known = some 0 ∨ n.known = some 1 →
        n.known = some (overgrownValues.value id)) ∧
      overgrown.promoteAll.2.prune.2.nodeIds = [0, 1, 2, 5, 6] ∧
      overgrown.promoteAll.2.prune.2.contains 2 = true ∧
      overgrown.promoteAll.2.prune.2.step? overgrownValues 1 = some 1 ∧
      overgrown.promoteAll.2.prune.2.step? overgrownValues 6 = some 0 ∧
      overgrown.promoteAll.2.prune.2.step? overgrownValues 5 =
        overgrown.step? overgrownValues 5 := by
  have hl : overgrown.Linked := Reachable.linked ⟨_, rfl⟩
  have hfacts : (∀ e ∈ overgrown.nodes, e.2.known = some 0 ∨ e.2.known = some 1 →
        e.2.known = some (overgrownValues.value e.1)) ∧
      (overgrown.node? 1).map Node.known = some (some 1) ∧
      (overgrown.node? 6).map Node.known = some (some 0) ∧
      (overgrown.node? 5).map Node.known = some none ∧
      (overgrown.promoteAll.2.node? 0).map Node.label = some .max ∧
      2 ∈ overgrown.promoteAll.2.digraph.next 0 ∧
      overgrown.promoteAll.2.prune.2.nodeIds = [0, 1, 2, 5, 6] := by decide +kernel
  obtain ⟨hlisted, hone, hzero, hnone, hmax, hedge, hids⟩ := hfacts
  have hknown : ∀ id n, overgrown.node? id = some n → n.known = some 0 ∨ n.known = some 1 →
      n.known = some (overgrownValues.value id) := fun id n hn => hlisted (id, n) (mem_nodes.2 hn)
  have hlive : ∀ id ∈ [0, 1, 2, 5, 6], overgrown.promoteAll.2.prune.2.contains id = true :=
    fun id hid => mem_nodeIds_iff.1 (hids ▸ hid)
  obtain ⟨-, -, hreach, hstep⟩ := trimming_is_safe hl
  obtain ⟨m, hm, hlabel⟩ := Option.map_eq_some_iff.1 hmax
  obtain ⟨n₁, hn₁, hcoin⟩ := hstep overgrownValues hknown 1 (hlive 1 (by simp))
  obtain ⟨n₆, hn₆, hlost⟩ := hstep overgrownValues hknown 6 (hlive 6 (by simp))
  obtain ⟨n₅, hn₅, hmin⟩ := hstep overgrownValues hknown 5 (hlive 5 (by simp))
  rw [hn₁, Option.map_some, Option.some_inj] at hone
  rw [hn₆, Option.map_some, Option.some_inj] at hzero
  rw [hn₅, Option.map_some, Option.some_inj] at hnone
  rw [if_pos (Or.inr hone)] at hcoin
  rw [if_pos (Or.inl hzero)] at hlost
  rw [if_neg (by simp [hnone])] at hmin
  exact ⟨hl, hknown, hids, hreach 0 m 2 hm (by simp [hlabel]) (.single hedge), hcoin, hlost, hmin⟩

end Game

end StochasticGame
