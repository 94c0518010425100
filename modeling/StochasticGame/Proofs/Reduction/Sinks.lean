import StochasticGame.Proofs.Reduction.Fusion

/-!
# StochasticGame.Proofs.Reduction.Sinks

**Promotion and pruning keep track of the game.** Promotion turns the settled nodes
into sinks and cuts their edges, and leaves all other nodes as they are. A pruned sink
has no predecessor, so no other node notices; its payoff stays on record. With the
other passes this gives `Tracks` for a full reduction run.
-/

namespace StochasticGame.Game

variable {g h : Game} {id j r : NodeId}

/-! ### Promotion -/

/-- The label and known value of a node after promotion. -/
def promotedFace (f : Label × Option Rat) : Label × Option Rat := ((kindOf f).1, f.2)

/-- Whether an id names a settled node. -/
def settledAt (g : Game) (id : NodeId) : Bool :=
  (g.face? id).any fun f => f.2 = some 0 ∨ f.2 = some 1

theorem promotedFace_of_settled {f : Label × Option Rat} (hf : f.2 = some 0 ∨ f.2 = some 1) :
    promotedFace f = (.sink, f.2) := by
  rw [promotedFace, kindOf, if_pos hf]

theorem promotedFace_of_not_settled {f : Label × Option Rat}
    (hf : ¬ (f.2 = some 0 ∨ f.2 = some 1)) : promotedFace f = f := by
  rw [promotedFace, kindOf, if_neg hf]

theorem promotedFace_idem (f : Label × Option Rat) :
    promotedFace (promotedFace f) = promotedFace f := by
  by_cases hf : f.2 = some 0 ∨ f.2 = some 1
  · rw [promotedFace_of_settled hf]
    exact promotedFace_of_settled hf
  · rw [promotedFace_of_not_settled hf, promotedFace_of_not_settled hf]

theorem isSettled_iff {n : Node} : n.isSettled = true ↔ n.known = some 0 ∨ n.known = some 1 := by
  rw [Node.isSettled, decide_eq_true_eq]

theorem settledAt_of_node? {n : Node} (hn : g.node? id = some n) :
    g.settledAt id = n.isSettled := by
  rw [settledAt, face?_of_node? hn, Option.any_some]
  rfl

/-- A settled node that promotion leaves alone is a sink without edges. -/
theorem sink_of_not_promotable {n : Node} (hn : g.node? id = some n)
    (hp : ¬ g.promotable id = true) (hs : n.isSettled = true) :
    n.label = .sink ∧ ∀ v, g.weight? id v = none := by
  rw [promotable, hn, Option.any_some, Node.isPromotable, hs, Bool.true_and, Bool.not_eq_true',
    Bool.not_eq_false, Bool.and_eq_true, Node.isSink, decide_eq_true_eq, decide_eq_true_eq] at hp
  refine ⟨hp.1, ?_⟩
  intro v
  have hnil : n.succs.entries = [] := List.eq_nil_of_length_eq_zero hp.2
  rw [weight?_of_node? hn, Node.weightTo?, OrdMap.find?, hnil]
  rfl

/-- What promotion changes is a settled node. -/
theorem exists_settled_of_promotable (hp : g.promotable id = true) :
    ∃ n, g.node? id = some n ∧ n.isSettled = true := by
  rw [promotable, Option.any_eq_true] at hp
  obtain ⟨n, hn, hprom⟩ := hp
  rw [Node.isPromotable, Bool.and_eq_true] at hprom
  exact ⟨n, hn, hprom.1⟩

theorem face?_promote (g : Game) (id j : NodeId) :
    (g.promote id).face? j = if j = id then (g.face? id).map promotedFace else g.face? j := by
  unfold promote
  split
  · rename_i hp
    rw [face?_clearSuccessors, face?_setLabel]
    split
    · obtain ⟨n, hn, hs⟩ := exists_settled_of_promotable hp
      rw [face?_of_node? hn, Option.map_some, Option.map_some,
        promotedFace_of_settled (isSettled_iff.1 hs)]
    · rfl
  · rename_i hp
    split
    · rename_i hj
      subst hj
      cases hn : g.node? j with
      | none => simp [face?, hn]
      | some n =>
        rw [face?_of_node? hn, Option.map_some]
        by_cases hs : n.isSettled = true
        · rw [promotedFace_of_settled (isSettled_iff.1 hs), (sink_of_not_promotable hn hp hs).1]
        · rw [promotedFace_of_not_settled fun hk => hs (isSettled_iff.2 hk)]
    · rfl

theorem weight?_promote (g : Game) (id a b : NodeId) :
    (g.promote id).weight? a b =
      if a = id ∧ g.settledAt id = true then none else g.weight? a b := by
  unfold promote
  split
  · rename_i hp
    rw [weight?_clearSuccessors, weight?_setLabel]
    obtain ⟨n, hn, hs⟩ := exists_settled_of_promotable hp
    simp [settledAt_of_node? hn, hs]
  · rename_i hp
    split
    · rename_i hs
      obtain ⟨rfl, hs⟩ := hs
      cases hn : g.node? a with
      | none => exact weight?_of_not_live hn b
      | some n =>
        rw [settledAt_of_node? hn] at hs
        exact (sink_of_not_promotable hn hp hs).2 b
    · rfl

theorem settledAt_promote (g : Game) (id j : NodeId) :
    (g.promote id).settledAt j = g.settledAt j := by
  rw [settledAt, face?_promote]
  split
  · rename_i hj
    rw [hj, Option.any_map]
    rfl
  · rfl

theorem grave?_promote (g : Game) (id j : NodeId) : (g.promote id).grave? j = g.grave? j := by
  unfold promote
  split
  · rw [grave?_clearSuccessors, grave?_setLabel]
  · rfl

theorem capacity_promote (g : Game) (id : NodeId) : (g.promote id).capacity = g.capacity := by
  unfold promote
  split
  · rw [capacity_clearSuccessors, capacity_setLabel]
  · rfl

theorem bindings_promote (g : Game) (id : NodeId) : (g.promote id).bindings = g.bindings := by
  unfold promote
  split
  · rw [bindings_clearSuccessors, bindings_setLabel]
  · rfl

/-- Promoting listed nodes settles the views of the game: nothing changes but the
labels and edges of the settled ones. -/
theorem promoteEach_views (ids : List NodeId) (g : Game) :
    (g.promoteEach ids).2.capacity = g.capacity ∧
      (g.promoteEach ids).2.bindings = g.bindings ∧
      (∀ j, (g.promoteEach ids).2.grave? j = g.grave? j) ∧
      (∀ j, (g.promoteEach ids).2.face? j =
        if j ∈ ids then (g.face? j).map promotedFace else g.face? j) ∧
      ∀ a b, (g.promoteEach ids).2.weight? a b =
        if a ∈ ids ∧ g.settledAt a = true then none else g.weight? a b := by
  induction ids generalizing g with
  | nil => simp [promoteEach]
  | cons id ids ih =>
    rw [promoteEach]
    obtain ⟨hc, hb, hg, hf, hw⟩ := ih (g.promote id)
    refine ⟨hc.trans (capacity_promote g id), hb.trans (bindings_promote g id),
      fun j => (hg j).trans (grave?_promote g id j), ?_, ?_⟩
    · intro j
      rw [hf, face?_promote]
      by_cases hj : j = id
      · subst hj
        by_cases hmem : j ∈ ids
        · simp [hmem, Function.comp_def, promotedFace_idem]
        · simp [hmem]
      · simp [hj]
    · intro a b
      rw [hw, settledAt_promote, weight?_promote]
      by_cases ha : a = id
      · subst ha
        by_cases hs : g.settledAt a = true <;> simp [hs]
      · simp [ha]

theorem face?_promoteAll (g : Game) (j : NodeId) :
    g.promoteAll.2.face? j = (g.face? j).map promotedFace := by
  obtain ⟨-, -, -, hface, -⟩ := promoteEach_views g.nodeIds g
  rw [Game.promoteAll, hface]
  split
  · rfl
  · rename_i hj
    have hnone : g.face? j = none := by
      rw [← Option.not_isSome_iff_eq_none, ← contains_eq_isSome_face?]
      exact fun hc => hj (mem_nodeIds_iff.2 hc)
    rw [hnone, Option.map_none]

theorem contains_promoteAll (g : Game) (j : NodeId) :
    g.promoteAll.2.contains j = g.contains j := by
  rw [contains_eq_isSome_face?, contains_eq_isSome_face?, face?_promoteAll, Option.isSome_map]

/-- Promotion cuts the edges of the settled nodes. -/
theorem weight?_promoteAll (g : Game) (a b : NodeId) :
    g.promoteAll.2.weight? a b = if g.settledAt a = true then none else g.weight? a b := by
  obtain ⟨-, -, -, -, hweight⟩ := promoteEach_views g.nodeIds g
  rw [Game.promoteAll, hweight]
  by_cases ha : a ∈ g.nodeIds
  · simp only [ha, true_and]
  · have hnone : g.node? a = none := by
      rw [← Option.not_isSome_iff_eq_none, Option.isSome_iff_exists, ← mem_nodeIds]
      exact ha
    simp only [ha, false_and, weight?_of_not_live hnone, ite_self]

theorem mem_successors_promoteAll {a b : NodeId} :
    b ∈ g.promoteAll.2.successors a ↔ ¬ g.settledAt a = true ∧ b ∈ g.successors a := by
  rw [mem_successors_iff, weight?_promoteAll, mem_successors_iff]
  split
  · simp_all
  · simp_all

theorem Inner.not_settledAt (hi : g.Inner id) : ¬ g.settledAt id = true := by
  obtain ⟨l, hl, hk⟩ := hi
  rw [kind?, Option.map_eq_some_iff] at hk
  obtain ⟨f, hf, hk⟩ := hk
  rw [settledAt, hf, Option.any_some, decide_eq_true_eq]
  intro hs
  rw [kindOf, if_pos hs] at hk
  exact hl (congrArg Prod.fst hk).symm

/-- **Promotion establishes the relation.** -/
theorem Tracks.promoteAll (hg : g.Linked)
    (hsinks : ∀ id k, g.face? id = some (.sink, k) → k = some 0 ∨ k = some 1) :
    Tracks g g.promoteAll.2 := by
  obtain ⟨hcap, hbind, -⟩ := promoteEach_views g.nodeIds g
  -- nothing was merged, so every node stands for itself
  have hself : ∀ {i}, g.contains i = true → g.promoteAll.2.Stands i i := fun hi =>
    .of_contains (by rwa [contains_promoteAll])
  refine ⟨hg, hg.promoteAll, hcap, hbind, hsinks, ?_, ?_, ?_, ?_, ?_⟩
  · intro id f hf
    rw [face?_promoteAll, Option.map_eq_some_iff] at hf
    obtain ⟨f', hf', rfl⟩ := hf
    exact ⟨f', hf', rfl⟩
  · intro id k hf v hv
    apply (mem_successors_promoteAll.1 hv).1
    rw [face?_promoteAll, Option.map_eq_some_iff] at hf
    obtain ⟨f, hf, he⟩ := hf
    rw [settledAt, hf, Option.any_some, decide_eq_true_eq]
    by_contra hns
    rw [promotedFace_of_not_settled hns] at he
    subst he
    exact hns (hsinks id k hf)
  · intro id hid
    exact ⟨id, hself hid, rfl, Or.inl (by rwa [contains_promoteAll])⟩
  · intro id hi s hs r t hr hst
    obtain rfl := hr.unique (hself hi.contains)
    obtain rfl := hst.unique (hself (hg.contains_target hs))
    exact Or.inr (mem_successors_promoteAll.2 ⟨hi.not_settledAt, hs⟩)
  · intro id hi r hr t hedge
    obtain rfl := hr.unique (hself hi.contains)
    have ht := (mem_successors_promoteAll.1 hedge).2
    exact Or.inr ⟨t, ht, hself (hg.contains_target ht)⟩

/-! ### Pruning -/

theorem Linked.mem_successors_removeNode (hl : h.Linked) {a b : NodeId} :
    b ∈ (h.removeNode id).successors a ↔ a ≠ id ∧ b ≠ id ∧ b ∈ h.successors a := by
  rw [mem_successors_iff, hl.weight?_removeNode]
  split
  · rename_i hab
    rcases hab with rfl | rfl <;> simp
  · rename_i hab
    rw [not_or] at hab
    rw [mem_successors_iff]
    simp [hab.1, hab.2]

theorem face?_of_removeNode {f : Label × Option Rat}
    (hf : (h.removeNode id).face? j = some f) : j ≠ id ∧ h.face? j = some f := by
  rw [face?_removeNode] at hf
  split at hf
  · simp at hf
  · exact ⟨‹_›, hf⟩

theorem face?_foldl_removeNode (ids : List NodeId) (h : Game) (j : NodeId) :
    (ids.foldl Game.removeNode h).face? j = if j ∈ ids then none else h.face? j := by
  induction ids generalizing h with
  | nil => simp
  | cons i ids ih =>
    rw [List.foldl_cons, ih, face?_removeNode]
    by_cases hj : j = i
    · simp [hj]
    · simp [hj]

/-- Removed nodes leave a payoff if they were sinks. -/
theorem grave?_foldl_removeNode (ids : List NodeId) (h : Game) (j : NodeId) :
    (ids.foldl Game.removeNode h).grave? j =
      if j ∈ ids then
        ((h.face? j).map fun f => Slot.removed (if f.1 = .sink then f.2 else none)).or (h.grave? j)
      else h.grave? j := by
  induction ids generalizing h with
  | nil => simp
  | cons i ids ih =>
    rw [List.foldl_cons, ih, face?_removeNode]
    cases hn : h.node? i with
    | none =>
      have hf : h.face? i = none := by rw [face?, hn, Option.map_none]
      rw [removeNode_of_not_live hn]
      by_cases hj : j = i
      · simp [hj, hf]
      · simp [hj]
    | some n =>
      rw [grave?_removeNode hn]
      by_cases hj : j = i
      · simp [hj, face?_of_node? hn, Node.isSink]
      · simp [hj]

/-- Removed nodes take their edges with them. -/
theorem Linked.weight?_foldl_removeNode (hl : h.Linked) (ids : List NodeId) (a b : NodeId) :
    (ids.foldl Game.removeNode h).weight? a b =
      if a ∈ ids ∨ b ∈ ids then none else h.weight? a b := by
  induction ids generalizing h with
  | nil => simp
  | cons i ids ih =>
    rw [List.foldl_cons, ih (hl.removeNode i), hl.weight?_removeNode]
    by_cases ha : a = i
    · simp [ha]
    · by_cases hb : b = i
      · simp [hb]
      · simp [ha, hb]

theorem Linked.mem_successors_foldl_removeNode (hl : h.Linked) (ids : List NodeId) {a b : NodeId} :
    b ∈ (ids.foldl Game.removeNode h).successors a ↔ a ∉ ids ∧ b ∉ ids ∧ b ∈ h.successors a := by
  rw [mem_successors_iff, hl.weight?_foldl_removeNode, mem_successors_iff]
  split
  · rename_i hor
    simp only [Option.isSome_none, Bool.false_eq_true, false_iff]
    exact fun ⟨ha, hb, _⟩ => hor.elim ha hb
  · rename_i hor
    rw [not_or] at hor
    simp only [hor.1, hor.2, not_false_eq_true, true_and]

/-- Removing a sink that no node leads to keeps the relation. -/
theorem Tracks.removeSink (ht : Tracks g h) {k : Option Rat} (hf : h.face? id = some (.sink, k))
    (horphan : ∀ a, id ∉ h.successors a) : Tracks g (h.removeNode id) := by
  obtain ⟨n, hn⟩ : ∃ n, h.node? id = some n := by
    rw [← contains_iff, contains_eq_isSome_face?, hf]
    rfl
  have hpay : (if n.isSink then n.known else none) = k := by
    rw [face?_of_node? hn] at hf
    simp only [Option.some.injEq, Prod.mk.injEq] at hf
    simp [Node.isSink, hf.1, hf.2]
  have hsucc : ∀ {a b}, b ∈ (h.removeNode id).successors a ↔ a ≠ id ∧ b ∈ h.successors a := by
    intro a b
    rw [ht.linked.mem_successors_removeNode]
    refine and_congr_right fun _ => and_iff_right_of_imp ?_
    rintro hb rfl
    exact horphan a hb
  have hstands : ∀ {i r}, g.contains i = true → (h.removeNode id).Stands i r → h.Stands i r := by
    intro i r hi hs
    obtain ⟨r', hs', -⟩ := ht.stands i hi
    obtain rfl := hs.unique (hs'.removeNode id)
    exact hs'
  refine ⟨ht.origin, ht.linked.removeNode id, (capacity_removeNode ..).trans ht.capacity_eq,
    (bindings_removeNode ..).trans ht.bindings_eq, ht.settled, ?_, ?_, ?_, ?_, ?_⟩
  · intro j f hj
    exact ht.face j f (face?_of_removeNode hj).2
  · intro j k' hj v hv
    exact ht.leaf j k' (face?_of_removeNode hj).2 v (hsucc.1 hv).2
  · intro i hi
    obtain ⟨r, hs, hkind, hr⟩ := ht.stands i hi
    refine ⟨r, hs.removeNode id, hkind, ?_⟩
    by_cases hrid : r = id
    · refine Or.inr ⟨k, ?_, ?_⟩
      · rw [← hkind, hrid, ht.kind?_of_sink hf]
      · rw [grave?_removeNode hn, if_pos hrid, hpay]
    · rw [contains_eq_isSome_face?, face?_removeNode, if_neg hrid, ← contains_eq_isSome_face?,
        grave?_removeNode hn, if_neg hrid]
      exact hr
  · intro i hi s hs r t hr hst
    have hr' := hstands hi.contains hr
    rcases ht.forth i hi s hs r t hr' (hstands (ht.origin.contains_target hs) hst) with he | hedge
    · exact Or.inl he
    · refine Or.inr (hsucc.2 ⟨?_, hedge⟩)
      rintro rfl
      exact ht.face?_ne_sink hi hr' k hf
  · intro i hi r hr t hedge
    rcases ht.back i hi r (hstands hi.contains hr) t (hsucc.1 hedge).2 with he | ⟨s, hs, hst⟩
    · exact Or.inl he
    · exact Or.inr ⟨s, hs, hst.removeNode id⟩

/-- Removing orphan sinks one after another keeps the relation. -/
theorem Tracks.removeSinks (ht : Tracks g h) (ids : List NodeId)
    (hids : ∀ i ∈ ids, h.contains i = true →
      ∃ k, h.face? i = some (.sink, k) ∧ ∀ a, i ∉ h.successors a) :
    Tracks g (ids.foldl Game.removeNode h) := by
  induction ids generalizing h with
  | nil => exact ht
  | cons i ids ih =>
    rw [List.foldl_cons]
    have hrest := fun j hj => hids j (List.mem_cons_of_mem i hj)
    by_cases hi : h.contains i = true
    · obtain ⟨k, hf, horphan⟩ := hids i List.mem_cons_self hi
      refine ih (ht.removeSink hf horphan) ?_
      intro j hj hlive
      -- removing one node adds no edge, so the others stay orphans
      rw [contains_eq_isSome_face?, Option.isSome_iff_exists] at hlive
      obtain ⟨f, hlive⟩ := hlive
      obtain ⟨hji, hfj⟩ := face?_of_removeNode hlive
      obtain ⟨k', hf', horphan'⟩ := hrest j hj (by rw [contains_eq_isSome_face?, hfj]; rfl)
      refine ⟨k', by rw [face?_removeNode, if_neg hji, hf'], ?_⟩
      intro a ha
      exact horphan' a (ht.linked.mem_successors_removeNode.1 ha).2.2
    · have hn : h.node? i = none := by
        rwa [contains, Option.not_isSome_iff_eq_none] at hi
      rw [removeNode_of_not_live hn]
      exact ih ht hrest

theorem mem_orphanSinks : id ∈ h.orphanSinks ↔
    (∃ k, h.face? id = some (.sink, k)) ∧ ∀ a ∈ h.predecessors id, a = id := by
  rw [Game.orphanSinks, List.mem_map]
  constructor
  · rintro ⟨⟨j, n⟩, he, hj⟩
    obtain rfl : j = id := hj
    rw [List.mem_filter, mem_nodes, Bool.and_eq_true, Node.isSink, decide_eq_true_eq,
      List.all_eq_true] at he
    obtain ⟨hn, hl, hpreds⟩ := he
    refine ⟨⟨n.known, by rw [face?_of_node? hn, hl]⟩, ?_⟩
    intro a ha
    rw [predecessors_of_node? hn] at ha
    exact of_decide_eq_true (hpreds a ha)
  · rintro ⟨⟨k, hf⟩, hpreds⟩
    obtain ⟨n, hn, hl, -⟩ := face?_eq_some_iff.1 hf
    refine ⟨(id, n), List.mem_filter.2 ⟨mem_nodes.2 hn, ?_⟩, rfl⟩
    rw [Bool.and_eq_true, Node.isSink, decide_eq_true_eq, List.all_eq_true]
    refine ⟨hl, ?_⟩
    intro a ha
    exact decide_eq_true (hpreds a (predecessors_of_node? hn ▸ ha))

/-- Pruning leaves every node that is not an orphan sink. -/
theorem face?_prune (h : Game) (j : NodeId) :
    h.prune.2.face? j = if j ∈ h.orphanSinks then none else h.face? j := by
  rw [prune, face?_foldl_removeNode]

theorem Tracks.prune (ht : Tracks g h) : Tracks g h.prune.2 := by
  refine ht.removeSinks h.orphanSinks ?_
  intro i hi _
  obtain ⟨⟨k, hf⟩, hpreds⟩ := mem_orphanSinks.1 hi
  refine ⟨k, hf, ?_⟩
  intro a ha
  -- the only predecessor could be the sink itself, but sinks lead nowhere
  obtain rfl := hpreds a ((ht.linked a i).1 ha)
  exact ht.leaf a k hf a ha

theorem reduce_full_snd (g : Game) :
    (g.reduce {}).2 =
      g.promoteAll.2.prune.2.fuseSinks.2.fuseNodes.2.deleteSelfLoops.2.correctLaw := by
  simp only [reduce_snd, passIf, if_true]

/-- **A full reduction run keeps track of the game.** -/
theorem Tracks.reduce (hg : g.Linked)
    (hsinks : ∀ id k, g.face? id = some (.sink, k) → k = some 0 ∨ k = some 1) :
    Tracks g (g.reduce {}).2 := by
  rw [reduce_full_snd]
  exact (Tracks.promoteAll hg hsinks).prune.fuseSinks.fuseNodes.deleteSelfLoops.correctLaw

end StochasticGame.Game
