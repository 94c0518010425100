import StochasticGame.Proofs.Reduction.States

/-!
# StochasticGame.Proofs.Reduction.Survivors

**Merged nodes form a forest whose roots survive.** The search for a representative
follows merged slots with no bound of its own. It ends because of how games come about:
only live nodes are merged, and no slot is ever filled again.

`History` reduces every operation to the four things that can happen to the slots of an
arena. Two facts follow by induction over it: from every id merges lead to an end
(`History.rooted`), and the slots found removed are those of the nodes that were removed,
as opposed to merged away (`History.removed_iff`).
-/

namespace StochasticGame.Game

variable {g h k : Game} {id r keep drop : NodeId} {gone gone' : List NodeId}

/-! ### What happens to slots -/

/-- How the slots of a game became those of another one. The list holds the nodes that
were removed on the way, in order. -/
inductive History (g : Game) : List NodeId → Game → Prop where
  /-- Nothing has happened. -/
  | start : History g [] g
  /-- No slot was emptied and none was added. -/
  | quiet {gone : List NodeId} {h h' : Game} (past : History g gone h)
    (hcap : h'.capacity = h.capacity) (hgrave : ∀ j, h'.grave? j = h.grave? j) : History g gone h'
  /-- A node was added. -/
  | added {gone : List NodeId} {h : Game} (past : History g gone h) (label : Label) :
    History g gone (h.addNode label).2
  /-- A live node was removed. -/
  | removed {gone : List NodeId} {h : Game} {id : NodeId} (past : History g gone h)
    (hlive : h.contains id = true) : History g (gone ++ [id]) (h.removeNode id)
  /-- A live node was merged into another one. -/
  | merged {gone : List NodeId} {h : Game} {keep drop : NodeId} (past : History g gone h)
    (hkd : keep ≠ drop) (hk : h.contains keep = true) (hd : h.contains drop = true) :
    History g gone (h.contract keep drop)

namespace History

theorem trans (past : History g gone h) (next : History h gone' k) :
    History g (gone ++ gone') k := by
  induction next with
  | start => rwa [List.append_nil]
  | quiet _ hcap hgrave ih => exact ih.quiet hcap hgrave
  | added _ label ih => exact ih.added label
  | removed _ hlive ih =>
    rw [← List.append_assoc]
    exact ih.removed hlive
  | merged _ hkd hk hd ih => exact ih.merged hkd hk hd

theorem setKnown (past : History g gone h) (id : NodeId) (x : Option Rat) :
    History g gone (h.setKnown id x) :=
  past.quiet (capacity_setKnown ..) fun _ => grave?_setKnown ..

theorem promote (past : History g gone h) (id : NodeId) : History g gone (h.promote id) :=
  past.quiet (capacity_promote ..) fun _ => grave?_promote ..

theorem promoteAll (past : History g gone h) : History g gone h.promoteAll.2 :=
  past.quiet (promoteEach_views h.nodeIds h).1 (promoteEach_views h.nodeIds h).2.2.1

theorem removeNode (past : History g gone h) (id : NodeId) :
    History g (gone ++ if h.contains id then [id] else []) (h.removeNode id) := by
  split
  · rename_i hlive
    exact past.removed hlive
  · rename_i hlive
    rw [contains, Option.not_isSome_iff_eq_none] at hlive
    rwa [removeNode_of_not_live hlive, List.append_nil]

theorem contract (past : History g gone h) (keep drop : NodeId) :
    History g gone (h.contract keep drop) := by
  by_cases hl : keep ≠ drop ∧ h.contains keep = true ∧ h.contains drop = true
  · exact past.merged hl.1 hl.2.1 hl.2.2
  · rwa [Game.contract, if_neg hl]

theorem mergeAll (past : History g gone h) (plan : List (NodeId × NodeId)) :
    History g gone (h.mergeAll plan) :=
  mergeAll_invariant past plan fun _ _ _ past hkd hk hd => past.merged hkd hk hd

theorem fuseNodes (past : History g gone h) : History g gone h.fuseNodes.2 :=
  fuseNodes_induction past fun _ past => past.mergeAll _

theorem deleteSelfLoops (past : History g gone h) : History g gone h.deleteSelfLoops.2 :=
  past.quiet (capacity_deleteSelfLoops h) (grave?_deleteSelfLoops h)

theorem correctLaw (past : History g gone h) : History g gone h.correctLaw :=
  past.quiet (capacity_correctLaw h) (grave?_correctLaw h)

/-- Live nodes that are listed once are removed one after another. -/
theorem removeNodes (past : History g gone h) {ids : List NodeId} (hn : ids.Nodup)
    (hlive : ∀ id ∈ ids, h.contains id = true) :
    History g (gone ++ ids) (ids.foldl Game.removeNode h) := by
  induction ids generalizing gone h with
  | nil => rwa [List.append_nil]
  | cons id ids ih =>
    rw [List.nodup_cons] at hn
    rw [List.foldl_cons, List.append_cons]
    refine ih (past.removed (hlive id List.mem_cons_self)) hn.2 ?_
    intro j hj
    have hne : j ≠ id := fun he => hn.1 (he ▸ hj)
    rw [contains_eq_isSome_face?, face?_removeNode, if_neg hne, ← contains_eq_isSome_face?]
    exact hlive j (List.mem_cons_of_mem id hj)

theorem prune (past : History g gone h) : History g (gone ++ h.orphanSinks) h.prune.2 := by
  refine past.removeNodes ?_ ?_
  · exact h.nodup_nodeIds.sublist (List.Sublist.map Prod.fst List.filter_sublist)
  · intro j hj
    obtain ⟨⟨x, hf⟩, -⟩ := mem_orphanSinks.1 hj
    rw [contains_eq_isSome_face?, hf]
    rfl

end History

/-- The nodes that an operation removes, as opposed to merging them away. -/
def removals (g : Game) : Operation → List NodeId
  | .removeNode id => if g.contains id then [id] else []
  | .prune => g.orphanSinks
  | .reduce passes => if passes.pruneSinks then (g.beforePruning passes).orphanSinks else []
  | _ => []

/-- The nodes that operations remove, one after another. -/
def removedBy : Game → List Operation → List NodeId
  | _, [] => []
  | g, op :: ops => g.removals op ++ (g.perform op).removedBy ops

theorem history_reduce (g : Game) (passes : Passes) :
    History g (g.removals (.reduce passes)) (g.reduce passes).2 := by
  have hpromoted : History g [] (g.beforePruning passes) :=
    passIf_snd (fun _ => History.promoteAll) _ .start
  have hpruned : History g (g.removals (.reduce passes))
      ((g.beforePruning passes).passIf passes.pruneSinks Game.prune).2 := by
    cases hon : passes.pruneSinks with
    | true =>
      simp only [removals, passIf, hon, if_true]
      exact hpromoted.prune
    | false =>
      simp only [removals, passIf, hon, Bool.false_eq_true, if_false]
      exact hpromoted
  have hmerges : ∀ h : Game, History g (g.removals (.reduce passes)) h →
      History g (g.removals (.reduce passes)) h.fuseSinks.2 :=
    fun h past => past.mergeAll h.sinkMerges
  have hsinks := passIf_snd hmerges passes.fuseNodes hpruned
  have hfused := passIf_snd (fun _ => History.fuseNodes) passes.fuseNodes hsinks
  have hloops := passIf_snd (fun _ => History.deleteSelfLoops) passes.deleteSelfLoops hfused
  rw [reduce_snd]
  dsimp only
  split
  · exact hloops.correctLaw
  · exact hloops

/-- What an operation does to slots. -/
theorem history_perform (g : Game) (op : Operation) :
    History g (g.removals op) (g.perform op) := by
  have hstart : History g [] g := .start
  cases op with
  | addNode label => exact hstart.added label
  | addSink payoff => exact (hstart.added .sink).setKnown _ _
  | setKnown id value => exact hstart.setKnown id value
  | addEdge source target weight =>
    exact hstart.quiet (capacity_addEdge ..) fun _ => grave?_addEdge ..
  | removeEdge source target =>
    exact hstart.quiet (capacity_removeEdge ..) fun _ => grave?_removeEdge ..
  | clearSuccessors id =>
    exact hstart.quiet (capacity_clearSuccessors ..) fun _ => grave?_clearSuccessors ..
  | removeNode id => exact hstart.removeNode id
  | contract keep drop => exact hstart.contract keep drop
  | bindState state id => exact hstart.quiet rfl fun _ => rfl
  | promote id => exact hstart.promote id
  | promoteAll => exact hstart.promoteAll
  | prune => exact hstart.prune
  | fuseSinks => exact hstart.mergeAll g.sinkMerges
  | fuseNodes => exact hstart.fuseNodes
  | deleteSelfLoops => exact hstart.deleteSelfLoops
  | correctLaw => exact hstart.correctLaw
  | reduce passes => exact history_reduce g passes

theorem history_operations (ops : List Operation) (g : Game) :
    History g (g.removedBy ops) (ops.foldl perform g) := by
  induction ops generalizing g with
  | nil => exact .start
  | cons op ops ih => exact (history_perform g op).trans (ih (g.perform op))

/-! ### What histories keep -/

/-- From every id of the arena merges lead to an end. -/
def Rooted (g : Game) : Prop := ∀ id, id < g.capacity → ∃ r, g.Stands id r

theorem Rooted.addNode (hroot : h.Rooted) (label : Label) : (h.addNode label).2.Rooted := by
  intro id hid
  rw [capacity_addNode] at hid
  cases Nat.lt_succ_iff_lt_or_eq.1 hid with
  | inl hlt =>
    obtain ⟨r, hr⟩ := hroot id hlt
    exact ⟨r, hr.addNode label⟩
  | inr hnew =>
    -- the new node stands for itself
    refine ⟨id, Stands.of_contains ?_⟩
    rw [contains_eq_isSome_face?, face?_addNode, if_pos hnew]
    rfl

theorem History.rooted (past : History g gone h) (hroot : g.Rooted) : h.Rooted := by
  induction past with
  | start => exact hroot
  | quiet _ hcap hgrave ih =>
    intro id hid
    obtain ⟨r, hr⟩ := ih id (hcap ▸ hid)
    exact ⟨r, hr.of_merges hcap.ge fun j into => by rw [hgrave]⟩
  | added _ label ih => exact ih.addNode label
  | removed _ _ ih =>
    intro id hid
    rw [capacity_removeNode] at hid
    obtain ⟨r, hr⟩ := ih id hid
    exact ⟨r, hr.removeNode _⟩
  | merged _ hkd hk hd ih =>
    intro id hid
    rw [capacity_contract] at hid
    obtain ⟨r, hr⟩ := ih id hid
    exact ⟨_, hr.contract hkd hk hd⟩

/-- The slot of an id is that of a removed node. -/
def IsRemoved (g : Game) (id : NodeId) : Prop := ∃ payoff, g.grave? id = some (.removed payoff)

theorem not_isRemoved_of_contains (h : g.contains id = true) : ¬ g.IsRemoved id := by
  intro ⟨payoff, hp⟩
  rw [grave?_of_contains h] at hp
  cases hp

/-- The removed slots are those that were so at the start and those of the nodes removed
on the way. -/
theorem History.removed_iff (past : History g gone h) (r : NodeId) :
    h.IsRemoved r ↔ g.IsRemoved r ∨ r ∈ gone := by
  induction past with
  | start => simp
  | quiet _ _ hgrave ih =>
    rw [← ih]
    simp only [IsRemoved, hgrave]
  | added _ label ih =>
    rw [← ih]
    simp only [IsRemoved, grave?_addNode]
  | @removed gone h id _ hlive ih =>
    obtain ⟨n, hn⟩ := contains_iff.1 hlive
    rw [List.mem_append, List.mem_singleton, ← or_assoc, ← ih]
    simp only [IsRemoved, grave?_removeNode hn]
    by_cases hr : r = id
    · simp [hr]
    · simp [hr]
  | @merged gone h keep drop _ hkd hk hd ih =>
    rw [← ih]
    simp only [IsRemoved, grave?_contract hkd hk hd]
    by_cases hr : r = drop
    · simp [hr, grave?_of_contains hd]
    · simp [hr]

/-- Whatever stands for others is live unless it was removed. -/
theorem Stands.contains_eq_false_iff (hr : g.Stands id r) :
    g.contains r = false ↔ g.IsRemoved r := by
  obtain ⟨_, hs⟩ := hr
  obtain ⟨hlt, hroot⟩ := hs.isRoot
  constructor
  · intro hdead
    cases hg : g.grave? r with
    | none => simp [(grave?_eq_none_iff hlt).1 hg] at hdead
    | some slot =>
      cases slot with
      | live n => simp [grave?, Option.filter_eq_some_iff] at hg
      | merged into => exact absurd hg (hroot into)
      | removed payoff => exact ⟨payoff, hg⟩
  · intro hremoved
    exact Bool.eq_false_iff.2 fun hlive => not_isRemoved_of_contains hlive hremoved

theorem Rooted.representative?_contract (hroot : g.Rooted) (hkd : keep ≠ drop)
    (hk : g.contains keep = true) (hd : g.contains drop = true) (id : NodeId) :
    (g.contract keep drop).representative? id =
      if g.representative? id = some drop then some keep else g.representative? id := by
  by_cases hid : id < g.capacity
  · obtain ⟨r, hr⟩ := hroot id hid
    rw [(hr.contract hkd hk hd).representative?, hr.representative?]
    by_cases hrd : r = drop
    · simp [hrd]
    · simp [hrd]
  · rw [representative?, capacity_contract, if_neg hid, representative?, if_neg hid]
    simp

/-- **Merged nodes form a forest whose roots survive.** Take a game that any sequence of
operations makes. From every id of the arena the search for a representative ends, within
as many steps as there are slots, at a slot that was not merged and is its own
representative. A live id is its own representative. The representative is live, or else
it was itself removed by one of the operations. A merge of two live nodes makes the kept
one represent whatever the dropped one represented, and changes no other representative. -/
theorem representative_of_operations {ops : List Operation}
    (hg : ops.foldl perform empty = g) :
    (∀ id, id < g.capacity → ∃ r, g.representative? id = some r ∧
      (∀ steps, g.capacity ≤ steps → g.follow steps id = r) ∧
      (∀ into, g.slots[r]? ≠ some (.merged into)) ∧ g.representative? r = some r ∧
      (g.contains id = true → r = id) ∧ (g.contains r = false ↔ r ∈ empty.removedBy ops)) ∧
    ∀ keep drop, keep ≠ drop → g.contains keep = true → g.contains drop = true →
      ∀ id, (g.contract keep drop).representative? id =
        if g.representative? id = some drop then some keep else g.representative? id := by
  have past : History empty (empty.removedBy ops) g := hg ▸ history_operations ops empty
  have hroot : g.Rooted := past.rooted fun id hid => absurd hid (Nat.not_lt_zero id)
  refine ⟨?_, fun keep drop hkd hk hd => hroot.representative?_contract hkd hk hd⟩
  intro id hid
  obtain ⟨r, hr⟩ := hroot id hid
  refine ⟨r, hr.representative?, ?_, ?_, hr.self.representative?, ?_, ?_⟩
  · intro steps hsteps
    obtain ⟨k, hk⟩ := hr
    exact hk.follow (hk.le_capacity.trans hsteps)
  · intro into
    obtain ⟨k, hk⟩ := hr
    rw [ne_eq, slot_eq_merged_iff]
    exact hk.isRoot.2 into
  · intro hlive
    exact hr.unique (Stands.of_contains hlive)
  · rw [hr.contains_eq_false_iff, past.removed_iff]
    simp [IsRemoved, grave?, empty]

/-- Three players that are merged one after another before the last one is removed, a sink
that is pruned, and two nodes of which one absorbs the other. -/
def lineage : List Operation :=
  [.addNode .max, .addNode .max, .addNode .max, .addSink true, .addNode .min, .addNode .min,
    .contract 1 0, .contract 2 1, .removeNode 2, .contract 4 5, .prune, .addNode .average]

/-- The first player is represented by a removed node. The last merge passes on whom the
dropped node represents. -/
theorem lineage_representative :
    (lineage.foldl perform empty).representative? 0 = some 2 ∧ empty.removedBy lineage = [2, 3] ∧
      (lineage.foldl perform empty).contains 2 = false ∧
      (lineage.foldl perform empty).representative? 5 = some 4 ∧
      ((lineage.foldl perform empty).contract 6 4).representative? 5 = some 6 := by
  obtain ⟨hroots, hmerge⟩ :=
    representative_of_operations (show lineage.foldl perform empty = _ from rfl)
  have hfirst : (lineage.foldl perform empty).representative? 0 = some 2 := by decide
  have hlast : (lineage.foldl perform empty).representative? 5 = some 4 := by decide
  have hremoved : empty.removedBy lineage = [2, 3] := by decide
  refine ⟨hfirst, hremoved, ?_, hlast, ?_⟩
  · obtain ⟨r, hr, -, -, -, -, hend⟩ := hroots 0 (by decide)
    obtain rfl : 2 = r := Option.some_inj.1 (hfirst.symm.trans hr)
    rw [hend, hremoved]
    decide
  · rw [hmerge 6 4 (by decide) (by decide) (by decide), hlast, if_pos rfl]

end StochasticGame.Game
