import StochasticGame.Proofs.Input.Seeds
import StochasticGame.Proofs.Reduction.Agreement
import StochasticGame.Proofs.Solver.Range

/-!
# StochasticGame.Proofs.Reduction.Range

**When reported values are probabilities.** Whatever passes run, weights and known values
stay non-negative, only average nodes are known to be above 1, and a removed sink leaves
a payoff of the unit interval (`Valued`). So a run that passes the check of the law has a
fair game to solve.

What is left is that a seed may be above 1. Promotion takes the seeded nodes off all
cycles, and the passes after it put none back on one (`Grounded`). Without promotion a
seed on a cycle can survive: the states of `loudSeed` are reported with value 3/2.
-/

namespace StochasticGame.Game

open ValueTable

variable {g h h' : Game} {id keep drop : NodeId}

/-! ### What every pass keeps -/

/-- What passes have made of a game, as far as the range of values is concerned. -/
structure Valued (g h : Game) : Prop where
  /-- The edges are recorded consistently. -/
  linked : h.Linked
  /-- The arena keeps its size. -/
  capacity_eq : h.capacity = g.capacity
  /-- States stay bound. -/
  bindings_eq : h.bindings = g.bindings
  /-- No weight is negative. -/
  nonneg : ∀ u v w, h.weight? u v = some w → 0 ≤ w
  /-- No known value is negative, and only average nodes are known to be above 1. -/
  known : ∀ id l x, h.face? id = some (l, some x) → 0 ≤ x ∧ (l ≠ .average → x ≤ 1)
  /-- Sinks have a payoff. -/
  payoff : ∀ id, h.face? id ≠ some (.sink, none)
  /-- A removed node was a sink and left its payoff. -/
  grave : ∀ id k, h.grave? id = some (.removed k) → ∃ x, k = some x ∧ x ∈ Set.Icc (0 : Rat) 1
  /-- Some node stands for every id of the arena. -/
  stands : ∀ id, id < h.capacity → ∃ r, h.Stands id r

namespace Valued

/-- A game that has been read. -/
theorem of_read (hg : g.Modelled) (hs : g.Seeded) : Valued g g where
  linked := hg.linked
  capacity_eq := rfl
  bindings_eq := rfl
  nonneg := hs.nonneg
  known id l x hf := by
    refine ⟨hs.known id l x hf, ?_⟩
    intro hl
    rcases hg.known id l _ hf hl with (hx | hx) | ⟨hx, -⟩
    · exact (Option.some_inj.1 hx).trans_le zero_le_one
    · exact (Option.some_inj.1 hx).le
    · cases hx
  payoff id hf := by
    rcases hg.known id .sink none hf (by simp) with (hx | hx) | ⟨-, hl⟩
    · cases hx
    · cases hx
    · exact hl rfl
  grave id k hk := by
    -- no node has been removed yet
    have hlive := hg.whole id (lt_capacity_of_grave? hk)
    rw [grave?_of_contains hlive] at hk
    cases hk
  stands id hid := ⟨id, .of_contains (hg.whole id hid)⟩

/-- Changes of edges that leave no negative weight. -/
theorem of_edges (hv : Valued g h) (hlinked : h'.Linked) (hcap : h'.capacity = h.capacity)
    (hbind : h'.bindings = h.bindings) (hface : ∀ j, h'.face? j = h.face? j)
    (hgrave : ∀ j, h'.grave? j = h.grave? j)
    (hweight : ∀ u v w, h'.weight? u v = some w → 0 ≤ w) : Valued g h' where
  linked := hlinked
  capacity_eq := hcap.trans hv.capacity_eq
  bindings_eq := hbind.trans hv.bindings_eq
  nonneg := hweight
  known id l x hf := hv.known id l x (hface id ▸ hf)
  payoff id hf := hv.payoff id (hface id ▸ hf)
  grave id k hk := hv.grave id k (hgrave id ▸ hk)
  stands id hid := by
    obtain ⟨r, hr⟩ := hv.stands id (hcap ▸ hid)
    exact ⟨r, hr.of_merges hcap.ge fun j into => by rw [hgrave]⟩

theorem removeEdge (hv : Valued g h) (u v : NodeId) : Valued g (h.removeEdge u v) := by
  refine hv.of_edges (hv.linked.removeEdge u v) (capacity_removeEdge ..) (bindings_removeEdge ..)
    (face?_removeEdge h u v) (grave?_removeEdge h u v) ?_
  intro a b w hw
  rw [weight?_removeEdge] at hw
  split at hw
  · cases hw
  · exact hv.nonneg a b w hw

theorem deleteSelfLoops (hv : Valued g h) : Valued g h.deleteSelfLoops.2 := by
  unfold Game.deleteSelfLoops
  dsimp only
  generalize h.loopedNodes = ids
  induction ids generalizing h with
  | nil => exact hv
  | cons i ids ih => exact ih (hv.removeEdge i i)

theorem uniform (hv : Valued g h) (i : NodeId) : Valued g (h.modify i Node.uniform) := by
  refine hv.of_edges (hv.linked.uniform i) (capacity_modify ..) (bindings_modify ..)
    (fun j => face?_modify_of_eq h i j _ (fun _ => rfl) fun _ => rfl) (fun j => grave?_modify ..) ?_
  intro u v w hw
  rw [weight?_modify] at hw
  split at hw
  · obtain ⟨n, -, hw⟩ := Option.bind_eq_some_iff.1 hw
    rw [Node.weightTo?, OrdMap.find?_eq_some_iff] at hw
    exact n.substochastic_uniform.nonneg _ hw
  · exact hv.nonneg u v w hw

theorem correctLaw (hv : Valued g h) : Valued g h.correctLaw := by
  unfold Game.correctLaw
  generalize h.nodes.filter _ = l
  induction l generalizing h with
  | nil => exact hv
  | cons e l ih => exact ih (hv.uniform e.1)

theorem promoteAll (hv : Valued g h) : Valued g h.promoteAll.2 := by
  obtain ⟨hcap, hbind, hgrave, -, hweight⟩ := promoteEach_views h.nodeIds h
  refine ⟨hv.linked.promoteAll, hcap.trans hv.capacity_eq, hbind.trans hv.bindings_eq, ?_, ?_, ?_,
    fun id k hk => hv.grave id k (hgrave id ▸ hk), ?_⟩
  · intro u v w hw
    rw [Game.promoteAll, hweight] at hw
    split at hw
    · cases hw
    · exact hv.nonneg u v w hw
  · intro id l x hf
    rw [face?_promoteAll, Option.map_eq_some_iff] at hf
    obtain ⟨f, hf, he⟩ := hf
    by_cases hs : f.2 = some 0 ∨ f.2 = some 1
    · rw [promotedFace_of_settled hs, Prod.mk.injEq] at he
      rw [he.2] at hs
      rcases hs with hx | hx
      · obtain rfl := Option.some_inj.1 hx
        exact ⟨le_rfl, fun _ => zero_le_one⟩
      · obtain rfl := Option.some_inj.1 hx
        exact ⟨zero_le_one, fun _ => le_rfl⟩
    · rw [promotedFace_of_not_settled hs] at he
      exact hv.known id l x (he ▸ hf)
  · intro id hf
    rw [face?_promoteAll, Option.map_eq_some_iff] at hf
    obtain ⟨f, hf, he⟩ := hf
    by_cases hs : f.2 = some 0 ∨ f.2 = some 1
    · rw [promotedFace_of_settled hs, Prod.mk.injEq] at he
      rw [he.2] at hs
      rcases hs with hx | hx <;> cases hx
    · rw [promotedFace_of_not_settled hs] at he
      exact hv.payoff id (he ▸ hf)
  · intro id hid
    obtain ⟨r, hr⟩ := hv.stands id (hcap ▸ hid)
    exact ⟨r, hr.of_merges hcap.ge fun j into => by rw [Game.promoteAll, hgrave]⟩

theorem removeSink (hv : Valued g h) {k : Option Rat} (hf : h.face? id = some (.sink, k)) :
    Valued g (h.removeNode id) := by
  obtain ⟨n, hn⟩ : ∃ n, h.node? id = some n := by
    rw [← contains_iff, contains_eq_isSome_face?, hf]
    rfl
  refine ⟨hv.linked.removeNode id, (capacity_removeNode ..).trans hv.capacity_eq,
    (bindings_removeNode ..).trans hv.bindings_eq, ?_, ?_, ?_, ?_, ?_⟩
  · intro u v w hw
    rw [hv.linked.weight?_removeNode] at hw
    split at hw
    · cases hw
    · exact hv.nonneg u v w hw
  · intro j l x hj
    exact hv.known j l x (face?_of_removeNode hj).2
  · intro j hj
    exact hv.payoff j (face?_of_removeNode hj).2
  · intro j k' hj
    rw [grave?_removeNode hn] at hj
    split at hj
    · -- the payoff of the sink is what it leaves
      rw [face?_of_node? hn, Option.some_inj, Prod.mk.injEq] at hf
      obtain ⟨hl, rfl⟩ := hf
      simp only [Node.isSink, hl, decide_true, if_true, Option.some.injEq, Slot.removed.injEq] at hj
      subst hj
      have hface := face?_of_node? hn
      cases hk : n.known with
      | none => exact absurd (by rw [hface, hl, hk]) (hv.payoff id)
      | some x =>
        obtain ⟨h0, h1⟩ := hv.known id .sink x (by rw [hface, hl, hk])
        exact ⟨x, rfl, h0, h1 (by simp)⟩
    · exact hv.grave j k' hj
  · intro j hj
    obtain ⟨r, hr⟩ := hv.stands j (by rwa [capacity_removeNode] at hj)
    exact ⟨r, hr.removeNode id⟩

theorem removeSinks (hv : Valued g h) (ids : List NodeId)
    (hids : ∀ i ∈ ids, ∀ f, h.face? i = some f → f.1 = .sink) :
    Valued g (ids.foldl Game.removeNode h) := by
  induction ids generalizing h with
  | nil => exact hv
  | cons i ids ih =>
    rw [List.foldl_cons]
    have hrest : ∀ j ∈ ids, ∀ f, (h.removeNode i).face? j = some f → f.1 = .sink :=
      fun j hj f hf => hids j (List.mem_cons_of_mem i hj) f (face?_of_removeNode hf).2
    cases hf : h.face? i with
    | none =>
      have hn : h.node? i = none := by rwa [face?, Option.map_eq_none_iff] at hf
      rw [removeNode_of_not_live hn] at hrest ⊢
      exact ih hv hrest
    | some f =>
      obtain ⟨l, k⟩ := f
      obtain rfl : l = .sink := hids i List.mem_cons_self _ hf
      exact ih (hv.removeSink hf) hrest

theorem prune (hv : Valued g h) : Valued g h.prune.2 := by
  refine hv.removeSinks h.orphanSinks ?_
  intro i hi f hf
  obtain ⟨⟨k, hk⟩, -⟩ := mem_orphanSinks.1 hi
  obtain rfl := Option.some_inj.1 (hf.symm.trans hk)
  rfl

/-- Weights that are not negative add up to one that is not. -/
theorem merge_nonneg {a b : Option Rat} {w : Rat} (ha : ∀ x ∈ a, 0 ≤ x) (hb : ∀ x ∈ b, 0 ≤ x)
    (hw : a.merge (· + ·) b = some w) : 0 ≤ w := by
  cases a with
  | none =>
    rw [Option.merge_none_left] at hw
    exact hb w hw
  | some x =>
    cases b with
    | none =>
      rw [Option.merge_none_right] at hw
      exact ha w hw
    | some y =>
      rw [Option.merge_some_some, Option.some_inj] at hw
      exact hw ▸ add_nonneg (ha x rfl) (hb y rfl)

theorem contract (hv : Valued g h) (keep drop : NodeId) : Valued g (h.contract keep drop) := by
  by_cases hkd : keep = drop
  · rw [hkd, contract_self]
    exact hv
  by_cases hlive : h.contains keep = true ∧ h.contains drop = true
  · obtain ⟨hk, hd⟩ := hlive
    refine ⟨hv.linked.contract keep drop, (capacity_contract ..).trans hv.capacity_eq,
      (bindings_contract ..).trans hv.bindings_eq, ?_, ?_, ?_, ?_, ?_⟩
    · intro u v w hw
      rw [hv.linked.weight?_contract hkd hk hd] at hw
      split at hw
      · cases hw
      split at hw
      · have hown : ∀ x ∈ (h.weight? u keep).merge (· + ·) (h.weight? u drop), 0 ≤ x := fun x hx =>
          merge_nonneg (hv.nonneg u keep) (hv.nonneg u drop) hx
        unfold mergedWeight? at hw
        dsimp only at hw
        split at hw
        · exact merge_nonneg hown (hv.nonneg drop drop) hw
        · exact hown w hw
      · exact hv.nonneg u v w hw
    · intro j l x hj
      exact hv.known j l x (face?_of_contract hkd hk hd hj).2
    · intro j hj
      exact hv.payoff j (face?_of_contract hkd hk hd hj).2
    · intro j k hj
      rw [grave?_contract hkd hk hd] at hj
      split at hj
      · simp at hj
      · exact hv.grave j k hj
    · intro j hj
      obtain ⟨r, hr⟩ := hv.stands j (by rwa [capacity_contract] at hj)
      exact ⟨_, hr.contract hkd hk hd⟩
  · rw [contract_of_not_live hlive]
    exact hv

theorem mergeAll (hv : Valued g h) (plan : List (NodeId × NodeId)) :
    Valued g (h.mergeAll plan) := by
  unfold Game.mergeAll
  induction plan generalizing h with
  | nil => exact hv
  | cons m plan ih => exact ih (hv.contract m.1 m.2)

theorem fuseNodes (hv : Valued g h) : Valued g h.fuseNodes.2 :=
  fuseNodes_induction hv fun _ hh => hh.mergeAll _

/-- **Every reduction run keeps the range.** -/
theorem reduce (hv : Valued g h) (passes : Passes) : Valued g (h.reduce passes).2 :=
  reduce_snd_induction hv passes (fun _ => promoteAll) (fun _ => prune)
    (fun _ hh => hh.mergeAll _) (fun _ => fuseNodes) (fun _ => deleteSelfLoops)
    (fun _ => correctLaw)

/-- A game that passes the check of the law is fair. -/
theorem fair (hv : Valued g h) (hlaw : h.lawViolation? = none) : h.Fair := by
  intro id n hn
  refine ⟨?_, ?_, ?_, ?_⟩
  · intro _ e he
    refine hv.nonneg id e.1 e.2 ?_
    rw [weight?_of_node? hn]
    exact OrdMap.find?_eq_some_iff.2 he
  · intro hl
    exact lawViolation?_eq_none_iff.1 hlaw id n hn hl
  · intro x hx
    exact (hv.known id n.label x (by rw [face?_of_node? hn, hx])).1
  · intro hl x hx
    exact (hv.known id n.label x (by rw [face?_of_node? hn, hx])).2 hl

/-- A state is reported with the value of a live node or with a payoff. -/
theorem exists_stateValue (hv : Valued g h) {s : Solution} {solver : SolverSettings} {pace : Nat}
    (hs : h.solve solver pace = .ok s)
    (hrange : ∀ id, h.contains id = true → s.values.value id ∈ Set.Icc (0 : Rat) 1)
    {state : State} (hstate : g.bindings.find? state = some id) (hid : id < g.capacity) :
    ∃ x, s.stateValue h state = .ok (some x) ∧ x ∈ Set.Icc (0 : Rat) 1 := by
  obtain ⟨r, hr⟩ := hv.stands id (by rwa [hv.capacity_eq])
  rw [Solution.stateValue, hv.bindings_eq, hstate]
  dsimp only
  rw [hr.representative?]
  dsimp only
  obtain ⟨k, hk⟩ := hr
  obtain ⟨hlt, hroot⟩ := hk.isRoot
  by_cases hlive : h.contains r = true
  · rw [if_pos hlive, hv.linked.value?_of_solve hs hlive]
    exact ⟨_, rfl, hrange r hlive⟩
  · -- a slot that is neither live nor merged was removed
    rw [if_neg hlive]
    cases hgrave : h.grave? r with
    | none => exact absurd ((grave?_eq_none_iff hlt).1 hgrave) hlive
    | some slot =>
      cases slot with
      | live n =>
        rw [grave?, Option.filter_eq_some_iff] at hgrave
        exact absurd hgrave.2 (by simp)
      | merged into => exact absurd hgrave (hroot into)
      | removed p =>
        obtain ⟨x, rfl, hx⟩ := hv.grave r p hgrave
        exact ⟨x, by rw [(prunedPayoff?_of_grave? hgrave).2], hx⟩

end Valued

/-! ### Seeds after promotion -/

/-- Paths from a node that starts above 1 end. -/
def Grounded (h : Game) : Prop :=
  ∀ id l x, h.face? id = some (l, some x) → 1 < x → Acc (fun s t => s ∈ h.successors t) id

/-- A node from which all paths end is on no cycle. -/
theorem not_onCycle_of_acc (ha : Acc (fun s t => s ∈ h.successors t) id) : ¬ h.OnCycle id := by
  induction ha with
  | intro id _ ih =>
    -- the next node on a cycle is on a cycle
    rintro ⟨s, hs, hback⟩
    apply ih s hs
    rcases hback.cases_head with rfl | ⟨t, ht, htid⟩
    · exact ⟨s, hs, .refl⟩
    · exact ⟨t, ht, htid.tail hs⟩

namespace Grounded

theorem not_onCycle (hh : h.Grounded) (hstart : 1 < (ofGame h).value id) : ¬ h.OnCycle id := by
  obtain ⟨l, hf⟩ := (value_ofGame_cases h id).resolve_left (zero_lt_one.trans hstart).ne'
  exact not_onCycle_of_acc (hh id l _ hf hstart)

/-- Promotion grounds the seeds of a game that has been read. -/
theorem promoteAll (hs : g.Seeded) : g.promoteAll.2.Grounded := by
  intro id l x hf _
  rw [face?_promoteAll, Option.map_eq_some_iff] at hf
  obtain ⟨⟨l', k⟩, hf, he⟩ := hf
  obtain rfl : k = some x := (Prod.mk.inj he).2
  have hsub : Subrelation (fun s t => s ∈ g.promoteAll.2.successors t) g.Follows := by
    intro s t hst
    obtain ⟨ht, hst⟩ := mem_successors_promoteAll.1 hst
    exact ⟨hst, ht⟩
  exact hsub.accessible (hs.grounded id l' x hf)

/-- Removing nodes and edges keeps seeds grounded. -/
theorem of_subset (hh : h.Grounded) (hface : ∀ j f, h'.face? j = some f → h.face? j = some f)
    (hsub : ∀ a b, b ∈ h'.successors a → b ∈ h.successors a) : h'.Grounded := by
  intro id l x hf hx
  have hrel : Subrelation (fun s t => s ∈ h'.successors t) fun s t => s ∈ h.successors t :=
    fun hst => hsub _ _ hst
  exact hrel.accessible (hh id l x (hface id _ hf) hx)

theorem removeNodes (hl : h.Linked) (hh : h.Grounded) (ids : List NodeId) :
    (ids.foldl Game.removeNode h).Grounded := by
  induction ids generalizing h with
  | nil => exact hh
  | cons i ids ih =>
    refine ih (hl.removeNode i) (hh.of_subset ?_ ?_)
    · intro j f hf
      exact (face?_of_removeNode hf).2
    · intro a b hb
      exact (hl.mem_successors_removeNode.1 hb).2.2

theorem deleteSelfLoops (hh : h.Grounded) : h.deleteSelfLoops.2.Grounded := by
  refine hh.of_subset ?_ ?_
  · intro j f hf
    rwa [face?_deleteSelfLoops] at hf
  · intro a b hb
    exact (mem_successors_deleteSelfLoops.1 hb).2

theorem correctLaw (hh : h.Grounded) : h.correctLaw.Grounded := by
  refine hh.of_subset ?_ ?_
  · intro j f hf
    rwa [face?_correctLaw] at hf
  · intro a b hb
    rwa [successors_correctLaw] at hb

/-- Merging nodes with the same successors turns a path into one of the same length. -/
theorem contract (hh : h.Grounded) (hl : h.Linked) (hkd : keep ≠ drop)
    (hk : h.contains keep = true) (hd : h.contains drop = true)
    (hsame : h.SameSuccessors keep drop) : (h.contract keep drop).Grounded := by
  have hacc : ∀ i, Acc (fun s t => s ∈ h.successors t) i →
      Acc (fun s t => s ∈ (h.contract keep drop).successors t) (if i = drop then keep else i) := by
    intro i hi
    induction hi with
    | intro i _ ih =>
      refine ⟨_, fun s hs => ?_⟩
      have hne : (if i = drop then keep else i) ≠ drop := by
        split
        · exact hkd
        · assumption
      have hsucc : ∀ t, t ∈ h.successors (if i = drop then keep else i) ↔ t ∈ h.successors i := by
        intro t
        split
        · rename_i hid
          rw [hid]
          exact hsame t
        · rfl
      rw [mem_successors_contract hl hkd hk hd (fun _ => (hsame drop).2) hne, hsucc, hsucc] at hs
      obtain ⟨hsd, hs | ⟨rfl, hs⟩⟩ := hs
      · have hnext := ih s hs
        rwa [if_neg hsd] at hnext
      · have hnext := ih drop hs
        rwa [if_pos rfl] at hnext
  intro id l x hf hx
  obtain ⟨hne, hf⟩ := face?_of_contract hkd hk hd hf
  have hid := hacc id (hh id l x hf hx)
  rwa [if_neg hne] at hid

theorem mergeAll (hh : h.Grounded) (hl : h.Linked) {plan : List (NodeId × NodeId)}
    (hplan : ∀ p ∈ plan, h.SameSuccessors p.1 p.2) : (h.mergeAll plan).Grounded := by
  have hboth := mergeAll_induction (P := fun h => h.Linked ∧ h.Grounded) (R := SameSuccessors)
    ⟨hl, hh⟩ (fun p hp _ _ => hplan p hp) ?_
  · exact hboth.2
  · rintro h keep drop ⟨hl, hh⟩ hkd hk hd hsame
    refine ⟨⟨hl.contract keep drop, hh.contract hl hkd hk hd hsame⟩, ?_⟩
    intro a b ha hb _ _ hab
    exact hab.contract hl hkd hk hd hsame ha hb

theorem fuseNodes (hh : h.Grounded) (hl : h.Linked) : h.fuseNodes.2.Grounded := by
  have hboth := fuseNodes_induction (P := fun h => h.Linked ∧ h.Grounded) ⟨hl, hh⟩ ?_
  · exact hboth.2
  · rintro h ⟨hl, hh⟩
    exact ⟨hl.mergeAll _, hh.mergeAll hl fun _ hp => sameSuccessors_of_mem_nodeMerges hp⟩

/-- **A run that promotes grounds all seeds,** whatever passes follow. -/
theorem reduce (hg : g.Modelled) (hs : g.Seeded) {passes : Passes}
    (hpass : passes.promoteSinks = true) : (g.reduce passes).2.Grounded := by
  have hsinks : ∀ id k, g.face? id = some (.sink, k) → k = some 0 ∨ k = some 1 := by
    intro id k hf
    rcases hg.known id .sink k hf (by simp) with hk | ⟨-, hl⟩
    · exact hk
    · exact absurd rfl hl
  let P : Game → Prop := fun h => Tracks g h ∧ h.Grounded
  have h₁ : P (g.passIf passes.promoteSinks Game.promoteAll).2 := by
    rw [passIf, if_pos hpass]
    exact ⟨.promoteAll hg.linked hsinks, promoteAll hs⟩
  have hprune : ∀ h : Game, P h → P h.prune.2 := fun _ hP =>
    ⟨hP.1.prune, removeNodes hP.1.linked hP.2 _⟩
  have hsinkMerges : ∀ h : Game, P h → P h.fuseSinks.2 := fun _ hP =>
    ⟨hP.1.fuseSinks,
      hP.2.mergeAll hP.1.linked fun _ hp => hP.1.sameSuccessors_of_mem_sinkMerges hp⟩
  have hmerges : ∀ h : Game, P h → P h.fuseNodes.2 := fun _ hP =>
    ⟨hP.1.fuseNodes, hP.2.fuseNodes hP.1.linked⟩
  have hloops : ∀ h : Game, P h → P h.deleteSelfLoops.2 := fun _ hP =>
    ⟨hP.1.deleteSelfLoops, hP.2.deleteSelfLoops⟩
  have h₂ := passIf_snd hprune passes.pruneSinks h₁
  have h₃ := passIf_snd hsinkMerges passes.fuseNodes h₂
  have h₄ := passIf_snd hmerges passes.fuseNodes h₃
  have h₅ := passIf_snd hloops passes.deleteSelfLoops h₄
  rw [reduce_snd]
  dsimp only
  split
  · exact h₅.2.correctLaw
  · exact h₅.2

end Grounded

/-! ### Reported values -/

/-- **When reported values are probabilities.** If the analysis of a game that was read
succeeds, every state is reported with a value. The values lie in the unit interval if
the run promotes settled nodes, whatever other passes it includes, or if no node on a
cycle of the reduced game starts above 1. -/
theorem stateValue_mem_unit_of_analyze {transitions labels : ByteArray} {settings : Settings}
    {pace : Nat} {a : Analysis} (hread : Input.readGame transitions labels = .ok g)
    (ha : g.analyze settings pace = (.ok a, h))
    (hstart : settings.reduce.promoteSinks = true ∨
      ∀ id, 1 < (ofGame h).value id → ¬ h.OnCycle id) :
    ∀ state ∈ g.states, ∃ x, a.solution.stateValue h state = .ok (some x) ∧ 0 ≤ x ∧ x ≤ 1 := by
  have hg := Input.readGame_ok hread
  have hs := Input.readGame_seeded hread
  obtain ⟨hred, hlaw, hsolve⟩ := analyze_ok ha
  have hv : Valued g h := hred ▸ (Valued.of_read hg hs).reduce settings.reduce
  have hcycle : ∀ id, 1 < (ofGame h).value id → ¬ h.OnCycle id := by
    rcases hstart with hpass | hcycle
    · have hgrounded : h.Grounded := hred ▸ Grounded.reduce hg hs hpass
      exact fun id => hgrounded.not_onCycle
    · exact hcycle
  have hrange : ∀ id, h.contains id = true → a.solution.values.value id ∈ Set.Icc (0 : Rat) 1 :=
    fun id hid => (hv.fair hlaw).mem_unit_of_solve hv.linked hcycle hsolve hid
  intro state hstate
  obtain ⟨id, hid⟩ := Option.isSome_iff_exists.1 (OrdMap.mem_keys_iff.1 hstate)
  exact hv.exists_stateValue hsolve hrange hid (hg.bound id ⟨state, hid⟩)

/-- Two sure wins and an average node that leads to them and that they lead to. Its edges
both have weight 1, so it is seeded with 2. -/
def loudSeed : Game :=
  List.foldl perform empty
    [.addNode .max, .setKnown 0 (some 1), .bindState 0 0, .addNode .average, .bindState 1 1,
      .addEdge 0 1 1, .addEdge 1 0 1, .addNode .max, .setKnown 2 (some 1), .bindState 2 2,
      .addEdge 1 2 1, .addEdge 2 1 1, .setKnown 1 (some 2)]

theorem readGame_loudSeed :
    Input.readGame "0 -1 1 1\n1 -1 1 0 -1 1 2\n2 -1 1 1\n".toUTF8
      "h\n0 max 1\n1 average -1\n2 max 1\n".toUTF8 = .ok loudSeed := by
  decide +kernel

/-- The reduced game: the sure wins are one sink. -/
def quietSeed : Game :=
  loudSeed.promoteAll.2.prune.2.fuseSinks.2.deleteSelfLoops.2.correctLaw

/-- With promotion the seed of `loudSeed` is on no cycle. -/
theorem loudSeed_mem_unit :
    ∃ a,
      Input.readGame "0 -1 1 1\n1 -1 1 0 -1 1 2\n2 -1 1 1\n".toUTF8
        "h\n0 max 1\n1 average -1\n2 max 1\n".toUTF8 = .ok loudSeed ∧
      loudSeed.analyze {} 1 = (.ok a, quietSeed) ∧ (1 : NodeId) ∈ loudSeed.states ∧
      ∃ x, a.solution.stateValue quietSeed 1 = .ok (some x) ∧ 0 ≤ x ∧ x ≤ 1 := by
  have hreduce : (loudSeed.reduce {}).2 = quietSeed := by
    have hplan : loudSeed.promoteAll.2.prune.2.fuseSinks.2.nodeMerges = [] := by
      rw [nodeMerges_of_sorted (by decide +kernel)]
      decide +kernel
    rw [reduce_full_snd, fuseNodes, fuseRounds_of_nil hplan, quietSeed]
  obtain ⟨a, ha, -⟩ := exists_analyze {} 1 (s := ⟨⟨#[1, 1, 0]⟩, ⟨true, 2, 1, 3, 0⟩, []⟩)
    hreduce (by decide +kernel) (by decide +kernel)
  have hstate : (1 : NodeId) ∈ loudSeed.states := by decide +kernel
  exact ⟨a, readGame_loudSeed, ha, hstate,
    stateValue_mem_unit_of_analyze readGame_loudSeed ha (Or.inl rfl) 1 hstate⟩

/-- **Without promotion a seed can survive.** The average node of `loudSeed` starts at 2,
and on the cycle all three states settle at 3/2. -/
theorem loudSeed_above_one :
    ∃ a,
      Input.readGame "0 -1 1 1\n1 -1 1 0 -1 1 2\n2 -1 1 1\n".toUTF8
        "h\n0 max 1\n1 average -1\n2 max 1\n".toUTF8 = .ok loudSeed ∧
      loudSeed.analyze { reduce := .minimal } 1 = (.ok a, loudSeed.correctLaw) ∧
      ∀ state ∈ loudSeed.states,
        a.solution.stateValue loudSeed.correctLaw state = .ok (some (3 / 2)) := by
  have hplan : loudSeed.correctLaw.plan = ⟨false, [[0, 1, 2]]⟩ :=
    plan_of_sorted [[0, 1, 2]] [0] (by decide +kernel) (by decide +kernel) (by decide +kernel)
      (by decide)
  have hsolve : loudSeed.correctLaw.solve {} 1 =
      .ok ⟨⟨#[3 / 2, 3 / 2, 3 / 2]⟩, ⟨false, 1, 3, 3, 0⟩, []⟩ := by
    unfold solve
    rw [hplan]
    decide +kernel
  obtain ⟨a, ha, hsa⟩ := exists_analyze { reduce := .minimal } 1 (reduce_minimal_snd loudSeed)
    (by decide +kernel) hsolve
  refine ⟨a, readGame_loudSeed, ha, ?_⟩
  rw [hsa]
  decide +kernel

end StochasticGame.Game
