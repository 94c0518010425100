import StochasticGame.Proofs.Reduction.Law
import StochasticGame.Proofs.Reduction.MergePlan
import StochasticGame.Proofs.Reduction.Sinks
import StochasticGame.Proofs.Solver.Equations

/-!
# StochasticGame.Proofs.Reduction.States

**Reduction loses no state.** A state is bound to an id for good. The node of that id
may be merged into another or removed, and the state still has an answer as long as its
id resolves: to a live node, or to a removed sink that left its payoff (`Resolves`).

No pass undoes that. Merges lead on to the node that is kept, and pruning removes only
sinks, whose payoffs are known and stay on record. What is on record is never changed,
so a payoff that is found after any number of runs is the known value that the sink had
when it was pruned (`PrunedIn`).
-/

namespace StochasticGame.Game

variable {g h h' : Game} {id r keep drop : NodeId}

/-! ### Ids that resolve -/

/-- Who stands for an id is live, or a removed sink that left its payoff. -/
def Resolves (g : Game) (id : NodeId) : Prop :=
  ∃ r, g.representative? id = some r ∧ (g.contains r = true ∨ ∃ x, g.prunedPayoff? r = some x)

theorem resolves_iff : g.Resolves id ↔
    ∃ r, g.Stands id r ∧
      (g.contains r = true ∨ ∃ x, g.grave? r = some (.removed (some x))) := by
  simp only [Resolves, prunedPayoff?_eq_some_iff]
  constructor
  · intro ⟨r, hr, hend⟩
    refine ⟨r, ?_, hend⟩
    -- the end of the chain was not merged, so the chain has ended
    cases hend with
    | inl hlive =>
      refine .of_representative? hr (lt_capacity_of_contains hlive) ?_
      simp [grave?_of_contains hlive]
    | inr hpaid =>
      obtain ⟨x, hx⟩ := hpaid
      refine .of_representative? hr (lt_capacity_of_grave? hx) ?_
      simp [hx]
  · intro ⟨r, hr, hend⟩
    exact ⟨r, hr.representative?, hend⟩

namespace Resolves

/-- Only merges and removals matter. -/
theorem of_views (hr : h.Resolves id) (hcap : h'.capacity = h.capacity)
    (hface : ∀ j, (h'.face? j).isSome = (h.face? j).isSome)
    (hgrave : ∀ j, h'.grave? j = h.grave? j) : h'.Resolves id := by
  rw [resolves_iff] at hr ⊢
  obtain ⟨r, hs, hend⟩ := hr
  refine ⟨r, hs.of_merges hcap.ge fun j into => by rw [hgrave], ?_⟩
  rwa [contains_eq_isSome_face?, hface, ← contains_eq_isSome_face?, hgrave]

theorem contract (hr : h.Resolves id) (hkd : keep ≠ drop) (hk : h.contains keep = true)
    (hd : h.contains drop = true) : (h.contract keep drop).Resolves id := by
  rw [resolves_iff] at hr ⊢
  obtain ⟨r, hs, hend⟩ := hr
  refine ⟨_, hs.contract hkd hk hd, ?_⟩
  by_cases hrd : r = drop
  · left
    rw [if_pos hrd, contains_contract_of_ne hkd hk hd hkd, hk]
  · rwa [if_neg hrd, contains_contract_of_ne hkd hk hd hrd, grave?_contract hkd hk hd, if_neg hrd]

end Resolves

/-! ### What pruning records -/

/-- A pruned sink leaves its payoff; the other slots stay as they are. -/
theorem grave?_prune (h : Game) (j : NodeId) :
    h.prune.2.grave? j =
      if j ∈ h.orphanSinks then (h.face? j).map fun f => Slot.removed f.2 else h.grave? j := by
  rw [prune, grave?_foldl_removeNode]
  split
  · rename_i hj
    obtain ⟨⟨k, hf⟩, -⟩ := mem_orphanSinks.1 hj
    rw [hf]
    rfl
  · rfl

theorem Resolves.prune (hr : h.Resolves id) (hpay : ∀ j, h.face? j ≠ some (.sink, none)) :
    h.prune.2.Resolves id := by
  rw [resolves_iff] at hr ⊢
  obtain ⟨r, hs, hend⟩ := hr
  have hcap : h.prune.2.capacity = h.capacity := by
    rw [Game.prune, foldl_view capacity fun g j => capacity_removeNode g j]
  have hlive : ∀ {j}, j ∈ h.orphanSinks → h.contains j = true := by
    intro j hj
    obtain ⟨⟨k, hf⟩, -⟩ := mem_orphanSinks.1 hj
    rw [contains_eq_isSome_face?, hf]
    rfl
  refine ⟨r, hs.of_merges hcap.ge ?_, ?_⟩
  · intro j into
    rw [grave?_prune]
    split
    · rename_i hj
      rw [grave?_of_contains (hlive hj)]
      cases h.face? j <;> simp
    · rfl
  · rw [grave?_prune]
    by_cases horphan : r ∈ h.orphanSinks
    · obtain ⟨⟨k, hf⟩, -⟩ := mem_orphanSinks.1 horphan
      cases k with
      | none => exact absurd hf (hpay r)
      | some x => exact Or.inr ⟨x, by rw [if_pos horphan, hf]; rfl⟩
    · rwa [if_neg horphan, contains_eq_isSome_face?, face?_prune, if_neg horphan,
        ← contains_eq_isSome_face?]

/-! ### Games whose states have an answer -/

/-- Every state of `g` has an answer in `h`. -/
structure Answers (g h : Game) : Prop where
  /-- The edges are recorded consistently. -/
  linked : h.Linked
  /-- States stay bound. -/
  bindings_eq : h.bindings = g.bindings
  /-- Every sink has a payoff. -/
  payoff : ∀ id, h.face? id ≠ some (.sink, none)
  /-- What states are bound to resolves. -/
  resolves : ∀ state id, g.bindings.find? state = some id → h.Resolves id

namespace Answers

theorem promoteAll (ha : Answers g h) : Answers g h.promoteAll.2 := by
  obtain ⟨hcap, hbind, hgrave, -, -⟩ := promoteEach_views h.nodeIds h
  refine ⟨ha.linked.promoteAll, hbind.trans ha.bindings_eq, ?_, ?_⟩
  · intro id hf
    rw [face?_promoteAll, Option.map_eq_some_iff] at hf
    obtain ⟨f, hf, he⟩ := hf
    by_cases hs : f.2 = some 0 ∨ f.2 = some 1
    · rw [promotedFace_of_settled hs, Prod.mk.injEq] at he
      rw [he.2] at hs
      simp at hs
    · rw [promotedFace_of_not_settled hs] at he
      exact ha.payoff id (he ▸ hf)
  · intro state id hid
    refine (ha.resolves state id hid).of_views hcap ?_ hgrave
    intro j
    rw [face?_promoteAll, Option.isSome_map]

theorem prune (ha : Answers g h) : Answers g h.prune.2 where
  linked := ha.linked.prune
  bindings_eq := by
    rw [Game.prune, foldl_view bindings fun g j => bindings_removeNode g j]
    exact ha.bindings_eq
  payoff id hf := by
    rw [face?_prune] at hf
    split at hf
    · cases hf
    · exact ha.payoff id hf
  resolves state id hid := (ha.resolves state id hid).prune ha.payoff

theorem contract (ha : Answers g h) (hkd : keep ≠ drop) (hk : h.contains keep = true)
    (hd : h.contains drop = true) : Answers g (h.contract keep drop) where
  linked := ha.linked.contract keep drop
  bindings_eq := (bindings_contract ..).trans ha.bindings_eq
  payoff id hf := ha.payoff id (face?_of_contract hkd hk hd hf).2
  resolves state id hid := (ha.resolves state id hid).contract hkd hk hd

theorem mergeAll (ha : Answers g h) (plan : List (NodeId × NodeId)) :
    Answers g (h.mergeAll plan) :=
  mergeAll_invariant ha plan fun _ _ _ ha hkd hk hd => ha.contract hkd hk hd

theorem fuseNodes (ha : Answers g h) : Answers g h.fuseNodes.2 :=
  fuseNodes_induction ha fun _ hh => hh.mergeAll _

theorem deleteSelfLoops (ha : Answers g h) : Answers g h.deleteSelfLoops.2 where
  linked := ha.linked.deleteSelfLoops
  bindings_eq := (bindings_deleteSelfLoops h).trans ha.bindings_eq
  payoff id hf := ha.payoff id (face?_deleteSelfLoops h id ▸ hf)
  resolves state id hid := (ha.resolves state id hid).of_views (capacity_deleteSelfLoops h)
    (fun j => by rw [face?_deleteSelfLoops]) (grave?_deleteSelfLoops h)

theorem correctLaw (ha : Answers g h) : Answers g h.correctLaw where
  linked := ha.linked.correctLaw
  bindings_eq := (bindings_correctLaw h).trans ha.bindings_eq
  payoff id hf := ha.payoff id (face?_correctLaw h id ▸ hf)
  resolves state id hid := (ha.resolves state id hid).of_views (capacity_correctLaw h)
    (fun j => by rw [face?_correctLaw]) (grave?_correctLaw h)

/-- **A reduction run loses no state,** whichever passes it includes. -/
theorem reduce (ha : Answers g h) (passes : Passes) : Answers g (h.reduce passes).2 :=
  reduce_snd_induction ha passes (fun _ => promoteAll) (fun _ => prune)
    (fun _ hh => hh.mergeAll _) (fun _ => fuseNodes) (fun _ => deleteSelfLoops)
    (fun _ => correctLaw)

/-- A solved game reports a value for every state that has an answer. -/
theorem exists_stateValue (ha : Answers g h) {settings : SolverSettings} {pace : Nat}
    {sol : Solution} (hs : h.solve settings pace = .ok sol) {state : State}
    (hid : g.bindings.find? state = some id) : ∃ x, sol.stateValue h state = .ok (some x) := by
  obtain ⟨r, hr, hend⟩ := ha.resolves state id hid
  rw [Solution.stateValue, ha.bindings_eq, hid]
  dsimp only
  rw [hr]
  dsimp only
  by_cases hlive : h.contains r = true
  · exact ⟨_, by rw [if_pos hlive, ha.linked.value?_of_solve hs hlive]⟩
  · obtain ⟨x, hx⟩ := hend.resolve_left hlive
    exact ⟨x, by rw [if_neg hlive, hx]⟩

end Answers

/-! ### Runs one after another -/

/-- The game after reduction runs, whether they succeed or not. -/
def reduceAll (g : Game) (runs : List Passes) : Game :=
  runs.foldl (fun g passes => (g.reduce passes).2) g

theorem Answers.reduceAll (ha : Answers g h) (runs : List Passes) :
    Answers g (h.reduceAll runs) := by
  unfold Game.reduceAll
  induction runs generalizing h with
  | nil => exact ha
  | cons passes runs ih => exact ih (ha.reduce passes)

/-- The game that the pruning pass of a run starts from. -/
def beforePruning (g : Game) (passes : Passes) : Game :=
  (g.passIf passes.promoteSinks promoteAll).2

/-- One of the runs prunes a node, which is then a sink of known value `x`. -/
def PrunedIn (r : NodeId) (x : Rat) : List Passes → Game → Prop
  | [], _ => False
  | passes :: runs, g =>
    (passes.pruneSinks = true ∧ r ∈ (g.beforePruning passes).orphanSinks ∧
      (g.beforePruning passes).face? r = some (.sink, some x)) ∨
    PrunedIn r x runs (g.reduce passes).2

/-- Merges leave what removed nodes have left. -/
theorem removed_of_mergeAll {plan : List (NodeId × NodeId)} {k : Option Rat}
    (hk : (h.mergeAll plan).grave? r = some (.removed k)) : h.grave? r = some (.removed k) := by
  have hback : ∀ r k, (h.mergeAll plan).grave? r = some (.removed k) →
      h.grave? r = some (.removed k) := by
    refine mergeAll_invariant (P := fun h' => ∀ r k, h'.grave? r = some (.removed k) →
      h.grave? r = some (.removed k)) (fun _ _ hk => hk) plan ?_
    intro h' keep drop hh hkd hkeep hdrop r k hk
    rw [grave?_contract hkd hkeep hdrop] at hk
    split at hk
    · cases hk
    · exact hh r k hk
  exact hback r k hk

/-- What a removed node has left after a run was there before, or the run pruned it. -/
theorem removed_of_reduce {passes : Passes} {k : Option Rat}
    (hk : (h.reduce passes).2.grave? r = some (.removed k)) :
    h.grave? r = some (.removed k) ∨
      (passes.pruneSinks = true ∧ r ∈ (h.beforePruning passes).orphanSinks ∧
        (h.beforePruning passes).face? r = some (.sink, k)) := by
  let pruned := ((h.beforePruning passes).passIf passes.pruneSinks prune).2
  -- after the pruning pass nothing is removed
  let P : Game → Prop := fun h' => ∀ r k, h'.grave? r = some (.removed k) →
    pruned.grave? r = some (.removed k)
  have hmerge : ∀ (h' : Game) plan, P h' → P (h'.mergeAll plan) :=
    fun _ _ hh r k hk => hh r k (removed_of_mergeAll hk)
  let sinksFused := (pruned.passIf passes.fuseNodes fuseSinks).2
  let fused := (sinksFused.passIf passes.fuseNodes fuseNodes).2
  have hsinks : P sinksFused := passIf_snd (fun h' hh => hmerge h' _ hh) _ fun _ _ hk => hk
  have hfused : P fused :=
    passIf_snd (fun h' hh => fuseNodes_induction hh fun h' hh => hmerge h' _ hh) _ hsinks
  have hloops : P (fused.passIf passes.deleteSelfLoops deleteSelfLoops).2 :=
    passIf_snd (fun h' hh r k hk => hh r k (grave?_deleteSelfLoops h' r ▸ hk)) _ hfused
  have hpruned : pruned.grave? r = some (.removed k) := by
    rw [reduce_snd] at hk
    dsimp only at hk
    split at hk
    · exact hloops r k (grave?_correctLaw _ r ▸ hk)
    · exact hloops r k hk
  have hpromoted : ∀ j, (h.beforePruning passes).grave? j = h.grave? j := by
    intro j
    unfold beforePruning passIf
    split
    · exact (promoteEach_views h.nodeIds h).2.2.1 j
    · rfl
  rw [← hpromoted]
  by_cases hon : passes.pruneSinks = true
  · have hgrave : (h.beforePruning passes).prune.2.grave? r = some (.removed k) := by
      simpa only [pruned, passIf, if_pos hon] using hpruned
    rw [grave?_prune] at hgrave
    split at hgrave
    · rename_i horphan
      obtain ⟨⟨k', hf⟩, -⟩ := mem_orphanSinks.1 horphan
      rw [hf, Option.map_some, Option.some_inj, Slot.removed.injEq] at hgrave
      exact Or.inr ⟨hon, horphan, hgrave ▸ hf⟩
    · exact Or.inl hgrave
  · left
    simpa only [pruned, passIf, if_neg hon] using hpruned

/-- A payoff on record after runs was there before, or is the known value of a sink that one
of the runs pruned. -/
theorem prunedPayoff?_of_reduceAll {runs : List Passes} {x : Rat}
    (hx : (g.reduceAll runs).prunedPayoff? r = some x) :
    g.prunedPayoff? r = some x ∨ PrunedIn r x runs g := by
  induction runs generalizing g with
  | nil => exact Or.inl hx
  | cons passes runs ih =>
    cases ih hx with
    | inr hlater => exact Or.inr (Or.inr hlater)
    | inl hnow =>
      rw [prunedPayoff?_eq_some_iff] at hnow ⊢
      exact (removed_of_reduce hnow).imp_right Or.inl

/-- **No state is lost.** Let every sink have a payoff and every bound state resolve. Then
reduction runs, whichever passes they include and whether or not they succeed, leave the
states and their order. Every state still resolves to a live node, or to a removed sink
whose payoff on record was there before the runs or is its known value when it was
pruned. So a solved game reports a value for every state. -/
theorem states_survive_runs (hg : g.Linked)
    (hsinks : ∀ id n, g.node? id = some n → n.label = .sink → n.known ≠ none)
    (hstates : ∀ state id, g.bindings.find? state = some id → g.Resolves id)
    (runs : List Passes) :
    (g.reduceAll runs).states = g.states ∧
    (∀ state ∈ g.states, ∃ id r, (g.reduceAll runs).bindings.find? state = some id ∧
      g.bindings.find? state = some id ∧ (g.reduceAll runs).representative? id = some r ∧
      ((g.reduceAll runs).contains r = true ∨
        (g.reduceAll runs).contains r = false ∧ ∃ x, (g.reduceAll runs).prunedPayoff? r = some x ∧
          (g.prunedPayoff? r = some x ∨ PrunedIn r x runs g))) ∧
    ∀ settings pace sol, (g.reduceAll runs).solve settings pace = .ok sol →
      ∀ state ∈ g.states, ∃ x, sol.stateValue (g.reduceAll runs) state = .ok (some x) := by
  have hstart : Answers g g := by
    refine ⟨hg, rfl, ?_, hstates⟩
    intro id hf
    obtain ⟨n, hn, hl, hk⟩ := face?_eq_some_iff.1 hf
    exact hsinks id n hn hl hk
  have ha : Answers g (g.reduceAll runs) := hstart.reduceAll runs
  have hbound : ∀ state ∈ g.states, ∃ id, g.bindings.find? state = some id := fun state hstate =>
    Option.isSome_iff_exists.1 (OrdMap.mem_keys_iff.1 hstate)
  refine ⟨by rw [states, states, ha.bindings_eq], ?_, ?_⟩
  · intro state hstate
    obtain ⟨id, hid⟩ := hbound state hstate
    obtain ⟨r, hr, hend⟩ := ha.resolves state id hid
    refine ⟨id, r, ha.bindings_eq ▸ hid, hid, hr, ?_⟩
    by_cases hlive : (g.reduceAll runs).contains r = true
    · exact Or.inl hlive
    · obtain ⟨x, hx⟩ := hend.resolve_left hlive
      exact Or.inr ⟨Bool.eq_false_iff.2 hlive, x, hx, prunedPayoff?_of_reduceAll hx⟩
  · intro settings pace sol hsol state hstate
    obtain ⟨id, hid⟩ := hbound state hstate
    exact ha.exists_stateValue hsol hid

/-- A sure win that nothing leads to, an average node whose weights are wrong, the two
sinks it leads to, and another sink that nothing leads to. -/
def guests : Game :=
  List.foldl perform empty
    [.addNode .max, .setKnown 0 (some 1), .addNode .average, .addSink false, .addSink true,
      .addSink true, .addEdge 0 1 1, .addEdge 1 2 (1 / 3), .addEdge 1 3 (1 / 3), .bindState 7 0,
      .bindState 8 1, .bindState 9 4]

/-- A run that fails on `guests` and prunes the last sink, and one that also promotes. -/
def guestRuns : List Passes :=
  [{ promoteSinks := false, fuseNodes := false, correctProbabilities := false },
    { fuseNodes := false }]

/-- The sure win is promoted and pruned in the second run, after the first has failed. -/
theorem guests_survive_runs :
    (guests.reduce guestRuns[0]).1 = .error ⟨1, 2 / 3⟩ ∧
    (guests.reduceAll guestRuns).states = [7, 8, 9] ∧
    (∃ x, (guests.reduceAll guestRuns).prunedPayoff? 0 = some x ∧ PrunedIn 0 x guestRuns guests) ∧
    ∀ settings pace sol, (guests.reduceAll guestRuns).solve settings pace = .ok sol →
      ∀ state ∈ [7, 8, 9],
        ∃ x, sol.stateValue (guests.reduceAll guestRuns) state = .ok (some x) := by
  have hlinked : guests.Linked := Reachable.linked ⟨_, rfl⟩
  have hsinks : ∀ e ∈ guests.nodes, e.2.label = .sink → e.2.known ≠ none := by decide +kernel
  have hbound : ∀ e ∈ guests.bindings.entries, guests.contains e.2 = true := by decide +kernel
  have hresolves : ∀ state id, guests.bindings.find? state = some id → guests.Resolves id := by
    intro state id hid
    have hlive := hbound _ (OrdMap.find?_eq_some_iff.1 hid)
    exact ⟨id, (Stands.of_contains hlive).representative?, Or.inl hlive⟩
  have hstates : guests.states = [7, 8, 9] := by decide +kernel
  have hwin : guests.bindings.find? 7 = some 0 ∧ guests.prunedPayoff? 0 = none ∧
      (guests.reduceAll guestRuns).representative? 0 = some 0 ∧
      (guests.reduceAll guestRuns).contains 0 = false := by decide +kernel
  obtain ⟨hlist, hresolve, hvalue⟩ := states_survive_runs hlinked
    (fun id n hn => hsinks (id, n) (mem_nodes.2 hn)) hresolves guestRuns
  refine ⟨by decide +kernel, hlist.trans hstates, ?_, ?_⟩
  · obtain ⟨id, r, -, hid, hr, hend⟩ := hresolve 7 (by rw [hstates]; simp)
    obtain rfl : 0 = id := Option.some_inj.1 (hwin.1.symm.trans hid)
    obtain rfl : 0 = r := Option.some_inj.1 (hwin.2.2.1.symm.trans hr)
    rw [hwin.2.2.2] at hend
    obtain ⟨-, x, hx, horigin⟩ := hend.resolve_left (by simp)
    refine ⟨x, hx, horigin.resolve_left ?_⟩
    simp [hwin.2.1]
  · intro settings pace sol hsol state hstate
    exact hvalue settings pace sol hsol state (hstates ▸ hstate)

end StochasticGame.Game
