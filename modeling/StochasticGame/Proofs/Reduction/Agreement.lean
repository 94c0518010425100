import StochasticGame.Proofs.Input.Modelled
import StochasticGame.Proofs.Reduction.Carry

/-!
# StochasticGame.Proofs.Reduction.Agreement

**When reduction leaves the reported values alone.** A game that was read from files is
analyzed twice, with all passes and with the correction of probabilities only. The
values of the full run, carried back, satisfy the equations of the unreduced game
except at `Touched` states. The two runs report the same values exactly if they do
so there as well, and if they agree with the unreduced run somewhere in every trap.

The values can differ: fusing two sinks of a fair draw among three changes its odds,
because the correction comes after the fusion.
-/

namespace StochasticGame.Game

variable {g h : Game} {id : NodeId} {v : NodeId → Rat} {solver : SolverSettings}
  {pace pace' : Nat} {s : Solution}

/-! ### Nodes without a state -/

theorem bound_iff : g.Bound id ↔ id ∈ g.bindings.values := by
  rw [OrdMap.values, List.mem_map]
  constructor
  · intro hb
    obtain ⟨state, hs⟩ := hb
    exact ⟨(state, id), OrdMap.find?_eq_some_iff.1 hs, rfl⟩
  · intro hmem
    obtain ⟨e, he, rfl⟩ := hmem
    exact ⟨e.1, OrdMap.find?_eq_some_iff.2 he⟩

instance : Decidable (g.Bound id) := decidable_of_iff _ bound_iff.symm

/-- A valuation of the states, extended to the nodes that no state is bound to. These
are average nodes that lead to states. -/
def completed (g : Game) (v : NodeId → Rat) (id : NodeId) : Rat :=
  if g.Bound id then v id else ((g.node? id).map fun n => n.weightedSum v).getD 0

/-- The passes altered a state or a branch that it offers. -/
def Touched (g h : Game) (id : NodeId) : Prop :=
  g.Altered h id ∨ ∃ s ∈ g.successors id, ¬ g.Bound s ∧ g.Altered h s

instance : Decidable (g.Touched h id) :=
  inferInstanceAs (Decidable (g.Altered h id ∨ ∃ s ∈ g.successors id, ¬ g.Bound s ∧ g.Altered h s))

theorem bound_correctLaw_iff : g.correctLaw.Bound id ↔ g.Bound id := by
  rw [Bound, Bound, bindings_correctLaw]

theorem completed_of_bound (hb : g.Bound id) :
    g.correctLaw.completed v id = v id := if_pos (bound_correctLaw_iff.2 hb)

/-- A node without a state is an average node that leads to states. -/
theorem Modelled.node?_correctLaw_of_not_bound (hg : g.Modelled) (hid : g.contains id = true)
    (hb : ¬ g.Bound id) : ∃ n, g.correctLaw.node? id = some n ∧ n.label = .average ∧
      g.correctLaw.completed v id = n.weightedSum v ∧ ∀ s ∈ n.successors, g.Bound s := by
  obtain ⟨k, hf⟩ := hg.label id hid hb
  obtain ⟨n, hn⟩ := contains_iff.1 ((contains_correctLaw g id).trans hid)
  have hl : n.label = .average := by
    rw [← face?_correctLaw, face?_of_node? hn] at hf
    exact congrArg Prod.fst (Option.some_inj.1 hf)
  refine ⟨n, hn, hl, ?_, ?_⟩
  · rw [completed, if_neg (fun h => hb (bound_correctLaw_iff.1 h)), hn]
    rfl
  · intro s hs
    refine hg.target id hb s ?_
    rwa [← successors_correctLaw, successors_of_node? hn]

/-- A completed valuation satisfies the equations of the nodes without a state. -/
theorem Modelled.fixedAt_completed_of_not_bound (hg : g.Modelled) (hb : ¬ g.Bound id) :
    g.correctLaw.FixedAt (g.correctLaw.completed v) id := by
  intro n hn x hx
  have hid : g.contains id = true := by
    rw [← contains_correctLaw]
    exact contains_iff.2 ⟨n, hn⟩
  obtain ⟨n', hn', hl, hcomp, hbound⟩ := hg.node?_correctLaw_of_not_bound (v := v) hid hb
  obtain rfl := Option.some_inj.1 (hn.symm.trans hn')
  rw [Node.Yields, hl] at hx
  rw [hcomp, ← hx]
  exact Node.weightedSum_congr fun s hs => (completed_of_bound (hbound s hs)).symm

/-! ### Carried values -/

/-- The values of a reduced game, carried back and completed, satisfy the equations of
the states that were not touched. -/
theorem Modelled.fixedAt_completed_carry (hg : g.Modelled) (ht : Tracks g h)
    (hloop : ∀ a, a ∉ h.successors a) (hu : h.Uniform) (hv : h.Solves v) (hb : g.Bound id)
    (hid : ¬ g.Touched h id) :
    g.correctLaw.FixedAt (g.correctLaw.completed (h.carry v)) id := by
  rw [Touched, not_or] at hid
  refine (ht.fixedAt_carry hloop hu hv hid.1).congr (completed_of_bound hb) ?_
  intro s hs
  rw [successors_correctLaw] at hs
  by_cases hbs : g.Bound s
  · exact completed_of_bound hbs
  · -- a branch that was not altered has its mean already
    have hlive : g.contains s = true := hg.linked.contains_target hs
    obtain ⟨n, hn, hl, hcomp, -⟩ := hg.node?_correctLaw_of_not_bound (v := h.carry v) hlive hbs
    rw [hcomp]
    have hfix := ht.fixedAt_carry hloop hu hv fun ha => hid.2 ⟨s, hs, hbs, ha⟩
    refine (hfix n hn _ ?_).symm
    rw [Node.Yields, hl]

/-- A state is reported with its carried value. -/
theorem Tracks.stateValue_eq (ht : Tracks g h) (hs : h.solve solver pace = .ok s) {state : State}
    (hstate : h.bindings.find? state = some id) (hid : g.contains id = true) :
    s.stateValue h state = .ok (some (h.carry s.values.value id)) := by
  obtain ⟨r, hr, hkind, hlive⟩ := ht.stands id hid
  rw [Solution.stateValue, hstate]
  dsimp only
  rw [hr.representative?]
  dsimp only
  rcases hlive with hlive | ⟨k, hk, hgrave⟩
  · rw [if_pos hlive, ht.linked.value?_of_solve hs hlive, carry_of_live hr hlive]
  · obtain ⟨hdead, hpay⟩ := prunedPayoff?_of_grave? hgrave
    rw [if_neg (by simp [hdead]), hpay, carry_of_removed hr hgrave]
    rcases ht.settled_of_kind hk with rfl | rfl <;> rfl

/-- A live state is reported with the value of its node. -/
theorem Linked.stateValue_eq (hh : h.Linked) (hs : h.solve solver pace = .ok s) {state : State}
    (hstate : h.bindings.find? state = some id) (hid : h.contains id = true) :
    s.stateValue h state = .ok (some (s.values.value id)) := by
  rw [Solution.stateValue, hstate]
  dsimp only
  rw [(Stands.of_contains hid).representative?]
  dsimp only
  rw [if_pos hid, hh.value?_of_solve hs hid]

/-! ### Idle nodes -/

/-- An idle node of the unreduced game is a player without successors. -/
theorem Modelled.idle_cases (hg : g.Modelled) (hi : g.correctLaw.Idle id) :
    ∃ l k, g.face? id = some (l, k) ∧ (l = .max ∨ l = .min) ∧ g.successors id = [] := by
  obtain ⟨n, hn, hcases⟩ := hi.cases
  have hf : g.face? id = some (n.label, n.known) := by
    rw [← face?_correctLaw, face?_of_node? hn]
  rcases hcases with ⟨hl, hs⟩ | ⟨hl, hk⟩
  · refine ⟨n.label, n.known, hf, hl, ?_⟩
    rw [← successors_correctLaw, successors_of_node? hn, hs]
  · rw [hl, hk] at hf
    exact absurd (hg.known id .sink none hf (by simp)) (by simp)

/-- A player without successors has the same value in both runs. -/
theorem Modelled.carry_of_idle {s' : Solution} (hg : g.Modelled) (ht : Tracks g h)
    (hloop : ∀ a, a ∉ h.successors a) (hs : h.solve solver pace = .ok s)
    (hs' : g.correctLaw.solve solver pace' = .ok s') (hi : g.correctLaw.Idle id) :
    h.carry s.values.value id = s'.values.value id := by
  obtain ⟨l, k, hf, hl, hnil⟩ := hg.idle_cases hi
  have hlavg : l ≠ .average := by rcases hl with rfl | rfl <;> simp
  have hlsink : l ≠ .sink := by rcases hl with rfl | rfl <;> simp
  have hf' : g.correctLaw.face? id = some (l, k) := (face?_correctLaw g id).trans hf
  rcases hg.known id l k hf hlavg with hk | ⟨rfl, -⟩
  · -- a settled player is a sink of the reduced game
    have hkind : g.kind? id = some (.sink, k) := by
      rw [kind?, hf, Option.map_some, kindOf, if_pos hk]
    rw [value_of_idle hs' hi hf' (Or.inr hk)]
    have hv := ht.linked.solves_of_solve hs
    rcases hk with rfl | rfl <;> exact ht.carry_of_settled hv hkind
  · -- an unsettled one stays a player without successors
    have hkind : g.kind? id = some (l, none) := by
      rw [kind?, hf]
      rfl
    have hinner : g.Inner id := ⟨l, hlsink, hkind⟩
    obtain ⟨r, hr, -, -⟩ := ht.stands id hinner.contains
    obtain ⟨n, hn, rfl⟩ := ht.node?_of_kind hlsink hkind hr
    have hnr : n.successors = [] := by
      rw [← successors_of_node? hn, List.eq_nil_iff_forall_not_mem]
      intro t hedge
      obtain ⟨u, hu, -⟩ := ht.exists_carry_eq (v := s.values.value) hloop hinner hr hedge
      rw [hnil] at hu
      exact List.not_mem_nil hu
    have hknown : n.known = none := by
      obtain ⟨hfr, hns⟩ := ht.face?_of_ne_sink hlsink (face?_of_node? hn)
      rcases hg.known r n.label n.known hfr hlavg with hset | ⟨hnone, -⟩
      · exact absurd hset hns
      · exact hnone
    rw [value_of_idle hs' hi hf' (Or.inl rfl), carry_of_live hr (ht.live_of_inner hinner hr),
      value_of_idle hs (idle_of_no_successor hn hl hnr) (face?_of_node? hn) (Or.inl hknown), hknown]

/-! ### Two runs -/

theorem reduce_minimal_snd (g : Game) : (g.reduce .minimal).2 = g.correctLaw := by
  simp only [reduce_snd, passIf, Passes.minimal]
  rfl

/-- What two successful runs on a game read from files have computed. -/
structure Runs (g h : Game) (s s' : Solution) : Prop where
  /-- The game was read from files. -/
  modelled : g.Modelled
  /-- The reduced game keeps track of it, -/
  tracks : Tracks g h
  /-- has no self-loops -/
  loopless : ∀ a, a ∉ h.successors a
  /-- and takes means at average nodes. -/
  uniform : h.Uniform
  /-- The values of the full run solve the reduced game, -/
  solves : h.Solves s.values.value
  /-- those of the other run the unreduced one. -/
  solves' : g.correctLaw.Solves s'.values.value
  /-- Idle nodes have the same value. -/
  idle : ∀ id, g.correctLaw.Idle id → h.carry s.values.value id = s'.values.value id
  /-- States are reported with the carried value -/
  reported : ∀ state id, g.bindings.find? state = some id →
    s.stateValue h state = .ok (some (h.carry s.values.value id))
  /-- or with that of their node, -/
  reported' : ∀ state id, g.bindings.find? state = some id →
    s'.stateValue g.correctLaw state = .ok (some (s'.values.value id))
  /-- and other states are not reported at all. -/
  unknown : ∀ state, g.bindings.find? state = none →
    s.stateValue h state = .ok none ∧ s'.stateValue g.correctLaw state = .ok none

theorem runs_of_analyze {transitions labels : ByteArray} {minimal : Game} {a b : Analysis}
    (hread : Input.readGame transitions labels = .ok g)
    (hfull : g.analyze { solver } pace = (.ok a, h))
    (hmin : g.analyze { reduce := .minimal, solver } pace' = (.ok b, minimal)) :
    minimal = g.correctLaw ∧ Runs g h a.solution b.solution := by
  have hg := Input.readGame_ok hread
  obtain ⟨hred, hlaw, hs⟩ := analyze_ok hfull
  obtain ⟨hred', -, hs'⟩ := analyze_ok hmin
  dsimp only at hred hs hred' hs'
  rw [reduce_minimal_snd] at hred'
  subst hred'
  have ht : Tracks g h := by
    rw [← hred]
    refine Tracks.reduce hg.linked ?_
    intro id k hf
    rcases hg.known id .sink k hf (by simp) with hk | ⟨-, hne⟩
    · exact hk
    · exact absurd rfl hne
  rw [reduce_full_snd] at hred
  have hloop : ∀ a, a ∉ h.successors a := by
    intro a
    rw [← hred, successors_correctLaw]
    exact not_mem_successors_deleteSelfLoops _ a
  have hu : h.Uniform := by
    rw [← hred] at hlaw ⊢
    exact uniform_correctLaw hlaw
  have hlive : ∀ {state id}, g.bindings.find? state = some id → g.contains id = true :=
    fun hstate => hg.whole _ (hg.bound _ ⟨_, hstate⟩)
  refine ⟨rfl, hg, ht, hloop, hu, ht.linked.solves_of_solve hs,
    hg.linked.correctLaw.solves_of_solve hs', ?_, ?_, ?_, ?_⟩
  · intro id hi
    exact hg.carry_of_idle ht hloop hs hs' hi
  · intro state id hstate
    refine ht.stateValue_eq hs ?_ (hlive hstate)
    rw [ht.bindings_eq, hstate]
  · intro state id hstate
    refine hg.linked.correctLaw.stateValue_eq hs' ?_ ?_
    · rw [bindings_correctLaw, hstate]
    · rw [contains_correctLaw]
      exact hlive hstate
  · intro state hstate
    rw [Solution.stateValue, Solution.stateValue, ht.bindings_eq, bindings_correctLaw, hstate]
    exact ⟨rfl, rfl⟩

namespace Runs

variable {s' : Solution}

/-- The runs agree if they give the states the same values. -/
theorem agree_iff (hr : Runs g h s s') :
    (∀ state, s.stateValue h state = s'.stateValue g.correctLaw state) ↔
      ∀ id, g.Bound id → h.carry s.values.value id = s'.values.value id := by
  constructor
  · rintro hall id ⟨state, hstate⟩
    have heq := hall state
    rw [hr.reported state id hstate, hr.reported' state id hstate] at heq
    exact Option.some_inj.1 (Except.ok.inj heq)
  · intro hall state
    cases hstate : g.bindings.find? state with
    | none => rw [(hr.unknown state hstate).1, (hr.unknown state hstate).2]
    | some id =>
      rw [hr.reported state id hstate, hr.reported' state id hstate, hall id ⟨state, hstate⟩]

/-- Runs that agree on the states agree on all nodes. -/
theorem completed_eq (hr : Runs g h s s')
    (hall : ∀ id, g.Bound id → h.carry s.values.value id = s'.values.value id)
    (hid : g.contains id = true) :
    g.correctLaw.completed (h.carry s.values.value) id = s'.values.value id := by
  by_cases hb : g.Bound id
  · rw [completed_of_bound hb, hall id hb]
  · obtain ⟨n, hn, hl, hcomp, hbound⟩ :=
      hr.modelled.node?_correctLaw_of_not_bound (v := h.carry s.values.value) hid hb
    rw [hcomp, Node.weightedSum_congr fun t ht => hall t (hbound t ht)]
    refine (hr.solves' id n hn _ ?_).symm
    rw [Node.Yields, hl]

/-- The values of the full run, carried back and completed, solve the unreduced game if
they do so at the touched states. -/
theorem solves_completed (hr : Runs g h s s')
    (htouched : ∀ id, g.Bound id → g.Touched h id →
      g.correctLaw.FixedAt (g.correctLaw.completed (h.carry s.values.value)) id) :
    g.correctLaw.Solves (g.correctLaw.completed (h.carry s.values.value)) := by
  intro id
  by_cases hb : g.Bound id
  · by_cases ht : g.Touched h id
    · exact htouched id hb ht
    · exact hr.modelled.fixedAt_completed_carry hr.tracks hr.loopless hr.uniform hr.solves hb ht
  · exact hr.modelled.fixedAt_completed_of_not_bound hb

/-- Carried and completed values agree with the other run at idle nodes. -/
theorem completed_of_idle (hr : Runs g h s s') (hi : g.correctLaw.Idle id) :
    g.correctLaw.completed (h.carry s.values.value) id = s'.values.value id := by
  obtain ⟨l, k, hf, hl, -⟩ := hr.modelled.idle_cases hi
  have hb : g.Bound id := by
    by_contra hb
    have hid : g.contains id = true := by
      rw [contains_eq_isSome_face?, hf]
      rfl
    obtain ⟨k', hf'⟩ := hr.modelled.label id hid hb
    rw [hf] at hf'
    obtain ⟨rfl, -⟩ := Prod.mk.inj (Option.some_inj.1 hf')
    rcases hl with hl | hl <;> simp at hl
  rw [completed_of_bound hb, hr.idle id hi]

/-- If carried values satisfy the equations of the touched states and agree with the
other run somewhere in every trap, they agree with it on all states. -/
theorem carry_eq (hr : Runs g h s s')
    (htouched : ∀ id, g.Bound id → g.Touched h id →
      g.correctLaw.FixedAt (g.correctLaw.completed (h.carry s.values.value)) id)
    (htrap : ∀ S, g.correctLaw.Trap S → ∃ id ∈ S,
      g.correctLaw.completed (h.carry s.values.value) id = s'.values.value id)
    (hb : g.Bound id) : h.carry s.values.value id = s'.values.value id := by
  have hid : g.correctLaw.contains id = true := by
    rw [contains_correctLaw]
    exact hr.modelled.whole id (hr.modelled.bound id hb)
  have heq := (hr.solves_completed htouched).eq_of_traps hr.solves'
    hr.modelled.linked.correctLaw g.substochastic_correctLaw
    (fun id hi => hr.completed_of_idle hi) htrap hid
  rwa [completed_of_bound hb] at heq

end Runs

/-- **When reduction leaves the reported values alone.** For files that are read, and two
analyses that succeed, one with all passes and one with the correction of probabilities
only: they report the same value for every state exactly if the values of the full run,
carried back, satisfy the unreduced equations at the touched states and agree with the
other run somewhere in every trap. -/
theorem analyses_agree_iff {transitions labels : ByteArray} {minimal : Game} {a b : Analysis}
    (hread : Input.readGame transitions labels = .ok g)
    (hfull : g.analyze { solver } pace = (.ok a, h))
    (hmin : g.analyze { reduce := .minimal, solver } pace' = (.ok b, minimal)) :
    (∀ state, a.solution.stateValue h state = b.solution.stateValue minimal state) ↔
      (∀ id, g.Bound id → g.Touched h id →
        minimal.FixedAt (minimal.completed (h.carry a.solution.values.value)) id) ∧
      ∀ S, minimal.Trap S → ∃ id ∈ S,
        minimal.completed (h.carry a.solution.values.value) id = b.solution.values.value id := by
  obtain ⟨rfl, hr⟩ := runs_of_analyze hread hfull hmin
  rw [hr.agree_iff]
  have hlive : ∀ {id}, g.correctLaw.contains id = true ↔ g.contains id = true := by
    intro id
    rw [contains_correctLaw]
  constructor
  · intro hall
    have heq := fun id (hid : g.contains id = true) => hr.completed_eq hall hid
    constructor
    · -- what equals a solution at a node and its successors satisfies its equation
      intro id hb _ n hn
      have hid : g.contains id = true := hlive.1 (contains_iff.2 ⟨n, hn⟩)
      refine (hr.solves' id).congr (heq id hid) ?_ n hn
      intro t ht
      exact heq t (hlive.1 (hr.modelled.linked.correctLaw.contains_target ht))
    · intro S hS
      obtain ⟨id, hid⟩ := hS.nonempty
      obtain ⟨n, hn, -⟩ := hS.staysIn id hid
      exact ⟨id, hid, heq id (hlive.1 (contains_iff.2 ⟨n, hn⟩))⟩
  · rintro ⟨htouched, htrap⟩ id hb
    exact hr.carry_eq htouched htrap hb

/-- Reduction leaves the reported values alone if it touches no state and play leaves
every set of nodes. -/
theorem stateValue_eq_of_untouched {transitions labels : ByteArray} {minimal : Game}
    {a b : Analysis} (hread : Input.readGame transitions labels = .ok g)
    (hfull : g.analyze { solver } pace = (.ok a, h))
    (hmin : g.analyze { reduce := .minimal, solver } pace' = (.ok b, minimal))
    (htouched : ∀ id, g.Bound id → ¬ g.Touched h id) (htrap : ∀ S, ¬ minimal.Trap S)
    (state : State) : a.solution.stateValue h state = b.solution.stateValue minimal state := by
  obtain ⟨rfl, hr⟩ := runs_of_analyze hread hfull hmin
  refine hr.agree_iff.2 ?_ state
  intro id hb
  refine hr.carry_eq ?_ ?_ hb
  · intro j hj ht
    exact absurd ht (htouched j hj)
  · intro S hS
    exact absurd hS (htrap S)

/-! ### Two coins and a draw -/

/-- Two states that offer the same coin, one of which may also move to the other, and a
state that can only wait. -/
def twoCoins : Game :=
  List.foldl perform empty
    [.addNode .max, .bindState 0 0, .addNode .min, .bindState 1 1, .addEdge 0 1 1,
      .addNode .average, .addEdge 0 2 1, .addSink true, .bindState 2 3, .addEdge 2 3 (1 / 2),
      .addSink false, .bindState 3 4, .addEdge 2 4 (1 / 2), .addNode .average, .addEdge 1 5 1,
      .addEdge 5 3 (1 / 2), .addEdge 5 4 (1 / 2), .addNode .max, .bindState 4 6, .addEdge 6 6 1,
      .setKnown 2 (some (1 / 2)), .setKnown 5 (some (1 / 2))]

theorem readGame_twoCoins :
    Input.readGame "0 -1 1 1 -1 0.5 2 0.5 3\n1 -1 0.5 2 0.5 3\n4 -1 1 4\n".toUTF8
      "h\n0 max -1\n1 min -1\n2 sink 1\n3 sink 0\n4 max -1\n".toUTF8 = .ok twoCoins := by
  decide +kernel

/-- The reduced game: the coins are fused and the state that waits has no choice left. -/
def oneCoin : Game :=
  (twoCoins.promoteAll.2.prune.2.fuseSinks.2.mergeAll [(2, 5)]).deleteSelfLoops.2.correctLaw

theorem reduce_twoCoins : (twoCoins.reduce {}).2 = oneCoin := by
  have hfirst : twoCoins.promoteAll.2.prune.2.fuseSinks.2.nodeMerges = [(2, 5)] := by
    rw [nodeMerges_of_sorted (by decide +kernel)]
    decide +kernel
  have hsecond :
      (twoCoins.promoteAll.2.prune.2.fuseSinks.2.mergeAll [(2, 5)]).nodeMerges = [] := by
    rw [nodeMerges_of_sorted (by decide +kernel)]
    decide +kernel
  have hcount : twoCoins.promoteAll.2.prune.2.fuseSinks.2.nodeCount = 6 + 1 := by
    decide +kernel
  have hfuse : twoCoins.promoteAll.2.prune.2.fuseSinks.2.fuseNodes.2 =
      twoCoins.promoteAll.2.prune.2.fuseSinks.2.mergeAll [(2, 5)] := by
    rw [fuseNodes, hcount, fuseRounds_of_cons hfirst, fuseRounds_of_nil hsecond]
  rw [reduce_full_snd, hfuse, oneCoin]

theorem solve_correctLaw_twoCoins :
    twoCoins.correctLaw.solve {} 1 =
      .ok ⟨⟨#[1 / 2, 1 / 2, 1 / 2, 1, 0, 1 / 2, 0]⟩, ⟨false, 7, 1, 9, 0⟩, []⟩ := by
  have hplan : twoCoins.correctLaw.plan = ⟨false, [[6], [3], [4], [5], [1], [2], [0]]⟩ :=
    plan_of_sorted [[6], [4], [3], [5], [2], [1], [0]] [0, 2, 1, 3, 5, 4, 6] (by decide +kernel)
      (by decide +kernel) (by decide +kernel) (by decide)
  unfold solve
  rw [hplan]
  decide +kernel

theorem twoCoins_analyses_agree :
    ∃ a b,
      Input.readGame "0 -1 1 1 -1 0.5 2 0.5 3\n1 -1 0.5 2 0.5 3\n4 -1 1 4\n".toUTF8
        "h\n0 max -1\n1 min -1\n2 sink 1\n3 sink 0\n4 max -1\n".toUTF8 = .ok twoCoins ∧
      twoCoins.analyze {} 1 = (.ok a, oneCoin) ∧
      twoCoins.analyze { reduce := .minimal } 1 = (.ok b, twoCoins.correctLaw) ∧
      a.solution.stateValue oneCoin 0 = .ok (some (1 / 2)) ∧
      ∀ state, a.solution.stateValue oneCoin state =
        b.solution.stateValue twoCoins.correctLaw state := by
  obtain ⟨a, ha, hsa⟩ := exists_analyze {} 1
    (s := ⟨⟨#[1 / 2, 1 / 2, 1 / 2, 1, 0, 0, 0]⟩, ⟨true, 6, 1, 8, 0⟩, []⟩) reduce_twoCoins
    (by decide +kernel) (by decide +kernel)
  obtain ⟨b, hb, hsb⟩ := exists_analyze { reduce := .minimal } 1
    (reduce_minimal_snd twoCoins) (by decide +kernel) solve_correctLaw_twoCoins
  have huntouched : ∀ id ∈ twoCoins.bindings.values, ¬ twoCoins.Touched oneCoin id := by
    decide +kernel
  have hequal : ∀ id ∈ twoCoins.correctLaw.nodeIds,
      twoCoins.correctLaw.completed (oneCoin.carry a.solution.values.value) id =
        b.solution.values.value id := by
    rw [hsa, hsb]
    decide +kernel
  refine ⟨a, b, readGame_twoCoins, ha, hb, by rw [hsa]; decide +kernel, ?_⟩
  refine (analyses_agree_iff readGame_twoCoins ha hb).2 ⟨?_, ?_⟩
  · intro id hbound htouched
    exact absurd htouched (huntouched id (bound_iff.1 hbound))
  · -- the state that waits is a trap of its own
    intro S hS
    obtain ⟨id, hid⟩ := hS.nonempty
    obtain ⟨n, hn, -⟩ := hS.staysIn id hid
    exact ⟨id, hid, hequal id (mem_nodeIds.2 ⟨n, hn⟩)⟩

/-- A state that offers one draw, of two sinks that pay 1 and one that pays 0. -/
def threeWayDraw : Game :=
  List.foldl perform empty
    [.addNode .max, .bindState 0 0, .addNode .average, .addEdge 0 1 1, .addSink true,
      .bindState 1 2, .addEdge 1 2 (1 / 2), .addSink true, .bindState 2 3, .addEdge 1 3 (1 / 4),
      .addSink false, .bindState 3 4, .addEdge 1 4 (1 / 4), .setKnown 1 (some (3 / 4))]

/-- The reduced game: the draw is between two sinks. -/
def twoWayDraw : Game :=
  threeWayDraw.promoteAll.2.prune.2.fuseSinks.2.deleteSelfLoops.2.correctLaw

theorem reduce_threeWayDraw : (threeWayDraw.reduce {}).2 = twoWayDraw := by
  have hplan : threeWayDraw.promoteAll.2.prune.2.fuseSinks.2.nodeMerges = [] := by
    rw [nodeMerges_of_sorted (by decide +kernel)]
    decide +kernel
  rw [reduce_full_snd, fuseNodes, fuseRounds_of_nil hplan, twoWayDraw]

/-- **Fusion can change a reported value.** The unreduced draw is fair among three sinks and
has value 2/3. Fusing the two that pay 1 leaves a fair draw between two sinks. -/
theorem threeWayDraw_analyses_differ :
    ∃ a b,
      Input.readGame "0 -1 0.5 1 0.25 2 0.25 3\n".toUTF8
        "h\n0 max -1\n1 sink 1\n2 sink 1\n3 sink 0\n".toUTF8 = .ok threeWayDraw ∧
      threeWayDraw.analyze {} 1 = (.ok a, twoWayDraw) ∧
      threeWayDraw.analyze { reduce := .minimal } 1 = (.ok b, threeWayDraw.correctLaw) ∧
      a.solution.stateValue twoWayDraw 0 = .ok (some (1 / 2)) ∧
      b.solution.stateValue threeWayDraw.correctLaw 0 = .ok (some (2 / 3)) := by
  obtain ⟨a, ha, hsa⟩ := exists_analyze {} 1
    (s := ⟨⟨#[1 / 2, 1 / 2, 1, 0, 0]⟩, ⟨true, 4, 1, 6, 0⟩, []⟩) reduce_threeWayDraw
    (by decide +kernel) (by decide +kernel)
  obtain ⟨b, hb, hsb⟩ := exists_analyze { reduce := .minimal } 1
    (s := ⟨⟨#[2 / 3, 2 / 3, 1, 1, 0]⟩, ⟨true, 5, 1, 7, 0⟩, []⟩) (reduce_minimal_snd threeWayDraw)
    (by decide +kernel) (by decide +kernel)
  refine ⟨a, b, by decide +kernel, ha, hb, ?_, ?_⟩
  · rw [hsa]
    decide +kernel
  · rw [hsb]
    decide +kernel

end StochasticGame.Game
