import StochasticGame.Proofs.Plan.Connected
import StochasticGame.Proofs.Solver.Snapshots
import StochasticGame.Proofs.Solver.Trap

/-!
# StochasticGame.Proofs.Solver.IdleNodes

**What becomes of the value of an idle node.** No sweep writes to a node whose operator
gives no value, and no snapshot writes to a sink. An idle player is alone in its
component, so its first sweep ends the iteration: the value stands, unless a snapshot is
due after that very sweep. Nothing in the component can refuse that snapshot. It has no
average node either, so the bound is 1 and the value becomes 0 or 1, whichever is nearer.
-/

namespace StochasticGame

open ValueTable

/-- With denominator 1 there are two fractions, and a tie goes to 0. -/
theorem nearestByWalk_one (x : Rat) : nearestByWalk x 1 = if x ≤ 1 / 2 then 0 else 1 := by
  obtain ⟨f, hf, hadm, hbest⟩ := exists_isBest x 1
  have hzero := hbest .zero (by decide) (by decide) (by decide)
  have hone := hbest .one (by decide) (by decide) (by decide)
  have hden : f.den = 1 := le_antisymm hadm.den_le hadm.pos
  have hnum : f.num = 0 ∨ f.num = 1 := by
    have := hadm.le
    omega
  rw [hf]
  cases hnum with
  | inl h0 =>
    -- 0 is at least as close as 1
    have hle : |f.toRat - x| ≤ |Fraction.one.toRat - x| := by
      cases hone with
      | inl hlt => exact hlt.le
      | inr heq => exact heq.1.le
    have hf0 : f.toRat = 0 := by simp [Fraction.toRat, h0]
    rw [hf0, Fraction.toRat_one, ← sq_le_sq] at hle
    rw [hf0, if_pos (by linarith)]
  | inr h1 =>
    -- 1 is closer than 0, because it would lose a tie
    have hlt : |f.toRat - x| < |Fraction.zero.toRat - x| := by
      cases hzero with
      | inl hlt => exact hlt
      | inr heq =>
        have := heq.2
        simp [Fraction.zero, hden, h1] at this
    have hf1 : f.toRat = 1 := by simp [Fraction.toRat, h1, hden]
    rw [hf1, Fraction.toRat_zero, ← sq_lt_sq] at hlt
    rw [hf1, if_neg (by linarith)]

/-- What the solver makes of the value of an idle node. -/
def SolverSettings.restingValue (settings : SolverSettings) (n : Node) (x : Rat) : Rat :=
  if n.label = .sink ∨ settings.checkInterval ≠ 1 then x else if x ≤ 1 / 2 then 0 else 1

/-- A value of 0 or 1 always rests, and any other one only where nothing rounds it. -/
theorem SolverSettings.restingValue_eq_self_iff (settings : SolverSettings) (n : Node) (x : Rat) :
    settings.restingValue n x = x ↔
      n.label = .sink ∨ settings.checkInterval ≠ 1 ∨ x = 0 ∨ x = 1 := by
  rw [← or_assoc, restingValue]
  split_ifs with hrest hhalf
  · simp [hrest]
  · have hne : x ≠ 1 := fun he => by norm_num [he] at hhalf
    rw [or_iff_right hrest, or_iff_left hne, eq_comm]
  · have hne : x ≠ 0 := fun he => by norm_num [he] at hhalf
    rw [or_iff_right hrest, or_iff_right hne, eq_comm]

namespace Game

variable {g : Game} {settings : SolverSettings} {pace : Nat} {sol : Solution} {id : NodeId}
  {ids : List NodeId} {n : Node} {w w' : ValueTable} {o : Outcome}

/-- Whether an operator gives a value does not depend on the table. -/
theorem idle_of_step?_eq_none (hn : g.node? id = some n) (h : g.step? w id = none) :
    g.Idle id := by
  refine ⟨n, hn, ?_⟩
  intro v x hx
  obtain ⟨y, hy⟩ := hx.exists w.value
  have hsome : g.step? w id = some y := step?_eq_some_iff.2 ⟨n, hn, hy⟩
  rw [h] at hsome
  cases hsome

/-- A component without average nodes has values with denominator 1. -/
theorem denominatorBound_of_no_average (cap : Nat)
    (h : ∀ id ∈ ids, ∀ n, g.node? id = some n → n.label ≠ .average) :
    g.denominatorBound ids cap = ⟨1, false⟩ := by
  have hfold : ∀ (all ids : List NodeId) (d : DenominatorBound.Data),
      (∀ id ∈ ids, ∀ n, g.node? id = some n → n.label ≠ .average) →
        ids.foldl (DenominatorBound.Data.addNode g all) d = d := by
    intro all ids
    induction ids with
    | nil => exact fun _ _ => rfl
    | cons id ids ih =>
      intro d hids
      have hone : DenominatorBound.Data.addNode g all d id = d := by
        unfold DenominatorBound.Data.addNode
        split
        · rename_i n hn
          exact if_neg (hids id List.mem_cons_self n hn)
        · rfl
      rw [List.foldl_cons, hone]
      exact ih d fun j hj => hids j (List.mem_cons_of_mem id hj)
  rw [denominatorBound, DenominatorBound.Data.ofNodes, hfold ids ids _ h]
  rfl

/-- A node without successors is alone in its component. -/
theorem Linked.component_of_no_successor (hg : g.Linked) (hids : ids ∈ g.plan.components)
    (hid : id ∈ ids) (hnone : g.successors id = []) : ids = [id] := by
  have honly : ∀ j ∈ ids, j = id := by
    intro j hj
    cases (hg.connected_of_mem_plan hids id hid j hj).cases_head with
    | inl he => exact he.symm
    | inr hstep =>
      obtain ⟨s, hs, -⟩ := hstep
      have hmem : s ∈ g.successors id := hs
      rw [hnone] at hmem
      cases hmem
  have hnodup : ids.Nodup := (List.nodup_flatten.1 hg.plan_isSchedule.nodup).1 ids hids
  rw [← List.perm_singleton, List.perm_ext_iff_of_nodup hnodup (List.nodup_singleton id)]
  intro j
  rw [List.mem_singleton]
  exact ⟨honly j, fun he => he ▸ hid⟩

end Game

/-! ### One component -/

namespace Iteration

variable {it : Iteration} {id : NodeId} {budget done : Nat} {w w' : ValueTable} {o : Outcome}

/-- A sweep over an idle node does nothing. -/
theorem sweep_of_idle (hids : it.ids = [id]) (hi : it.game.Idle id) (w : ValueTable) :
    it.game.sweep it.ids w = (false, w) := by
  rw [hids, Game.sweep, List.foldl_cons, List.foldl_nil, Game.update, hi.step?_eq_none]

/-- An iteration over an idle node ends after its first sweep, with a snapshot if one is due. -/
theorem run_of_idle (hids : it.ids = [id]) (hi : it.game.Idle id)
    (hrun : it.run budget done w = (.ok o, w')) :
    w' = if it.isDue (done + 1) then it.snap w else w := by
  have hfixed : ∀ t, it.game.isFixed it.ids t = true := by
    intro t
    rw [Game.isFixed_iff, hids]
    intro j hj
    rw [List.mem_singleton.1 hj, Game.fixedAt_iff, hi.step?_eq_none]
    intro x hx
    cases hx
  cases budget with
  | zero => simp [run] at hrun
  | succ budget =>
    rw [run_succ, sweep_of_idle hids hi] at hrun
    simp only [hfixed, Bool.and_true, Bool.false_eq_true, if_false] at hrun
    split_ifs at hrun with hupdate hout hsnap hdue
    · cases hrun
    · cases hrun
    · rw [if_pos hdue]
      exact (Prod.mk.inj hrun).2.symm
    · rw [if_neg hdue]
      exact (Prod.mk.inj hrun).2.symm
    · cases hrun

/-- A sink that is idle keeps its value. -/
theorem Ends.value_of_idle_sink (h : it.Ends w o w') (hi : it.game.Idle id)
    (hs : it.game.IsSink id) : w'.value id = w.value id := by
  cases h with
  | converged k => exact hi.value_swept k w
  | snapped k => exact (value_snap_of_sink hs _).trans (hi.value_swept k w)

end Iteration

namespace Game

variable {g : Game} {settings : SolverSettings} {pace : Nat} {sol : Solution} {id : NodeId}
  {ids : List NodeId} {n : Node} {w w' : ValueTable} {o : Outcome}

/-- The component of an idle player. -/
theorem value_of_idle_player (hi : g.Idle id) (hn : g.node? id = some n)
    (hl : n.label = .max ∨ n.label = .min) (hlt : id < w.size)
    (hrun : g.solveNodes settings settings.buildApproximant pace [id] w = (.ok o, w')) :
    w'.value id = settings.restingValue n (w.value id) := by
  let it := g.iteration settings settings.buildApproximant [id]
  have hlabel : n.label ≠ .sink ∧ n.label ≠ .average := by
    cases hl with
    | inl hmax => simp [hmax]
    | inr hmin => simp [hmin]
  have hw' : w' = if it.isDue 1 then it.snap w else w := it.run_of_idle rfl hi hrun
  have hdue : it.isDue 1 = true ↔ settings.checkInterval = 1 := by
    rw [it.isDue_iff, Nat.dvd_one, ← UInt32.toNat_inj]
    exact ⟨fun h => h.2, fun h => ⟨h.ge, h⟩⟩
  have hbound : it.bound = ⟨1, false⟩ := by
    refine denominatorBound_of_no_average _ ?_
    intro j hj m hm
    rw [List.mem_singleton.1 hj, hn] at hm
    exact Option.some_inj.1 hm ▸ hlabel.2
  by_cases hone : settings.checkInterval = 1
  · have hnot : ¬ g.IsSink id := by
      intro hs
      obtain ⟨m, hm, hsink⟩ := hs
      rw [hn] at hm
      exact hlabel.1 (Option.some_inj.1 hm ▸ hsink)
    have hsnap : it.snap w = it.snapOne w id := rfl
    rw [hw', if_pos (hdue.2 hone), hsnap, it.value_snapOne_self hnot hlt, hbound,
      SolverSettings.restingValue, if_neg (by simp [hlabel.1, hone]), ← nearestByWalk_one]
    exact settings.nearest_eq_walk _ _
  · rw [hw', if_neg (fun h => hone (hdue.1 h)), SolverSettings.restingValue, if_pos (Or.inr hone)]

/-- The component of an idle node takes its value to the one that it rests at. -/
theorem Linked.value_of_idle_component (hg : g.Linked) (hi : g.Idle id)
    (hn : g.node? id = some n) (hids : ids ∈ g.plan.components) (hid : id ∈ ids)
    (hlt : id < w.size)
    (hrun : g.solveNodes settings settings.buildApproximant pace ids w = (.ok o, w')) :
    w'.value id = settings.restingValue n (w.value id) := by
  obtain ⟨m, hm, hkind⟩ := hi.cases
  obtain rfl := Option.some_inj.1 (hn.symm.trans hm)
  cases hkind with
  | inl hplayer =>
    obtain ⟨hl, hnone⟩ := hplayer
    obtain rfl := hg.component_of_no_successor hids hid
      ((successors_of_node? hn).trans hnone)
    exact value_of_idle_player hi hn hl hlt hrun
  | inr hsink =>
    rw [SolverSettings.restingValue, if_pos (Or.inl hsink.1)]
    exact (Iteration.ends_of_run hrun).value_of_idle_sink hi ⟨n, hn, hsink.1⟩

/-! ### Whole runs -/

/-- Its own component is the only one that can change the value of an idle node. -/
theorem Linked.value_of_solve_of_idle (hg : g.Linked) (h : g.solve settings pace = .ok sol)
    (hi : g.Idle id) (hn : g.node? id = some n) :
    sol.values.value id = settings.restingValue n ((ofGame g).value id) := by
  have hs := hg.plan_isSchedule
  have hlt : id < g.capacity := lt_capacity_of_contains (contains_iff.2 ⟨n, hn⟩)
  let P : List (List NodeId) → Solution → Prop := fun solved s => s.values.size = g.capacity ∧
    s.values.value id = if id ∈ solved.flatten then
      settings.restingValue n ((ofGame g).value id) else (ofGame g).value id
  have hfinal : P g.plan.components sol := by
    refine solve_induction_solveNodes h ?_ ?_
    · exact fun stats _ => ⟨size_ofGame g, by simp⟩
    · intro pre ids post s o w hplan hpre hrun
      obtain ⟨hsize, hvalue⟩ := hpre
      have hframe : Frame ids s.values w := (Iteration.ends_of_run hrun).frame
      have hmem : ids ∈ g.plan.components := by simp [hplan]
      refine ⟨hframe.size_eq.trans hsize, ?_⟩
      by_cases hid : id ∈ ids
      · -- no component before its own lists the node
        have hfirst : id ∉ pre.flatten := by
          have hnodup := hs.nodup
          rw [hplan, List.flatten_append, List.flatten_cons] at hnodup
          intro hpre
          exact List.disjoint_of_nodup_append hnodup hpre (List.mem_append_left _ hid)
        rw [if_neg hfirst] at hvalue
        rw [if_pos (by simp [hid]), ← hvalue]
        exact hg.value_of_idle_component hi hn hmem hid (hsize ▸ hlt) hrun
      · have hrest : id ∈ (pre ++ [ids]).flatten ↔ id ∈ pre.flatten := by
          rw [List.flatten_append, List.mem_append, List.flatten_singleton, or_iff_left hid]
        simp only [hrest, ← hvalue]
        exact hframe.value_eq id hid
  have hlisted : id ∈ g.plan.components.flatten :=
    (hs.mem_iff id).2 (mem_nodeIds.2 ⟨n, hn⟩)
  exact hfinal.2.trans (if_pos hlisted)

/-- **A node that computes nothing keeps its value, if nothing rounds it.** If solving
succeeds, a live node whose operator gives no value is a player without successors or a
sink without payoff. It is reported with the value that it started with, unless it is a
player and snapshots are taken after every sweep: then it is reported with 0 or 1, and has
kept its value only if that was 0 or 1 to begin with. -/
theorem solve_keeps_idle_value_iff (hg : g.Reachable) (h : g.solve settings pace = .ok sol)
    (hn : g.node? id = some n) (hstep : g.step? (ofGame g) id = none) :
    ((n.label = .max ∨ n.label = .min) ∧ n.successors = [] ∨ n.label = .sink ∧ n.known = none) ∧
      sol.value? id = some (settings.restingValue n ((ofGame g).value id)) ∧
      (sol.value? id = some ((ofGame g).value id) ↔ n.label = .sink ∨
        settings.checkInterval ≠ 1 ∨ (ofGame g).value id = 0 ∨ (ofGame g).value id = 1) := by
  have hi : g.Idle id := idle_of_step?_eq_none hn hstep
  obtain ⟨m, hm, hkind⟩ := hi.cases
  obtain rfl := Option.some_inj.1 (hn.symm.trans hm)
  have hvalue : sol.value? id = some (settings.restingValue n ((ofGame g).value id)) := by
    rw [hg.linked.value?_of_solve h (contains_iff.2 ⟨n, hn⟩),
      hg.linked.value_of_solve_of_idle h hi hn]
  refine ⟨hkind, hvalue, ?_⟩
  rw [hvalue, Option.some_inj]
  exact settings.restingValue_eq_self_iff n _

/-- Two players that have no move, with known values, and a coin on a cycle with a sink that
pays nothing. -/
def stranded : Game :=
  List.foldl perform empty
    [.addNode .max, .addNode .min, .addNode .average, .addNode .sink, .setKnown 0 (some (2 / 3)),
      .setKnown 1 (some (1 / 3)), .addEdge 3 2 1, .addEdge 2 3 (1 / 2), .addEdge 2 0 (1 / 2)]

/-- What is reported for `stranded` with a snapshot after every other sweep. -/
def strandedRested : Solution where
  values := ⟨#[2 / 3, 1 / 3, 1 / 3, 0]⟩
  stats := ⟨false, 3, 2, 4, 1⟩
  warnings := []

/-- What is reported for `stranded` with a snapshot after every sweep. -/
def strandedRounded : Solution where
  values := ⟨#[1, 0, 1 / 2, 0]⟩
  stats := ⟨false, 3, 2, 3, 3⟩
  warnings := []

/-- The maximizer keeps its 2/3 in the one case and gets 1 in the other. The sink keeps its 0
in both, on a cycle with the coin. -/
theorem stranded_keeps_idle_value :
    stranded.Reachable ∧ stranded.step? (ofGame stranded) 0 = none ∧
      stranded.step? (ofGame stranded) 3 = none ∧
      stranded.solve { checkInterval := 2 } 1 = .ok strandedRested ∧
      strandedRested.value? 0 = some (2 / 3) ∧
      stranded.solve { checkInterval := 1 } 1 = .ok strandedRounded ∧
      strandedRounded.value? 0 = some 1 ∧ strandedRounded.value? 3 = some 0 := by
  have hplan : stranded.plan = ⟨false, [[1], [0], [2, 3]]⟩ :=
    plan_of_sorted [[1], [0], [2, 3]] [0, 1, 2] (by decide +kernel) (by decide +kernel)
      (by decide +kernel) (by decide)
  have hrested : stranded.solve { checkInterval := 2 } 1 = .ok strandedRested := by
    unfold solve
    rw [hplan]
    decide +kernel
  have hrounded : stranded.solve { checkInterval := 1 } 1 = .ok strandedRounded := by
    unfold solve
    rw [hplan]
    decide +kernel
  have hplayer : stranded.step? (ofGame stranded) 0 = none := by decide +kernel
  have hsink : stranded.step? (ofGame stranded) 3 = none := by decide +kernel
  have hstart : (ofGame stranded).value 0 = 2 / 3 ∧ (ofGame stranded).value 3 = 0 := by
    decide +kernel
  have hg : stranded.Reachable := ⟨_, rfl⟩
  refine ⟨hg, hplayer, hsink, hrested, ?_, hrounded, ?_, ?_⟩
  · rw [(solve_keeps_idle_value_iff hg hrested rfl hplayer).2.2.2 (Or.inr (Or.inl (by decide))),
      hstart.1]
  · rw [(solve_keeps_idle_value_iff hg hrounded rfl hplayer).2.1, hstart.1]
    decide +kernel
  · rw [(solve_keeps_idle_value_iff hg hrounded rfl hsink).2.2.2 (Or.inl rfl), hstart.2]

/-- A maximizer without a move, with a known value. -/
def lonePlayer : Game := List.foldl perform empty [.addNode .max, .setKnown 0 (some (2 / 3))]

/-- It starts with 2/3, computes nothing, and is reported with 1. -/
theorem lonePlayer_loses_value :
    lonePlayer.Reachable ∧ lonePlayer.step? (ofGame lonePlayer) 0 = none ∧
      (ofGame lonePlayer).get? 0 = some (2 / 3) ∧
      ∃ sol, lonePlayer.solve { checkInterval := 1 } 1 = .ok sol ∧ sol.value? 0 = some 1 :=
  ⟨⟨_, rfl⟩, by decide +kernel, by decide +kernel, ⟨⟨#[1]⟩, ⟨true, 1, 1, 1, 1⟩, []⟩,
    by decide +kernel, by decide +kernel⟩

end Game

end StochasticGame
