import StochasticGame.Proofs.Approximation.Table
import StochasticGame.Proofs.Solver.Equations

/-!
# StochasticGame.Proofs.Solver.SearchChoice

**The choice of the search does not matter.** Table and walk give the same answer to
every query, and within 64 bits as long as the bound is at most 2 ^ 63. The bound of a
component does not pass the cap, so under such a cap two runs that differ in the search
only ask and get the same.

What remains is time: one search may be slower. More time changes nothing for a run
that was not cut short (`solve_of_pace_le`), so two runs at different paces can only
differ if one of them timed out.
-/

namespace StochasticGame

/-! ### The bound of a component -/

theorem DenominatorBound.cappedPower_le {base cap k acc value : Nat}
    (h : cappedPower base cap k acc = some value) (hacc : acc ≤ max cap 1) :
    value ≤ max cap 1 := by
  induction k generalizing acc with
  | zero => exact Option.some_inj.1 h ▸ hacc
  | succ k ih =>
    rw [cappedPower] at h
    split at h
    · cases h
    · exact ih h (by omega)

/-- The bound does not pass the cap; without average nodes it is 1. -/
theorem Game.denominatorBound_value_le (g : Game) (ids : List NodeId) (cap : Nat) :
    (g.denominatorBound ids cap).value ≤ max cap 1 := by
  unfold denominatorBound
  dsimp only
  split
  · rename_i value hpower
    exact DenominatorBound.cappedPower_le hpower (Nat.le_max_right cap 1)
  · exact Nat.le_max_left cap 1

/-- The run ended because its time was spent. -/
def TimedOut {α : Type} (result : Except IterationFailure α) : Prop :=
  ∃ size, result = .error (.timeout size)

theorem not_timedOut_ok {α : Type} (a : α) : ¬ TimedOut (.ok a) := by
  intro ⟨size, hsize⟩
  cases hsize

/-! ### Iterations -/

namespace Iteration

variable {it : Iteration} {search : Approximant}

/-- A search that answers the queries of an iteration as its own one does. -/
structure Interchangeable (it : Iteration) (search : Approximant) : Prop where
  /-- The answers are the same. -/
  nearest_eq : ∀ value,
    search.nearest value it.bound.value = it.approximant.nearest value it.bound.value
  /-- The same queries have an answer. -/
  canAnswer_eq : ∀ value,
    search.canAnswer value it.bound.value = it.approximant.canAnswer value it.bound.value

namespace Interchangeable

theorem snapOne_eq (h : it.Interchangeable search) :
    { it with approximant := search }.snapOne = it.snapOne := by
  funext w id
  simp only [snapOne, h.nearest_eq]

theorem canSnap_eq (h : it.Interchangeable search) :
    { it with approximant := search }.canSnap = it.canSnap := by
  funext w id
  simp only [canSnap, h.canAnswer_eq]

theorem snap_eq (h : it.Interchangeable search) :
    { it with approximant := search }.snap = it.snap := by
  funext w
  simp only [snap, h.snapOne_eq]

theorem snapPartial_eq (h : it.Interchangeable search) :
    { it with approximant := search }.snapPartial = it.snapPartial := by
  funext w
  simp only [snapPartial, h.snapOne_eq, h.canSnap_eq]

/-- An iteration uses its search in snapshots only. -/
theorem run_eq (h : it.Interchangeable search) (budget done : Nat) (w : ValueTable) :
    { it with approximant := search }.run budget done w = it.run budget done w := by
  induction budget generalizing done w with
  | zero => rfl
  | succ budget ih =>
    rw [run_succ, run_succ]
    simp only [h.snap_eq, h.canSnap_eq, h.snapPartial_eq, ih]
    rfl

end Interchangeable

/-- Within its budget, an iteration ends after a sweep or goes on, and the budget has no
part in which. -/
theorem run_succ_cases (it : Iteration) (done : Nat) (w : ValueTable) :
    (∃ result, ∀ budget, it.run (budget + 1) done w = result) ∨
      ∀ budget, it.run (budget + 1) done w =
        it.run budget (done + 1) (it.game.sweep it.ids w).2 := by
  simp only [run_succ]
  split_ifs
  · exact Or.inl ⟨_, fun _ => rfl⟩
  · exact Or.inl ⟨_, fun _ => rfl⟩
  · exact Or.inl ⟨_, fun _ => rfl⟩
  · exact Or.inr fun _ => rfl
  · exact Or.inl ⟨_, fun _ => rfl⟩
  · exact Or.inl ⟨_, fun _ => rfl⟩

/-- More sweeps change nothing for a run that ended before its budget. -/
theorem run_of_le {budget budget' done : Nat} {w : ValueTable} (hle : budget ≤ budget')
    (h : ¬ TimedOut (it.run budget done w).1) :
    it.run budget' done w = it.run budget done w := by
  induction budget generalizing budget' done w with
  | zero => exact absurd ⟨it.ids.length, rfl⟩ h
  | succ budget ih =>
    cases budget' with
    | zero => omega
    | succ budget' =>
      cases it.run_succ_cases done w with
      | inl hends =>
        obtain ⟨result, hresult⟩ := hends
        rw [hresult, hresult]
      | inr hgoes =>
        rw [hgoes] at h
        rw [hgoes, hgoes]
        exact ih (by omega) h

end Iteration

/-! ### Whole runs -/

namespace Game

variable {g : Game} {settings : SolverSettings} {approximant : Approximant} {pace pace' : Nat}

/-- Runs whose components are solved alike are alike. -/
theorem solveComponents_congr {settings' : SolverSettings} {approximant' : Approximant}
    (hnodes : ∀ ids w, g.solveNodes settings' approximant' pace ids w =
      g.solveNodes settings approximant pace ids w) (cs : List (List NodeId)) (s : Solution) :
    g.solveComponents settings' approximant' pace cs s =
      g.solveComponents settings approximant pace cs s := by
  induction cs generalizing s with
  | nil => rfl
  | cons ids rest ih =>
    rw [solveComponents, solveComponents, hnodes]
    simp only [ih]

/-- A component that times out ends the whole run. -/
theorem timedOut_solveComponents {ids : List NodeId} {s : Solution}
    (h : TimedOut (g.solveNodes settings approximant pace ids s.values).1)
    (rest : List (List NodeId)) :
    TimedOut (g.solveComponents settings approximant pace (ids :: rest) s) := by
  obtain ⟨size, hsize⟩ := h
  have hnodes : g.solveNodes settings approximant pace ids s.values =
      (.error (.timeout size), (g.solveNodes settings approximant pace ids s.values).2) :=
    Prod.ext hsize rfl
  exact ⟨size, by rw [solveComponents, hnodes]⟩

theorem solveComponents_of_pace_le (hle : pace ≤ pace') (cs : List (List NodeId)) (s : Solution)
    (h : ¬ TimedOut (g.solveComponents settings approximant pace cs s)) :
    g.solveComponents settings approximant pace' cs s =
      g.solveComponents settings approximant pace cs s := by
  induction cs generalizing s with
  | nil => rfl
  | cons ids rest ih =>
    have hrun : g.solveNodes settings approximant pace' ids s.values =
        g.solveNodes settings approximant pace ids s.values :=
      Iteration.run_of_le (Nat.mul_le_mul_left _ hle) fun ht => h (timedOut_solveComponents ht rest)
    rw [solveComponents] at h
    rw [solveComponents, solveComponents, hrun]
    cases hres : g.solveNodes settings approximant pace ids s.values with
    | mk result values =>
      rw [hres] at h
      cases result with
      | error failure => rfl
      | ok outcome => exact ih _ h

/-- More time changes nothing for a run that was not cut short. -/
theorem solve_of_pace_le (hle : pace ≤ pace') (h : ¬ TimedOut (g.solve settings pace)) :
    g.solve settings pace' = g.solve settings pace :=
  solveComponents_of_pace_le hle _ _ h

/-- Two runs that were not cut short agree, whatever their paces. -/
theorem solve_eq_of_not_timedOut (h : ¬ TimedOut (g.solve settings pace))
    (h' : ¬ TimedOut (g.solve settings pace')) :
    g.solve settings pace' = g.solve settings pace := by
  cases Nat.le_total pace pace' with
  | inl hle => exact solve_of_pace_le hle h
  | inr hle => exact (solve_of_pace_le hle h').symm

end Game

/-! ### Another search -/

/-- The settings with another search. -/
def SolverSettings.withSearch (s : SolverSettings) (kind : ApproximantKind) (order : UInt64) :
    SolverSettings :=
  { s with approximant := kind, tableMaxDenominator := order }

/-- Any two searches that settings can choose answer a component's queries alike if the
cap is at most 2 ^ 63. -/
theorem SolverSettings.interchangeable (s s' : SolverSettings) (g : Game) (ids : List NodeId)
    (hcap : s.denominatorCap.toNat ≤ 2 ^ 63) :
    (g.iteration s s.buildApproximant ids).Interchangeable s'.buildApproximant where
  nearest_eq value := by rw [s'.nearest_eq_walk]; exact (s.nearest_eq_walk value _).symm
  canAnswer_eq value := by
    have hbound : (g.iteration s s.buildApproximant ids).bound.value ≤ 2 ^ 63 :=
      (g.denominatorBound_value_le ids _).trans (max_le hcap (by decide))
    rw [Approximant.canAnswer_of_le _ value hbound, Approximant.canAnswer_of_le _ value hbound]

theorem Game.solve_withSearch (g : Game) (s : SolverSettings) (kind : ApproximantKind)
    (order : UInt64) (hcap : s.denominatorCap.toNat ≤ 2 ^ 63) (pace : Nat) :
    g.solve (s.withSearch kind order) pace = g.solve s pace := by
  have hnodes : ∀ ids w,
      g.solveNodes (s.withSearch kind order) (s.withSearch kind order).buildApproximant pace ids w =
        g.solveNodes s s.buildApproximant pace ids w := fun ids w =>
    (s.interchangeable (s.withSearch kind order) g ids hcap).run_eq _ 0 w
  exact solveComponents_congr hnodes _ _

/-- **The choice of the search does not matter.** For every order of the table, every
value and every bound of at most 2 ^ 63, the table and the walk answer within 64 bits,
and with the same fraction. So solving a game under a cap of at most 2 ^ 63 gives the
same values, counters and warnings with either search and any order. One search may be
slower than the other; runs at different paces agree if neither is cut short. -/
theorem solve_independent_of_search :
    (∀ (n : Nat) (value : Rat) (bound : Nat), bound ≤ 2 ^ 63 →
      (FareyTable.ofOrder n).canAnswer value bound = true ∧ canWalk value bound = true ∧
        (FareyTable.ofOrder n).nearest value bound = nearestByWalk value bound) ∧
    ∀ (g : Game) (s : SolverSettings) (kind : ApproximantKind) (order : UInt64),
      s.denominatorCap.toNat ≤ 2 ^ 63 →
      (∀ pace, g.solve (s.withSearch kind order) pace = g.solve s pace) ∧
      ∀ pace pace', ¬ TimedOut (g.solve s pace) →
        ¬ TimedOut (g.solve (s.withSearch kind order) pace') →
        g.solve (s.withSearch kind order) pace' = g.solve s pace := by
  refine ⟨?_, ?_⟩
  · intro n value bound hb
    exact ⟨FareyTable.canAnswer_of_le _ value hb, canWalk_of_le value hb,
      FareyTable.nearest_ofOrder n value bound⟩
  · intro g s kind order hcap
    have hsame := g.solve_withSearch s kind order hcap
    refine ⟨hsame, ?_⟩
    intro pace pace' h h'
    rw [hsame] at h' ⊢
    exact Game.solve_eq_of_not_timedOut h h'

/-- The bound lies inside a table, beyond another one, and the solver finds the values
of a cycle with a table of a single denominator, at any greater pace too. -/
theorem coinLoop_independent_of_search :
    3 ≤ 2 ^ 63 ∧ (FareyTable.ofOrder 5).nearest (5 / 12) 3 = 1 / 2 ∧
      (FareyTable.ofOrder 2).nearest (5 / 12) 3 = 1 / 2 ∧
      ({ checkInterval := 1 } : SolverSettings).denominatorCap.toNat ≤ 2 ^ 63 ∧
      Game.coinLoop.solve (SolverSettings.withSearch { checkInterval := 1 } .table 1) 7 =
        .ok Game.coinLoopSolution := by
  have hcap : ({ checkInterval := 1 } : SolverSettings).denominatorCap.toNat ≤ 2 ^ 63 := by decide
  have hwalk : nearestByWalk (5 / 12) 3 = 1 / 2 := by decide +kernel
  obtain ⟨hquery, hsolve⟩ := solve_independent_of_search
  obtain ⟨hsame, hpace⟩ := hsolve Game.coinLoop { checkInterval := 1 } .table 1 hcap
  have hdone : ¬ TimedOut (Game.coinLoop.solve { checkInterval := 1 } 1) := by
    rw [Game.solve_coinLoop]
    exact fun ⟨_, hsize⟩ => nomatch hsize
  have hlater := Game.solve_of_pace_le (show 1 ≤ 7 by decide) hdone
  refine ⟨by decide, (hquery 5 _ 3 (by decide)).2.2.trans hwalk,
    (hquery 2 _ 3 (by decide)).2.2.trans hwalk, hcap, ?_⟩
  rw [hpace 1 7 hdone (by rw [hsame, hlater]; exact hdone), Game.solve_coinLoop]

end StochasticGame
