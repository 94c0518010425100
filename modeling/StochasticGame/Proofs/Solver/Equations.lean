import StochasticGame.Proofs.Game.Operation
import StochasticGame.Proofs.Plan.Schedule
import StochasticGame.Proofs.Solver.Run

/-!
# StochasticGame.Proofs.Solver.Equations

**Solved values satisfy the equations of the game.** A component is left with all its
nodes at their values. The plan lists every node once and after what it reads, so
no later component writes to a solved node or to one of its successors.
-/

namespace StochasticGame

open ValueTable

/-- The nodes of the solved components are at their values. -/
structure Settled (g : Game) (solved : List (List NodeId)) (s : Solution) : Prop where
  /-- The table has one entry for each slot. -/
  size_eq : s.values.size = g.capacity
  /-- Solved nodes have their values. -/
  fixedAt : ∀ id ∈ solved.flatten, g.FixedAt s.values.value id

namespace Settled

variable {g : Game}

theorem start (g : Game) (stats : SolveStats) : Settled g [] ⟨.ofGame g, stats, []⟩ :=
  ⟨size_ofGame g, by simp⟩

/-- One more component of a schedule leaves the earlier ones alone. -/
theorem step {cs pre post : List (List NodeId)} {ids : List NodeId} {s : Solution} {o : Outcome}
    {w : ValueTable} (hcs : g.digraph.IsSchedule cs) (he : cs = pre ++ ids :: post)
    (h : Settled g pre s) (hf : Frame ids s.values w) (hids : ∀ id ∈ ids, g.FixedAt w.value id) :
    Settled g (pre ++ [ids]) (s.record ids.length o w) where
  size_eq := hf.size_eq.trans h.size_eq
  fixedAt := by
    intro id hid
    rw [List.flatten_append, List.flatten_singleton, List.mem_append] at hid
    rcases hid with hid | hid
    · -- a solved node and its successors lie in solved components
      have hother : ∀ j ∈ pre.flatten, w.value j = s.values.value j := by
        intro j hj
        apply hf.value_eq
        intro hj'
        have hnodup := hcs.nodup
        rw [he, List.flatten_append, List.flatten_cons, List.nodup_append] at hnodup
        exact hnodup.2.2 j hj j (List.mem_append_left _ hj') rfl
      refine (h.fixedAt id hid).congr (hother id hid) ?_
      intro t ht
      apply hother
      obtain ⟨c, hc, hidc⟩ := List.mem_flatten.1 hid
      obtain ⟨a, b, rfl⟩ := List.append_of_mem hc
      have hcs' : cs = a ++ c :: (b ++ ids :: post) := by rw [he, List.append_assoc]; rfl
      rw [List.flatten_append, List.flatten_cons]
      rcases hcs.order a c _ hcs' id hidc t ht with ht | ht
      · exact List.mem_append_right _ (List.mem_append_left _ ht)
      · exact List.mem_append_left _ ht
    · exact hids id hid

end Settled

namespace Game

variable {g : Game} {settings : SolverSettings} {pace : Nat} {sol : Solution}

theorem Linked.settled_of_solve (hg : g.Linked) (h : g.solve settings pace = .ok sol) :
    Settled g g.plan.components sol :=
  solve_induction h (fun stats _ => .start g stats) fun _ _ _ _ _ _ he hs hends =>
    hs.step hg.plan_isSchedule he hends.frame hends.fixedAt

theorem Linked.solves_of_solve (hg : g.Linked) (h : g.solve settings pace = .ok sol) :
    g.Solves sol.values.value := by
  intro id n hn
  have hid : id ∈ g.digraph.vertices := mem_nodeIds.2 ⟨n, hn⟩
  exact (hg.settled_of_solve h).fixedAt id ((hg.plan_isSchedule.mem_iff id).2 hid) n hn

theorem Linked.value?_of_solve (hg : g.Linked) (h : g.solve settings pace = .ok sol) {id : NodeId}
    (hid : g.contains id = true) : sol.value? id = some (sol.values.value id) := by
  have hlt : id < sol.values.values.size := by
    rw [← ValueTable.size, (hg.settled_of_solve h).size_eq]
    exact lt_capacity_of_contains hid
  rw [Solution.value?, ValueTable.value, ValueTable.get?, Array.getElem?_eq_getElem hlt]
  rfl

/-- **Solved values satisfy the equations of the game.** Whatever the settings and
the weights, each node whose operator gives a value for the reported table is
reported with that value: the greatest or the least of its successors' values,
their weighted sum, or its payoff. -/
theorem solve_satisfies_equations (hg : g.Reachable) (h : g.solve settings pace = .ok sol) :
    ∀ id x, g.step? sol.values id = some x →
      sol.value? id = some x ∧ ∃ n, g.node? id = some n ∧ n.Yields sol.values.value x := by
  intro id x hx
  obtain ⟨n, hn, hy⟩ := step?_eq_some_iff.1 hx
  have hval := hg.linked.solves_of_solve h id n hn x hy
  refine ⟨?_, n, hn, hy⟩
  rw [hg.linked.value?_of_solve h (contains_iff.2 ⟨n, hn⟩), hval]

/-- A coin that leads to the minimizer half of the time, and a minimizer who can ask
for the coin again. Both have value 1/2, which sweeps reach in the limit only. -/
def coinLoop : Game :=
  List.foldl perform empty
    [.addSink false, .addSink true, .addNode .average, .addNode .min, .addEdge 2 3 (1 / 2),
      .addEdge 2 1 (1 / 4), .addEdge 2 0 (1 / 4), .addEdge 3 2 1, .addEdge 3 1 1]

/-- What the solver reports for `coinLoop`. -/
def coinLoopSolution : Solution where
  values := ⟨#[0, 1, 1 / 2, 1 / 2]⟩
  stats := ⟨false, 3, 2, 7, 3⟩
  warnings := []

theorem plan_coinLoop : coinLoop.plan = ⟨false, [[1], [0], [2, 3]]⟩ :=
  plan_of_sorted [[1], [0], [2, 3]] [0, 1, 2] (by decide +kernel) (by decide +kernel)
    (by decide +kernel) (by decide)

theorem solve_coinLoop : coinLoop.solve { checkInterval := 1 } 1 = .ok coinLoopSolution := by
  unfold solve
  rw [plan_coinLoop]
  decide +kernel

theorem coinLoop_satisfies_equations :
    coinLoop.Reachable ∧ coinLoop.solve { checkInterval := 1 } 1 = .ok coinLoopSolution ∧
      coinLoopSolution.value? 2 = some (1 / 2) ∧
      ∃ n, coinLoop.node? 2 = some n ∧ n.Yields coinLoopSolution.values.value (1 / 2) :=
  ⟨⟨_, rfl⟩, solve_coinLoop,
    solve_satisfies_equations ⟨_, rfl⟩ solve_coinLoop 2 (1 / 2) (by decide +kernel)⟩

end Game

end StochasticGame
