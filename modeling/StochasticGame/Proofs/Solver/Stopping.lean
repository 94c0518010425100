import StochasticGame.Proofs.Solver.Trap

/-!
# StochasticGame.Proofs.Solver.Stopping

**Games that end.** A game without traps is stopping: whatever the players do, play
reaches a sink with probability 1. Its equations have one solution, so whatever the
settings make of the search, a run that finishes reports the same values.

To see that a game has no trap, list its nodes such that play at each one leads to
nodes further down the list, by force or by chance. Such a list can be checked, and a
game without traps has one.
-/

namespace StochasticGame

/-! ### Leading into a list of nodes -/

namespace Node

/-- A node at which play goes on until it is paid: the weights of an average node are a
distribution, sinks have a payoff, and players can move. -/
structure Playable (n : Node) : Prop where
  /-- No weight of an average node is negative. -/
  nonneg : n.label = .average → ∀ e ∈ n.succs.entries, 0 ≤ e.2
  /-- The weights of an average node sum to 1. -/
  sum_eq : n.label = .average → (n.succs.entries.map Prod.snd).sum = 1
  /-- Sinks have a payoff. -/
  payoff : n.label = .sink → n.known ≠ none
  /-- Players can move. -/
  move : n.label = .max ∨ n.label = .min → n.successors ≠ []

instance (n : Node) : Decidable n.Playable :=
  decidable_of_iff
    ((n.label = .average → ∀ e ∈ n.succs.entries, 0 ≤ e.2) ∧
      (n.label = .average → (n.succs.entries.map Prod.snd).sum = 1) ∧
      (n.label = .sink → n.known ≠ none) ∧
      (n.label = .max ∨ n.label = .min → n.successors ≠ []))
    ⟨fun ⟨h₁, h₂, h₃, h₄⟩ => ⟨h₁, h₂, h₃, h₄⟩, fun ⟨h₁, h₂, h₃, h₄⟩ => ⟨h₁, h₂, h₃, h₄⟩⟩

/-- Whether play at the node leads into a list of nodes: players have no other choice,
and an average node has a branch of positive weight that does. -/
def leadsInto (n : Node) (ids : List NodeId) : Bool :=
  match n.label with
  | .sink => true
  | .max | .min => n.successors.all (· ∈ ids)
  | .average => n.succs.entries.any fun e => e.2 ≠ 0 && e.1 ∈ ids

variable {n : Node} {ids : List NodeId} {S : Set NodeId}

theorem not_staysIn_of_leadsInto (h : n.leadsInto ids = true) (hS : ∀ id ∈ ids, id ∉ S) :
    ¬ n.StaysIn S := by
  intro hstay
  unfold leadsInto at h
  unfold StaysIn at hstay
  cases hl : n.label with
  | sink => rwa [hl] at hstay
  | max | min =>
    rw [hl] at h hstay
    obtain ⟨s, hs, hin⟩ := hstay
    exact hS s (of_decide_eq_true (List.all_eq_true.1 h s hs)) hin
  | average =>
    rw [hl] at h hstay
    obtain ⟨e, he, hcount⟩ := List.any_eq_true.1 h
    rw [Bool.and_eq_true, decide_eq_true_eq, decide_eq_true_eq] at hcount
    exact hS e.1 hcount.2 (hstay e he hcount.1)

theorem leadsInto_of_not_staysIn (h : ¬ n.StaysIn S) (hS : ∀ s ∈ n.successors, s ∉ S → s ∈ ids) :
    n.leadsInto ids = true := by
  unfold StaysIn at h
  unfold leadsInto
  cases hl : n.label with
  | sink => rfl
  | max | min =>
    rw [hl] at h
    show n.successors.all (· ∈ ids) = true
    rw [List.all_eq_true]
    intro s hs
    exact decide_eq_true (hS s hs fun hin => h ⟨s, hs, hin⟩)
  | average =>
    simp only [hl, not_forall] at h
    obtain ⟨e, he, hne, hout⟩ := h
    show n.succs.entries.any _ = true
    rw [List.any_eq_true]
    exact ⟨e, he, by simp [hne, hS e.1 (mem_successors_of_entry he) hout]⟩

end Node

namespace Game

variable {g : Game} {id : NodeId} {ids : List NodeId} {S : Set NodeId}

/-! ### Exit orders -/

/-- Whether play at every listed node leads to nodes further down the list. -/
def isExitOrder (g : Game) : List NodeId → Bool
  | [] => true
  | id :: ids => (g.node? id).any (·.leadsInto ids) && g.isExitOrder ids

theorem isExitOrder_cons : g.isExitOrder (id :: ids) = true ↔
    (∃ n, g.node? id = some n ∧ n.leadsInto ids = true) ∧ g.isExitOrder ids = true := by
  rw [isExitOrder, Bool.and_eq_true, Option.any_eq_true]

/-- No listed node is in a trap. -/
theorem Trap.not_mem_of_isExitOrder (hS : g.Trap S) (h : g.isExitOrder ids = true) :
    ∀ id ∈ ids, id ∉ S := by
  induction ids with
  | nil => simp
  | cons j ids ih =>
    obtain ⟨⟨n, hn, hlead⟩, hrest⟩ := isExitOrder_cons.1 h
    intro id hid hin
    rcases List.mem_cons.1 hid with rfl | hid
    · obtain ⟨m, hm, hstay⟩ := hS.staysIn id hin
      obtain rfl := Option.some_inj.1 (hn.symm.trans hm)
      exact Node.not_staysIn_of_leadsInto hlead (ih hrest) hstay
    · exact ih hrest id hid hin

/-- A game all of whose nodes are listed has no trap. -/
theorem not_trap_of_isExitOrder (h : g.isExitOrder ids = true)
    (hall : ∀ id, g.contains id = true → id ∈ ids) (S : Set NodeId) : ¬ g.Trap S := by
  intro hS
  obtain ⟨id, hid⟩ := hS.nonempty
  obtain ⟨n, hn, -⟩ := hS.staysIn id hid
  exact hS.not_mem_of_isExitOrder h id (hall id (contains_iff.2 ⟨n, hn⟩)) hid

/-- Without traps a list that misses a live node can be extended. -/
theorem Linked.exists_leadsInto (hg : g.Linked) (hno : ∀ S, ¬ g.Trap S)
    (hmiss : ∃ id, g.contains id = true ∧ id ∉ ids) :
    ∃ id n, g.node? id = some n ∧ id ∉ ids ∧ n.leadsInto ids = true := by
  by_contra hnone
  -- otherwise the missing nodes are a trap
  refine hno {id | g.contains id = true ∧ id ∉ ids} ⟨hmiss, ?_⟩
  intro id ⟨hlive, hid⟩
  obtain ⟨n, hn⟩ := contains_iff.1 hlive
  refine ⟨n, hn, ?_⟩
  by_contra hstay
  refine hnone ⟨id, n, hn, hid, Node.leadsInto_of_not_staysIn hstay ?_⟩
  intro s hs hout
  by_contra hsid
  exact hout ⟨hg.contains_successor hn hs, hsid⟩

/-- The nodes of a game without traps have an exit order. -/
theorem Linked.exists_isExitOrder (hg : g.Linked) (hno : ∀ S, ¬ g.Trap S) :
    ∃ ids, g.isExitOrder ids = true ∧ ∀ id, g.contains id = true → id ∈ ids := by
  -- extend the empty list, by induction on the number of nodes that are missing
  suffices hext : ∀ k ids, g.isExitOrder ids = true → (g.nodeIds.filter (· ∉ ids)).length ≤ k →
      ∃ ids, g.isExitOrder ids = true ∧ ∀ id, g.contains id = true → id ∈ ids from
    hext _ [] rfl le_rfl
  intro k
  induction k with
  | zero =>
    intro ids hids hlen
    refine ⟨ids, hids, ?_⟩
    intro id hid
    by_contra hmiss
    have hmem : id ∈ g.nodeIds.filter (· ∉ ids) := by
      simp [hmiss, mem_nodeIds, contains_iff.1 hid]
    rw [List.length_eq_zero_iff.1 (Nat.le_zero.1 hlen)] at hmem
    exact absurd hmem List.not_mem_nil
  | succ k ih =>
    intro ids hids hlen
    by_cases hmiss : ∃ id, g.contains id = true ∧ id ∉ ids
    · obtain ⟨id, n, hn, hid, hlead⟩ := hg.exists_leadsInto hno hmiss
      apply ih (id :: ids) (isExitOrder_cons.2 ⟨⟨n, hn, hlead⟩, hids⟩)
      have hsplit : g.nodeIds.filter (· ∉ id :: ids) =
          (g.nodeIds.filter (· ∉ ids)).filter (· ≠ id) := by
        rw [List.filter_filter]
        congr 1
        ext j
        simp
      have hlt : ((g.nodeIds.filter (· ∉ ids)).filter (· ≠ id)).length <
          (g.nodeIds.filter (· ∉ ids)).length := by
        rw [List.length_filter_lt_length_iff_exists]
        exact ⟨id, by simp [hid, mem_nodeIds, hn], by simp⟩
      rw [hsplit]
      omega
    · refine ⟨ids, hids, ?_⟩
      intro id hid
      by_contra hin
      exact hmiss ⟨id, hid, hin⟩

/-! ### One solution -/

/-- A game that ends: its nodes are playable and no set of nodes is a trap. -/
structure Stopping (g : Game) : Prop where
  /-- Play goes on at every live node until it is paid. -/
  playable : ∀ id n, g.node? id = some n → n.Playable
  /-- Play leaves every set of nodes. -/
  no_trap : ∀ S, ¬ g.Trap S

theorem stopping_of_isExitOrder (ids : List NodeId) (hplay : ∀ e ∈ g.nodes, e.2.Playable)
    (h : g.isExitOrder ids = true) (hall : ∀ id ∈ g.nodeIds, id ∈ ids) : g.Stopping where
  playable id n hn := hplay (id, n) (mem_nodes.2 hn)
  no_trap := not_trap_of_isExitOrder h fun id hid => hall id (mem_nodeIds.2 (contains_iff.1 hid))

namespace Stopping

theorem substochastic (hs : g.Stopping) : g.Substochastic :=
  fun id n hn hl => ⟨(hs.playable id n hn).nonneg hl, ((hs.playable id n hn).sum_eq hl).le⟩

theorem not_idle (hs : g.Stopping) (id : NodeId) : ¬ g.Idle id := by
  intro hidle
  obtain ⟨n, hn, ⟨hl, hnil⟩ | ⟨hl, hk⟩⟩ := hidle.cases
  · exact (hs.playable id n hn).move hl hnil
  · exact (hs.playable id n hn).payoff hl hk

/-- The equations of a stopping game have at most one solution. -/
theorem eq_of_solves {f u : NodeId → Rat} (hs : g.Stopping) (hg : g.Linked) (hf : g.Solves f)
    (hu : g.Solves u) (hid : g.contains id = true) : f id = u id :=
  hf.eq_of_traps hu hg hs.substochastic (fun j hj => absurd hj (hs.not_idle j))
    (fun S hS => absurd hS (hs.no_trap S)) hid

end Stopping

/-- **The settings do not matter to a stopping game.** Two runs that finish, with any
settings and any time, report the same values, and these are the only ones that solve
the equations. -/
theorem stopping_runs_agree (hg : g.Reachable) (hs : g.Stopping)
    {settings settings' : SolverSettings} {pace pace' : Nat} {sol sol' : Solution}
    (h : g.solve settings pace = .ok sol) (h' : g.solve settings' pace' = .ok sol') :
    ∀ id, g.contains id = true → ∃ x, sol.value? id = some x ∧ sol'.value? id = some x ∧
      ∀ v, g.Solves v → v id = x := by
  intro id hid
  have hsol := hg.linked.solves_of_solve h
  have hsol' := hg.linked.solves_of_solve h'
  refine ⟨sol.values.value id, hg.linked.value?_of_solve h hid, ?_, ?_⟩
  · rw [hg.linked.value?_of_solve h' hid, hs.eq_of_solves hg.linked hsol' hsol hid]
  · intro v hv
    exact hs.eq_of_solves hg.linked hv hsol hid

theorem stopping_coinLoop : coinLoop.Stopping :=
  stopping_of_isExitOrder [3, 2, 1, 0] (by decide +kernel) (by decide +kernel)
    (by decide +kernel)

/-- Settings under which `coinLoop` needs one snapshot only, at a later sweep, and finds
it in a table of fractions. -/
def rareTableSnapshots : SolverSettings :=
  { checkInterval := 3, approximant := .table, tableMaxDenominator := 8 }

/-- What the solver reports for `coinLoop` under `rareTableSnapshots`. -/
def coinLoopByTable : Solution := { coinLoopSolution with stats := ⟨false, 3, 2, 8, 1⟩ }

theorem solve_coinLoop_byTable :
    coinLoop.solve rareTableSnapshots 1 = .ok coinLoopByTable := by
  unfold solve
  rw [plan_coinLoop]
  decide +kernel

theorem coinLoop_runs_agree :
    coinLoop.Reachable ∧ coinLoop.Stopping ∧
      coinLoop.solve { checkInterval := 1 } 1 = .ok coinLoopSolution ∧
      coinLoop.solve rareTableSnapshots 1 = .ok coinLoopByTable ∧
      ∃ x, coinLoopSolution.value? 3 = some x ∧ coinLoopByTable.value? 3 = some x ∧
        ∀ v, coinLoop.Solves v → v 3 = x :=
  ⟨⟨_, rfl⟩, stopping_coinLoop, solve_coinLoop, solve_coinLoop_byTable,
    stopping_runs_agree ⟨_, rfl⟩ stopping_coinLoop solve_coinLoop solve_coinLoop_byTable 3
      (by decide +kernel)⟩

end Game

end StochasticGame
