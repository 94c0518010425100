import StochasticGame.Proofs.Solver.Convergence
import StochasticGame.Proofs.Solver.Range
import StochasticGame.Proofs.Solver.Snapshots

/-!
# StochasticGame.Proofs.Solver.Termination

**When the iteration of a component ends.** Inside the table and within 64 bits an
iteration ends well or runs out of time. Its sweeps converge, so a late snapshot is the
vector of values if the bound covers their denominators. Otherwise the iteration ends
only if sweeps happen to reach the values exactly.
-/

namespace StochasticGame

open ValueTable

/-! ### Iterations that end -/

namespace Iteration

variable {it : Iteration} {w : ValueTable} {k : Nat}

/-- Given enough time, the iteration ends well. -/
def Returns (it : Iteration) (w : ValueTable) : Prop :=
  ∃ budget o w', it.run budget 0 w = (.ok o, w')

/-- The iteration has ended by the time that a snapshot is right. -/
theorem Unhindered.returns_of_snap (h : it.Unhindered w.size) (hdue : it.isDue (k + 1) = true)
    (hfix : ∀ id ∈ it.ids, it.game.FixedAt (it.snap (it.swept (k + 1) w)).value id) :
    it.Returns w := by
  cases h.run_or k with
  | inl hends => exact ⟨k + 1, hends⟩
  | inr hgoes => exact absurd ⟨hdue, hfix⟩ hgoes.refused

/-- The iteration has ended after a sweep that starts from the values. -/
theorem Unhindered.run_of_swept (h : it.Unhindered w.size)
    (hfix : ∀ id ∈ it.ids, it.game.FixedAt (it.swept k w).value id) :
    ∃ o w', it.run (k + 1) 0 w = (.ok o, w') := by
  cases h.run_or k with
  | inl hends => exact hends
  | inr hgoes =>
    have hchanged := hgoes.changed
    rw [Game.sweep_of_fixedAt hfix] at hchanged
    exact absurd hchanged Bool.false_ne_true

end Iteration

/-! ### Stopping games -/

namespace Game

variable {g : Game} {v : NodeId → Rat} {ids : List NodeId} {id : NodeId} {w : ValueTable}

/-- Every sink pays 0 or 1. -/
def WinLose (g : Game) : Prop :=
  ∀ id n, g.node? id = some n → n.label = .sink → n.known = some 0 ∨ n.known = some 1

theorem WinLose.payoff_eq (hp : g.WinLose) {n : Node} {x : Rat} (hn : g.node? id = some n)
    (hl : n.label = .sink) (hx : n.known = some x) : x = 0 ∨ x = 1 := by
  rw [← Option.some_inj, ← Option.some_inj (b := (1 : Rat)), ← hx]
  exact hp id n hn hl

theorem WinLose.payoff_mem_unit (hp : g.WinLose) {n : Node} {x : Rat} (hn : g.node? id = some n)
    (hl : n.label = .sink) (hx : n.known = some x) : x ∈ Set.Icc (0 : Rat) 1 := by
  rcases hp.payoff_eq hn hl hx with rfl | rfl
  · exact ⟨le_rfl, zero_le_one⟩
  · exact ⟨zero_le_one, le_rfl⟩

theorem WinLose.den_payoff (hp : g.WinLose) {n : Node} {x : Rat} (hn : g.node? id = some n)
    (hl : n.label = .sink) (hx : n.known = some x) : x.den = 1 := by
  rcases hp.payoff_eq hn hl hx with rfl | rfl <;> rfl

/-- The values of a stopping game whose sinks pay 0 or 1 are probabilities. -/
theorem Stopping.mem_unit_of_solves (hs : g.Stopping) (hg : g.Linked) (hp : g.WinLose)
    (hv : g.Solves v) (hid : g.contains id = true) : v id ∈ Set.Icc (0 : Rat) 1 := by
  -- sweeps of all nodes stay in range from the table of zeros on, and converge
  let it : Iteration := ⟨g, g.nodeIds, .walk, 0, ⟨1, false⟩⟩
  let w : ValueTable := ⟨Array.replicate g.capacity 0⟩
  have hrange : ∀ k j, (it.swept k w).value j ∈ Set.Icc (0 : Rat) 1 := by
    intro k
    refine Iteration.swept_induction (P := fun w => ∀ j, w.value j ∈ Set.Icc (0 : Rat) 1) k ?_ ?_
    · intro j
      rcases w.value_eq_zero_or_mem j with h | h
      · rw [h]
        exact ⟨le_rfl, zero_le_one⟩
      · rw [Array.eq_of_mem_replicate h]
        exact ⟨le_rfl, zero_le_one⟩
    · intro w i x hw (hx : g.step? w i = some x) j
      obtain ⟨n, hn, hx⟩ := step?_eq_some_iff.1 hx
      rcases w.value_set_cases i j x with ⟨-, he⟩ | he
      · rw [he]
        exact hx.mem_unit (hs.playable i n hn).nonneg (hs.playable i n hn).sum_eq
          (fun hl x => hp.payoff_mem_unit hn hl) fun s _ => hw s
      · rw [he]
        exact hw j
  have hlive : ∀ j ∈ it.ids, it.game.contains j = true := fun j hj =>
    contains_iff.2 (mem_nodeIds.1 hj)
  have hw : it.game.ExactOutside v it.ids w := by
    refine ⟨by simp [w, size, it], ?_⟩
    intro j hj hout
    exact absurd (mem_nodeIds.2 (contains_iff.1 hj)) hout
  constructor
  · by_contra hneg
    obtain ⟨k, hk⟩ := Iteration.exists_swept_close hs hg hv hlive hw (neg_pos.2 (not_le.1 hneg))
    have hlt := (abs_lt.1 (hk k le_rfl id hid)).2
    linarith [(hrange k id).1]
  · by_contra hbig
    obtain ⟨k, hk⟩ := Iteration.exists_swept_close hs hg hv hlive hw (sub_pos.2 (not_le.1 hbig))
    have hlt := (abs_lt.1 (hk k le_rfl id hid)).1
    linarith [(hrange k id).2]

/-- The value of a sink is its payoff. -/
theorem Stopping.known_of_sink (hs : g.Stopping) (hv : g.Solves v) {n : Node}
    (hn : g.node? id = some n) (hl : n.label = .sink) : n.known = some (v id) := by
  have hy := hv.yields hn (hs.not_idle id)
  rwa [Node.Yields, hl] at hy

/-- After a sweep a listed sink has its payoff. -/
theorem value_sweep_of_sink {n : Node} {x : Rat} (hn : g.node? id = some n)
    (hl : n.label = .sink) (hk : n.known = some x) (hid : id ∈ ids) (hlt : id < w.size) :
    (g.sweep ids w).2.value id = x := by
  refine foldl_written (P := fun s => s.2.size = w.size) (Q := fun j y => j = id → y = x)
    Prod.snd (fun s j => frame_update List.mem_cons_self s) ?_ ?_ ids (fun _ h => h) (false, w)
    rfl id hid rfl
  · intro s j hj hs
    exact (frame_update hj s).size_eq.trans hs
  · rintro s j - hs rfl
    refine value_update (hs ▸ hlt) (step?_eq_some_iff.2 ⟨n, hn, ?_⟩)
    rw [Node.Yields, hl]
    exact hk

/-- A table that is right about all live nodes satisfies their equations. -/
theorem ExactOutside.fixedAt (hw : g.ExactOutside v ids w) (hg : g.Linked) (hv : g.Solves v)
    (hval : ∀ id ∈ ids, w.value id = v id) : ∀ id ∈ ids, g.FixedAt w.value id := by
  intro id hid n hn x hx
  refine (hv id).congr (hval id hid) ?_ n hn x hx
  intro s hs
  rw [successors_of_node? hn] at hs
  by_cases hin : s ∈ ids
  · exact hval s hin
  · exact hw.value_eq s (hg.contains_successor hn hs) hin

/-- Nothing but time can stop the iteration of live nodes under a bound of 63 bits. -/
theorem Linked.unhindered (hg : g.Linked) (hlive : ∀ id ∈ ids, g.contains id = true)
    {settings : SolverSettings}
    (hbound : (g.denominatorBound ids settings.denominatorCap.toNat).value ≤ 2 ^ 63) :
    (g.iteration settings settings.buildApproximant ids).Unhindered g.capacity := by
  have hinside : ∀ id ∈ ids, id < g.capacity := fun id hid => lt_capacity_of_contains (hlive id hid)
  refine unhindered_iteration _ hinside ?_ hbound
  intro id hid
  obtain ⟨n, hn⟩ := contains_iff.1 (hlive id hid)
  refine canUpdate_of_successors (hinside id hid) ?_
  intro s hs
  rw [successors_of_node? hn] at hs
  exact lt_capacity_of_contains (hg.contains_successor hn hs)

end Game

/-! ### When an iteration ends -/

namespace Iteration

variable {it : Iteration} {w : ValueTable} {v : NodeId → Rat}
variable (hs : it.game.Stopping) (hg : it.game.Linked) (hp : it.game.WinLose)
  (hv : it.game.Solves v) (hlive : ∀ id ∈ it.ids, it.game.contains id = true)
  (hw : it.game.ExactOutside v it.ids w)
  (hwalk : ∀ x, it.approximant.nearest x it.bound.value = nearestByWalk x it.bound.value)

include hs hg hp hv hlive hw hwalk

/-- After a sweep that leaves all values close to the true ones a snapshot is right, if the
bound covers the denominators. -/
theorem value_snap_of_close (hden : ∀ id ∈ it.ids, (v id).den ≤ max it.bound.value 1) {k : Nat}
    (hclose : ∀ id ∈ it.ids, |(it.swept (k + 1) w).value id - v id| <
      1 / (2 * ((max it.bound.value 1 : Nat) : Rat) ^ 2)) :
    ∀ id ∈ it.ids, (it.snap (it.swept (k + 1) w)).value id = v id := by
  have hsize : ∀ j, (it.swept j w).size = it.game.capacity := fun j =>
    (hw.of_frame (it.frame_swept j w)).size_eq
  have hinside : ∀ j, ∀ id ∈ it.ids, id < (it.swept j w).size := fun j id hid =>
    hsize j ▸ Game.lt_capacity_of_contains (hlive id hid)
  have hunit := fun id hid => hs.mem_unit_of_solves hg hp hv (hlive id hid)
  intro id hid
  by_cases hsink : it.game.IsSink id
  · obtain ⟨n, hn, hl⟩ := hsink
    rw [value_snap_of_sink ⟨n, hn, hl⟩, swept_succ]
    exact Game.value_sweep_of_sink hn hl (hs.known_of_sink hv hn hl) hid (hinside k id hid)
  · rw [value_snap hwalk (hinside (k + 1) id hid) hsink hid]
    exact nearestByWalk_of_close (hunit id hid).1 (hunit id hid).2 (hden id hid) (hclose id hid)

/-- An iteration ends if the bound covers the denominators of the values. -/
theorem returns_of_den_le (hfree : it.Unhindered w.size) (hinterval : 0 < it.interval)
    (hden : ∀ id ∈ it.ids, (v id).den ≤ max it.bound.value 1) : it.Returns w := by
  have hB : (0 : Rat) < (max it.bound.value 1 : Nat) := Nat.cast_pos.2 (by omega)
  obtain ⟨k, hk⟩ := exists_swept_close hs hg hv hlive hw
    (show (0 : Rat) < 1 / (2 * ((max it.bound.value 1 : Nat) : Rat) ^ 2) by positivity)
  -- the first snapshot that is late enough
  obtain ⟨j, hj⟩ : ∃ j, j + 1 = it.interval * (k + 1) :=
    Nat.exists_eq_succ_of_ne_zero (Nat.mul_pos hinterval k.succ_pos).ne' |>.imp fun _ h => h.symm
  have hlate : k ≤ j + 1 := by
    rw [hj]
    exact (Nat.le_succ k).trans (Nat.le_mul_of_pos_left (k + 1) hinterval)
  have hval := value_snap_of_close hs hg hp hv hlive hw hwalk hden
    fun id hid => hk (j + 1) hlate id (hlive id hid)
  refine hfree.returns_of_snap (k := j) ?_ ?_
  · rw [hj, isDue, decide_eq_true hinterval, Bool.true_and, decide_eq_true_eq]
    exact Nat.mul_mod_right it.interval (k + 1)
  · exact (hw.of_frame ((it.frame_swept _ w).trans (it.frame_snap _))).fixedAt hg hv hval

/-- An accepted snapshot holds the values, so the bound covers their denominators. -/
theorem den_le_of_snap {k : Nat}
    (hfix : ∀ id ∈ it.ids, it.game.FixedAt (it.snap (it.swept k w)).value id) :
    ∀ id ∈ it.ids, (v id).den ≤ max it.bound.value 1 := by
  have hswept := hw.of_frame (it.frame_swept k w)
  have hval : ∀ id ∈ it.ids, (it.snap (it.swept k w)).value id = v id := fun id hid =>
    value_eq_of_fixedAt hs hg hv hlive (hswept.of_frame (it.frame_snap _)) hfix hid
  intro id hid
  by_cases hsink : it.game.IsSink id
  · obtain ⟨n, hn, hl⟩ := hsink
    rw [hp.den_payoff hn hl (hs.known_of_sink hv hn hl)]
    exact Nat.le_max_right _ 1
  · have hlt : id < (it.swept k w).size :=
      hswept.size_eq ▸ Game.lt_capacity_of_contains (hlive id hid)
    rw [← hval id hid, value_snap hwalk hlt hsink hid]
    exact den_nearestByWalk_le _ it.bound.value

/-- **When an iteration ends.** Let the table be right about the nodes of a stopping game
that are not listed. The iteration of the listed ones ends exactly if the bound covers
the denominators of their values or sweeps reach these values. -/
theorem returns_iff (hfree : it.Unhindered w.size) (hinterval : 0 < it.interval) :
    it.Returns w ↔ (∀ id ∈ it.ids, (v id).den ≤ max it.bound.value 1) ∨
      ∃ k, ∀ id ∈ it.ids, (it.swept k w).value id = v id := by
  constructor
  · rintro ⟨budget, o, w', hrun⟩
    cases ends_of_run hrun with
    | converged k _ hfix =>
      exact Or.inr ⟨k, fun id hid =>
        value_eq_of_fixedAt hs hg hv hlive (hw.of_frame (it.frame_swept k w)) hfix hid⟩
    | snapped k _ hfix => exact Or.inl (den_le_of_snap hs hg hp hv hlive hw hwalk hfix)
  · intro h
    rcases h with hden | ⟨k, hval⟩
    · exact returns_of_den_le hs hg hp hv hlive hw hwalk hfree hinterval hden
    · exact ⟨k + 1, hfree.run_of_swept ((hw.of_frame (it.frame_swept k w)).fixedAt hg hv hval)⟩

end Iteration

end StochasticGame
