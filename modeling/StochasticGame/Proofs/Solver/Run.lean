import StochasticGame.Proofs.Solver.Operator
import StochasticGame.Solver.Solution

/-!
# StochasticGame.Proofs.Solver.Run

**What a run of the solver does.** A sweep writes to the listed ids only, and one that
reports no change leaves the table as it was, with every listed node at its value.
An iteration that ends well ends after some number of sweeps, with the swept table
or with its snapshot, and either way with every listed node at its value.

Facts about a whole run follow by `solve_induction`: what holds of the initial table
and is kept by each component holds at the end.
-/

namespace StochasticGame

/-! ### Writing to listed ids only -/

namespace ValueTable

theorem value_set_of_ne (w : ValueTable) {id j : NodeId} (x : Rat) (h : j ≠ id) :
    (w.set id x).value j = w.value j := by
  have h' : ¬ id = j := fun e => h e.symm
  simp [value, get?, set, h']

theorem value_set_cases (w : ValueTable) (id j : NodeId) (x : Rat) :
    (j = id ∧ (w.set id x).value j = x) ∨ (w.set id x).value j = w.value j := by
  by_cases hj : j = id
  · subst hj
    by_cases hlt : j < w.size
    · exact Or.inl ⟨rfl, by rw [value_set w j j x hlt, if_pos rfl]⟩
    · right
      rw [ValueTable.set, Array.setIfInBounds_eq_of_size_le (Nat.le_of_not_lt hlt)]
  · exact Or.inr (value_set_of_ne w x hj)

/-- Tables of one size that agree on all values are equal. -/
theorem eq_of_value_eq {w w' : ValueTable} (hsize : w'.size = w.size)
    (hvalue : ∀ id, w'.value id = w.value id) : w' = w := by
  obtain ⟨xs⟩ := w
  obtain ⟨ys⟩ := w'
  have hlen : ys.size = xs.size := hsize
  refine congrArg ValueTable.mk (Array.ext hlen ?_)
  intro i hi hi'
  simpa [value, get?, hi, hi'] using hvalue i

/-- Outside a table there are zeros. -/
theorem value_of_size_le {w : ValueTable} {id : NodeId} (h : w.size ≤ id) : w.value id = 0 := by
  have h' : w.values.size ≤ id := h
  simp [value, get?, h']

theorem value_eq_zero_or_mem (w : ValueTable) (id : NodeId) :
    w.value id = 0 ∨ w.value id ∈ w.values := by
  rw [value, get?]
  cases hx : w.values[id]? with
  | none => exact Or.inl rfl
  | some x => exact Or.inr (Array.mem_of_getElem? hx)

/-- A table starts with the known values of the live nodes. -/
theorem value_ofGame (g : Game) (id : NodeId) :
    (ofGame g).value id = ((g.node? id).bind Node.known).getD 0 := by
  rw [value, get?, ofGame, Array.getElem?_map, Game.node?]
  cases g.slots[id]? with
  | none => rfl
  | some slot => cases slot <;> rfl

/-- Where a table does not start with a known value, it starts with 0. -/
theorem value_ofGame_cases (g : Game) (id : NodeId) :
    (ofGame g).value id = 0 ∨ ∃ l, g.face? id = some (l, some ((ofGame g).value id)) := by
  rw [value_ofGame]
  cases hn : g.node? id with
  | none => exact Or.inl rfl
  | some n =>
    rw [Option.bind_some]
    cases hk : n.known with
    | none => exact Or.inl rfl
    | some x => exact Or.inr ⟨n.label, by rw [Game.face?_of_node? hn, hk, Option.getD_some]⟩

/-- A table that differs from another one at listed ids only. -/
structure Frame (ids : List NodeId) (w w' : ValueTable) : Prop where
  /-- The sizes agree. -/
  size_eq : w'.size = w.size
  /-- The values of all other ids agree. -/
  value_eq : ∀ id, id ∉ ids → w'.value id = w.value id

namespace Frame

variable {ids : List NodeId} {w w' w'' : ValueTable}

theorem refl (ids : List NodeId) (w : ValueTable) : Frame ids w w := ⟨rfl, fun _ _ => rfl⟩

theorem trans (h : Frame ids w w') (h' : Frame ids w' w'') : Frame ids w w'' where
  size_eq := h'.size_eq.trans h.size_eq
  value_eq id hid := (h'.value_eq id hid).trans (h.value_eq id hid)

theorem mono {ids' : List NodeId} (h : Frame ids w w') (hsub : ids ⊆ ids') :
    Frame ids' w w' where
  size_eq := h.size_eq
  value_eq id hid := h.value_eq id fun hmem => hid (hsub hmem)

theorem set {id : NodeId} (h : id ∈ ids) (x : Rat) : Frame ids w (w.set id x) where
  size_eq := size_set w id x
  value_eq _ hj := value_set_of_ne w x fun e => hj (e ▸ h)

/-- A fold whose steps write to listed ids only does so as a whole. -/
theorem foldl {σ : Type} (table : σ → ValueTable) {step : σ → NodeId → σ} {all : List NodeId}
    (hstep : ∀ s, ∀ id ∈ all, Frame all (table s) (table (step s id))) :
    ∀ (ids : List NodeId), ids ⊆ all → ∀ s, Frame all (table s) (table (ids.foldl step s))
  | [], _, s => refl all (table s)
  | id :: ids, hsub, s =>
    (hstep s id (hsub List.mem_cons_self)).trans
      (foldl table hstep ids (fun _ h => hsub (List.mem_cons_of_mem id h)) (step s id))

end Frame

/-- What each step of a fold makes true of the entry it writes to is true of all entries
in the end, if the steps keep what it depends on. -/
theorem foldl_written {σ : Type} (table : σ → ValueTable) {step : σ → NodeId → σ}
    {all : List NodeId} {P : σ → Prop} {Q : NodeId → Rat → Prop}
    (hframe : ∀ s id, Frame [id] (table s) (table (step s id)))
    (hkeep : ∀ s, ∀ id ∈ all, P s → P (step s id))
    (hwrite : ∀ s, ∀ id ∈ all, P s → Q id ((table (step s id)).value id)) (ids : List NodeId)
    (hids : ids ⊆ all) (s : σ) (hs : P s) :
    ∀ id ∈ ids, Q id ((table (ids.foldl step s)).value id) := by
  induction ids generalizing s with
  | nil => simp
  | cons i ids ih =>
    have hi := hids List.mem_cons_self
    have hrest := ih (fun _ h => hids (List.mem_cons_of_mem i h)) (step s i) (hkeep s i hi hs)
    intro id hid
    rw [List.foldl_cons]
    by_cases hin : id ∈ ids
    · exact hrest id hin
    · -- the first entry is not written to again
      obtain rfl := (List.mem_cons.1 hid).resolve_right hin
      have hlater : Frame ids (table (step s id)) (table (ids.foldl step (step s id))) :=
        .foldl table (fun s j hj => (hframe s j).mono (by simpa using hj)) ids
          (fun _ h => h) _
      rw [hlater.value_eq id hin]
      exact hwrite s id hi hs

/-- Saved values that are written back bring the old table back, if the new one differs
from it at the saved ids only. An id may have been saved twice. -/
theorem restore_save {ids : List NodeId} {w w' : ValueTable} (h : Frame ids w w') :
    w'.restore (w.save ids) = w := by
  induction ids generalizing w' with
  | nil => exact eq_of_value_eq h.size_eq fun id => h.value_eq id List.not_mem_nil
  | cons i ids ih =>
    -- with the first value back, the tables differ at the others only
    refine ih ⟨(size_set ..).trans h.size_eq, ?_⟩
    intro id hid
    by_cases hi : id = i
    · rw [hi]
      by_cases hlt : i < w'.size
      · rw [value_set w' i i _ hlt, if_pos rfl]
      · rw [value_of_size_le ((size_set ..).trans_le (not_lt.1 hlt)),
          value_of_size_le (h.size_eq ▸ not_lt.1 hlt)]
    · rw [value_set_of_ne w' _ hi]
      exact h.value_eq id fun hmem => hid ((List.mem_cons.1 hmem).resolve_left hi)

end ValueTable

open ValueTable

namespace Game

variable {g : Game}

/-! ### Sweeps -/

/-- An update leaves everything as it is at a node that has its value, and
otherwise writes the value and raises the flag. -/
theorem update_cases (g : Game) (s : Bool × ValueTable) (id : NodeId) :
    (g.FixedAt s.2.value id ∧ g.update s id = s) ∨
      ∃ x, g.step? s.2 id = some x ∧ g.update s id = (true, s.2.set id x) := by
  unfold update
  cases hx : g.step? s.2 id with
  | none => exact Or.inl ⟨fixedAt_iff.2 (by simp [hx]), rfl⟩
  | some x =>
    by_cases he : x = s.2.value id
    · refine Or.inl ⟨fixedAt_iff.2 ?_, if_pos he⟩
      intro y hy
      rw [← he]
      exact Option.some_inj.1 (hx.symm.trans hy)
    · exact Or.inr ⟨x, rfl, if_neg he⟩

theorem frame_update {ids : List NodeId} {id : NodeId} (h : id ∈ ids) (s : Bool × ValueTable) :
    Frame ids s.2 (g.update s id).2 := by
  rcases g.update_cases s id with ⟨-, he⟩ | ⟨x, -, he⟩
  · rw [he]
    exact Frame.refl ids s.2
  · rw [he]
    exact Frame.set h x

theorem frame_sweep (g : Game) (ids : List NodeId) (w : ValueTable) :
    Frame ids w (g.sweep ids w).2 :=
  Frame.foldl Prod.snd (fun s _ h => frame_update h s) ids (fun _ h => h) (false, w)

theorem foldl_update_unchanged (ids : List NodeId) (s : Bool × ValueTable)
    (h : (ids.foldl g.update s).1 = false) :
    ids.foldl g.update s = s ∧ ∀ id ∈ ids, g.FixedAt s.2.value id := by
  induction ids generalizing s with
  | nil => simp
  | cons id ids ih =>
    rw [List.foldl_cons] at h ⊢
    obtain ⟨hs, hfix⟩ := ih _ h
    rcases g.update_cases s id with ⟨hid, he⟩ | ⟨x, -, he⟩
    · rw [he] at hs hfix ⊢
      refine ⟨hs, ?_⟩
      intro j hj
      rcases List.mem_cons.1 hj with rfl | hj
      · exact hid
      · exact hfix j hj
    · -- a raised flag stays up
      rw [hs, he] at h
      exact absurd h (by simp)

/-- A sweep that reports no change made none, and every listed node has its value. -/
theorem sweep_unchanged {ids : List NodeId} {w : ValueTable} (h : (g.sweep ids w).1 = false) :
    (g.sweep ids w).2 = w ∧ ∀ id ∈ ids, g.FixedAt w.value id := by
  obtain ⟨hs, hfix⟩ := foldl_update_unchanged ids (false, w) h
  exact ⟨by rw [sweep, hs], hfix⟩

/-- What writing the value of an operator keeps, a sweep keeps. -/
theorem sweep_induction {P : ValueTable → Prop} {w : ValueTable} (ids : List NodeId) (start : P w)
    (step : ∀ w id x, P w → g.step? w id = some x → P (w.set id x)) : P (g.sweep ids w).2 := by
  have h : ∀ (ids : List NodeId) (s : Bool × ValueTable), P s.2 → P (ids.foldl g.update s).2 := by
    intro ids
    induction ids with
    | nil => exact fun _ hs => hs
    | cons id ids ih =>
      intro s hs
      rw [List.foldl_cons]
      apply ih
      rcases g.update_cases s id with ⟨-, he⟩ | ⟨x, hx, he⟩
      · rwa [he]
      · rw [he]
        exact step s.2 id x hs hx
  exact h ids (false, w) start

end Game

/-! ### Iterations -/

namespace Iteration

variable {it : Iteration}

/-- The table after a number of sweeps. -/
def swept (it : Iteration) : Nat → ValueTable → ValueTable
  | 0, w => w
  | k + 1, w => it.swept k (it.game.sweep it.ids w).2

theorem swept_succ (it : Iteration) (k : Nat) (w : ValueTable) :
    it.swept (k + 1) w = (it.game.sweep it.ids (it.swept k w)).2 := by
  induction k generalizing w with
  | zero => rfl
  | succ k ih => rw [swept, ih, swept]

theorem frame_swept (it : Iteration) (k : Nat) (w : ValueTable) :
    Frame it.ids w (it.swept k w) := by
  induction k generalizing w with
  | zero => exact Frame.refl it.ids w
  | succ k ih => exact (it.game.frame_sweep it.ids w).trans (ih _)

theorem swept_induction {P : ValueTable → Prop} {w : ValueTable} (k : Nat) (start : P w)
    (step : ∀ w id x, P w → it.game.step? w id = some x → P (w.set id x)) : P (it.swept k w) := by
  induction k generalizing w with
  | zero => exact start
  | succ k ih => exact ih (Game.sweep_induction it.ids start step)

theorem snap_induction {P : ValueTable → Prop} {w : ValueTable} (start : P w)
    (step : ∀ w id, P w → P (w.set id (it.approximant.nearest (w.value id) it.bound.value))) :
    P (it.snap w) := by
  have h : ∀ (ids : List NodeId) (w : ValueTable), P w → P (ids.foldl it.snapOne w) := by
    intro ids
    induction ids with
    | nil => exact fun _ hw => hw
    | cons id ids ih =>
      intro w hw
      rw [List.foldl_cons]
      apply ih
      unfold snapOne
      split
      · exact hw
      · exact step w id hw
  exact h it.ids w start

theorem frame_snapOne {ids : List NodeId} {id : NodeId} (h : id ∈ ids) (w : ValueTable) :
    Frame ids w (it.snapOne w id) := by
  unfold snapOne
  split
  · exact Frame.refl ids w
  · exact Frame.set h _

theorem frame_snap (it : Iteration) (w : ValueTable) : Frame it.ids w (it.snap w) :=
  Frame.foldl id (fun w _ h => frame_snapOne h w) it.ids (fun _ h => h) w

/-- A snapshot that is not kept leaves no trace. -/
theorem trySnapshot_eq (it : Iteration) (w : ValueTable) :
    it.trySnapshot w =
      if it.game.isFixed it.ids (it.snap w) then (true, it.snap w) else (false, w) := by
  unfold trySnapshot
  dsimp only
  rw [restore_save (it.frame_snap w)]

/-- What one round of an iteration does, without the overwriting and writing back of
snapshots that are not kept. -/
theorem run_succ (it : Iteration) (budget done : Nat) (w : ValueTable) :
    it.run (budget + 1) done w =
      if it.ids.all (it.game.canUpdate w.size) then
        if it.isDue (done + 1) && it.ids.any (w.size ≤ ·) then
          (.error .outsideTable, (it.game.sweep it.ids w).2)
        else if it.isDue (done + 1) && !it.ids.all (it.canSnap (it.game.sweep it.ids w).2) then
          (.error .overflow, it.snapPartial (it.game.sweep it.ids w).2)
        else if it.isDue (done + 1) &&
            it.game.isFixed it.ids (it.snap (it.game.sweep it.ids w).2) then
          (.ok (it.accepted (done + 1)), it.snap (it.game.sweep it.ids w).2)
        else if (it.game.sweep it.ids w).1 then
          it.run budget (done + 1) (it.game.sweep it.ids w).2
        else (.ok ⟨.converged, done + 1, none⟩, (it.game.sweep it.ids w).2)
      else (.error .outsideTable, (it.game.sweepPartial it.ids w).2) := by
  rw [run]
  simp only [trySnapshot_eq]
  cases it.isDue (done + 1) with
  | true =>
    by_cases hfix : it.game.isFixed it.ids (it.snap (it.game.sweep it.ids w).2) = true
    · simp [hfix]
    · simp [hfix]
  | false => simp

/-- The ways in which an iteration can end well. -/
inductive Ends (it : Iteration) (w : ValueTable) : Outcome → ValueTable → Prop where
  /-- A sweep changed nothing. -/
  | converged (k sweeps : Nat) (h : ∀ id ∈ it.ids, it.game.FixedAt (it.swept k w).value id) :
    Ends it w ⟨.converged, sweeps, none⟩ (it.swept k w)
  /-- The snapshot of the swept table was accepted. -/
  | snapped (k sweeps : Nat)
    (h : ∀ id ∈ it.ids, it.game.FixedAt (it.snap (it.swept k w)).value id) :
    Ends it w (it.accepted sweeps) (it.snap (it.swept k w))

/-- What an iteration reaches from a swept table it reaches from the table. -/
theorem Ends.of_sweep {w w' : ValueTable} {o : Outcome}
    (h : it.Ends (it.game.sweep it.ids w).2 o w') : it.Ends w o w' := by
  cases h with
  | converged k sweeps h => exact .converged (k + 1) sweeps h
  | snapped k sweeps h => exact .snapped (k + 1) sweeps h

theorem ends_of_run {budget done : Nat} {w w' : ValueTable} {o : Outcome}
    (h : it.run budget done w = (.ok o, w')) : it.Ends w o w' := by
  induction budget generalizing done w with
  | zero => simp [run] at h
  | succ budget ih =>
    rw [run_succ] at h
    split at h
    · split at h
      · simp at h
      split at h
      · simp at h
      split at h
      · -- the snapshot is accepted because it was checked
        rename_i hsnap
        rw [Bool.and_eq_true, Game.isFixed_iff] at hsnap
        obtain ⟨rfl, rfl⟩ := Prod.mk.inj h |>.imp_left Except.ok.inj
        exact .snapped 1 _ hsnap.2
      split at h
      · exact (ih h).of_sweep
      · -- the sweep itself is the check
        rename_i hch
        obtain ⟨hw, hfix⟩ := Game.sweep_unchanged (Bool.eq_false_iff.2 hch)
        obtain ⟨rfl, rfl⟩ := Prod.mk.inj h |>.imp_left Except.ok.inj
        rw [hw]
        exact .converged 0 _ hfix
    · simp at h

theorem Ends.frame {w w' : ValueTable} {o : Outcome} (h : it.Ends w o w') :
    Frame it.ids w w' := by
  cases h with
  | converged k => exact it.frame_swept k w
  | snapped k => exact (it.frame_swept k w).trans (it.frame_snap _)

theorem Ends.fixedAt {w w' : ValueTable} {o : Outcome} (h : it.Ends w o w') :
    ∀ id ∈ it.ids, it.game.FixedAt w'.value id := by
  cases h with
  | converged _ _ h => exact h
  | snapped _ _ h => exact h

end Iteration

/-! ### Whole runs -/

namespace Game

variable {g : Game} {settings : SolverSettings} {approximant : Approximant} {pace : Nat}

theorem solveComponents_induction {P : List (List NodeId) → Solution → Prop}
    {all : List (List NodeId)} (pre : List (List NodeId)) {rest : List (List NodeId)}
    {s sol : Solution} (hall : all = pre ++ rest)
    (h : g.solveComponents settings approximant pace rest s = .ok sol) (start : P pre s)
    (step : ∀ pre ids post s o w, all = pre ++ ids :: post → P pre s →
      g.solveNodes settings approximant pace ids s.values = (.ok o, w) →
      P (pre ++ [ids]) (s.record ids.length o w)) : P all sol := by
  induction rest generalizing pre s with
  | nil =>
    obtain rfl := Except.ok.inj h
    rwa [hall, List.append_nil]
  | cons ids rest ih =>
    rw [solveComponents] at h
    split at h
    · simp at h
    · rename_i o w hrun
      refine ih (pre ++ [ids]) (by rw [hall, List.append_assoc]; rfl) h ?_
      exact step pre ids rest s o w hall start hrun

/-- What holds of the initial table before the first component, and is kept by
every component that is solved in plan order, holds of the solution. -/
theorem solve_induction_solveNodes {P : List (List NodeId) → Solution → Prop} {sol : Solution}
    (h : g.solve settings pace = .ok sol)
    (start : ∀ stats : SolveStats, stats.exactSnapshots = 0 → P [] ⟨.ofGame g, stats, []⟩)
    (step : ∀ pre ids post s o w, g.plan.components = pre ++ ids :: post → P pre s →
      g.solveNodes settings settings.buildApproximant pace ids s.values = (.ok o, w) →
      P (pre ++ [ids]) (s.record ids.length o w)) : P g.plan.components sol :=
  solveComponents_induction [] rfl h (start _ rfl) step

/-- The same, with what is known of every iteration that ends well. -/
theorem solve_induction {P : List (List NodeId) → Solution → Prop} {sol : Solution}
    (h : g.solve settings pace = .ok sol)
    (start : ∀ stats : SolveStats, stats.exactSnapshots = 0 → P [] ⟨.ofGame g, stats, []⟩)
    (step : ∀ pre ids post s o w, g.plan.components = pre ++ ids :: post → P pre s →
      (g.iteration settings settings.buildApproximant ids).Ends s.values o w →
      P (pre ++ [ids]) (s.record ids.length o w)) : P g.plan.components sol :=
  solve_induction_solveNodes h start fun pre ids post s o w hplan hs hrun =>
    step pre ids post s o w hplan hs (Iteration.ends_of_run hrun)

end Game

end StochasticGame
