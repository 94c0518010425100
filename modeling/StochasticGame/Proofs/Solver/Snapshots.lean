import StochasticGame.Proofs.Solver.SearchChoice

/-!
# StochasticGame.Proofs.Solver.Snapshots

**Snapshots do not show until one is kept.** An iteration overwrites the table it sweeps
with each snapshot and writes the old values back if the snapshot is wrong. So it goes
through the tables of plain sweeps, and a snapshot can only be the last thing it does.

The listed ids may come in any order and more than once, and removed nodes may be among
them. A snapshot still replaces each listed value once: the nearest fraction of a nearest
fraction is itself.
-/

namespace StochasticGame

open ValueTable

/-! ### Plain sweeps and snapshots -/

namespace Game

variable {g : Game} {ids : List NodeId} {bound : Nat} {w t : ValueTable}

/-- The table after a number of sweeps and nothing else. -/
def sweeps (g : Game) (ids : List NodeId) (k : Nat) (w : ValueTable) : ValueTable :=
  (fun t => (g.sweep ids t).2)^[k] w

/-- A live node that is a sink. -/
def IsSink (g : Game) (id : NodeId) : Prop := ∃ n, g.node? id = some n ∧ n.label = .sink

theorem any_isSink_iff {id : NodeId} : (g.node? id).any Node.isSink = true ↔ g.IsSink id := by
  simp [IsSink, Option.any_eq_true, Node.isSink]

/-- A table with the best fractions within a bound in place of the listed values, those of
sinks apart. -/
structure IsSnapshot (g : Game) (ids : List NodeId) (bound : Nat) (w t : ValueTable) : Prop where
  /-- The sizes agree. -/
  size_eq : t.size = w.size
  /-- A listed node that is not a sink has the best fraction for its value. -/
  best : ∀ id ∈ ids, ¬ g.IsSink id →
    ∃ f : Fraction, f.IsBest (w.value id) (max bound 1) ∧ t.value id = f.toRat
  /-- All other values agree. -/
  value_eq : ∀ id, id ∉ ids ∨ g.IsSink id → t.value id = w.value id

/-- A table has one snapshot. -/
theorem IsSnapshot.unique {t' : ValueTable} (h : g.IsSnapshot ids bound w t)
    (h' : g.IsSnapshot ids bound w t') : t' = t := by
  refine eq_of_value_eq (h'.size_eq.trans h.size_eq.symm) ?_
  intro id
  by_cases hid : id ∉ ids ∨ g.IsSink id
  · rw [h.value_eq id hid, h'.value_eq id hid]
  · obtain ⟨hmem, hsink⟩ := not_or.1 hid
    obtain ⟨f, hf, ht⟩ := h.best id (not_not.1 hmem) hsink
    obtain ⟨f', hf', ht'⟩ := h'.best id (not_not.1 hmem) hsink
    rw [ht, ht', hf.unique hf']

/-- The snapshot that follows a number of sweeps under given settings and is right. -/
structure Accepts (g : Game) (settings : SolverSettings) (ids : List NodeId) (w : ValueTable)
    (n : Nat) (t : ValueTable) : Prop where
  /-- Snapshots are tried. -/
  interval_pos : 0 < settings.checkInterval.toNat
  /-- One is tried after this sweep. -/
  dvd : settings.checkInterval.toNat ∣ n
  /-- It is the snapshot of the swept table. -/
  snapshot : g.IsSnapshot ids (g.denominatorBound ids settings.denominatorCap.toNat).value
    (g.sweeps ids n w) t
  /-- Every listed node whose operator gives a value has that value in it. -/
  fixed : ∀ id ∈ ids, ∀ x, g.step? t id = some x → t.value id = x

/-- The sweep after a number of others is not the last one under given settings. -/
structure Continues (g : Game) (settings : SolverSettings) (ids : List NodeId) (w : ValueTable)
    (j : Nat) : Prop where
  /-- It reports a change. -/
  changed : (g.sweep ids (g.sweeps ids j w)).1 = true
  /-- No snapshot that follows it is right. -/
  refused : ∀ t, ¬ g.Accepts settings ids w (j + 1) t

end Game

/-! ### Snapshots of an iteration -/

namespace Iteration

variable {it : Iteration} {w : ValueTable} {id : NodeId} {k done budget : Nat}

theorem swept_eq (it : Iteration) (k : Nat) (w : ValueTable) :
    it.swept k w = it.game.sweeps it.ids k w := by
  induction k generalizing w with
  | zero => rfl
  | succ k ih => exact ih _

theorem value_snapOne_of_sink (h : it.game.IsSink id) (w : ValueTable) (i : NodeId) :
    (it.snapOne w i).value id = w.value id := by
  unfold snapOne
  split
  · rfl
  · rename_i hi
    exact value_set_of_ne w _ fun he => hi (he ▸ Game.any_isSink_iff.2 h)

theorem value_snapOne_self (h : ¬ it.game.IsSink id) (hlt : id < w.size) :
    (it.snapOne w id).value id = it.approximant.nearest (w.value id) it.bound.value := by
  rw [snapOne, if_neg fun hs => h (Game.any_isSink_iff.1 hs), value_set w id id _ hlt, if_pos rfl]

/-- A snapshot does not touch sinks. -/
theorem value_snap_of_sink (h : it.game.IsSink id) (w : ValueTable) :
    (it.snap w).value id = w.value id := by
  have hfold : ∀ (ids : List NodeId) (t : ValueTable),
      (ids.foldl it.snapOne t).value id = t.value id := by
    intro ids
    induction ids with
    | nil => exact fun _ => rfl
    | cons i ids ih => exact fun t => (ih _).trans (value_snapOne_of_sink h t i)
  exact hfold it.ids w

/-- A snapshot takes the value of a listed node to its nearest fraction. -/
theorem value_snap
    (hwalk : ∀ x, it.approximant.nearest x it.bound.value = nearestByWalk x it.bound.value)
    (hlt : id < w.size) (hsink : ¬ it.game.IsSink id) (hid : id ∈ it.ids) :
    (it.snap w).value id = nearestByWalk (w.value id) it.bound.value := by
  -- until its turn a value is the old one, and from then on its nearest fraction
  let P : ValueTable → Prop := fun t => t.size = w.size ∧
    (t.value id = w.value id ∨ t.value id = nearestByWalk (w.value id) it.bound.value)
  have hwrite : ∀ t, P t →
      (it.snapOne t id).value id = nearestByWalk (w.value id) it.bound.value := by
    intro t ht
    rw [value_snapOne_self hsink (ht.1 ▸ hlt), hwalk]
    cases ht.2 with
    | inl hold => rw [hold]
    | inr hnew => rw [hnew, nearestByWalk_idem]
  have hkeep : ∀ t i, P t → P (it.snapOne t i) := by
    intro t i ht
    have hframe : Frame [i] t (it.snapOne t i) := frame_snapOne List.mem_cons_self t
    refine ⟨hframe.size_eq.trans ht.1, ?_⟩
    by_cases he : id = i
    · exact Or.inr (he ▸ hwrite t ht)
    · rw [hframe.value_eq id (by simpa using he)]
      exact ht.2
  refine foldl_written (P := P)
    (Q := fun j x => j = id → x = nearestByWalk (w.value id) it.bound.value) (fun t => t)
    (fun t i => frame_snapOne List.mem_cons_self t) (fun t i _ => hkeep t i) ?_ it.ids
    (fun _ h => h) w ⟨rfl, Or.inl rfl⟩ id hid rfl
  intro t i _ ht hi
  rw [hi]
  exact hwrite t ht

theorem isSnapshot_snap
    (hwalk : ∀ x, it.approximant.nearest x it.bound.value = nearestByWalk x it.bound.value)
    (hinside : ∀ id ∈ it.ids, id < w.size) :
    it.game.IsSnapshot it.ids it.bound.value w (it.snap w) where
  size_eq := (it.frame_snap w).size_eq
  best id hid hsink := by
    obtain ⟨f, hf, hbest⟩ := exists_isBest (w.value id) it.bound.value
    exact ⟨f, hbest, (value_snap hwalk (hinside id hid) hsink hid).trans hf⟩
  value_eq id hid := by
    cases hid with
    | inl hout => exact (it.frame_snap w).value_eq id hout
    | inr hsink => exact value_snap_of_sink hsink w

theorem isDue_iff (it : Iteration) (n : Nat) :
    it.isDue n = true ↔ 0 < it.interval ∧ it.interval ∣ n := by
  rw [isDue, Bool.and_eq_true, decide_eq_true_eq, decide_eq_true_eq, Nat.dvd_iff_mod_eq_zero]

/-! ### The course of an iteration -/

/-- However it ends, an iteration changes listed entries only. -/
theorem frame_run (it : Iteration) (budget done : Nat) (w : ValueTable) :
    Frame it.ids w (it.run budget done w).2 := by
  induction budget generalizing done w with
  | zero => exact Frame.refl it.ids w
  | succ budget ih =>
    have hsweep := it.game.frame_sweep it.ids w
    rw [run_succ]
    split_ifs
    · exact hsweep
    · refine hsweep.trans (Frame.foldl id (fun t _ h => frame_snapOne h t) _ ?_ _)
      exact (List.takeWhile_sublist _).subset
    · exact hsweep.trans (it.frame_snap _)
    · exact hsweep.trans (ih _ _)
    · exact hsweep
    · exact (it.game.frame_sweep _ w).mono (List.takeWhile_sublist _).subset

/-- An iteration that would leave the table fails. -/
theorem exists_failure_of_run (h : ¬ ∀ id ∈ it.ids, it.game.canUpdate w.size id = true) :
    ∃ failure, (it.run budget done w).1 = .error failure := by
  cases budget with
  | zero => exact ⟨_, rfl⟩
  | succ budget =>
    rw [← List.all_eq_true] at h
    rw [run_succ, if_neg h]
    exact ⟨_, rfl⟩

/-- Nothing but time can stop the iteration on tables of a size. -/
structure Unhindered (it : Iteration) (size : Nat) : Prop where
  /-- Listed ids lie inside the table. -/
  inside : ∀ id ∈ it.ids, id < size
  /-- So does what their operators read. -/
  canUpdate : ∀ id ∈ it.ids, it.game.canUpdate size id = true
  /-- Snapshots stay within 64 bits. -/
  canSnap : ∀ w, ∀ id ∈ it.ids, it.canSnap w id = true

/-- After a number of sweeps a snapshot is due, and it is right. -/
structure Keeps (it : Iteration) (w : ValueTable) (n : Nat) : Prop where
  /-- A snapshot follows the sweep. -/
  due : it.isDue n = true
  /-- Every listed node has its value in it. -/
  fixedAt : ∀ id ∈ it.ids, it.game.FixedAt (it.snap (it.swept n w)).value id

/-- The sweep after a number of others is not the last one. -/
structure GoesOn (it : Iteration) (w : ValueTable) (j : Nat) : Prop where
  /-- It changes a value. -/
  changed : (it.game.sweep it.ids (it.swept j w)).1 = true
  /-- No snapshot that follows it is right. -/
  refused : ¬ it.Keeps w (j + 1)

/-- What an iteration without faults gives: it ends with the first sweep that does not go
on, or when its budget is spent. -/
inductive Course (it : Iteration) (w : ValueTable) (budget : Nat) :
    Except IterationFailure Outcome × ValueTable → Prop where
  /-- A sweep changed nothing. -/
  | converged (k : Nat) (before : ∀ j < k, it.GoesOn w j) (refused : ¬ it.Keeps w (k + 1))
    (same : (it.game.sweep it.ids (it.swept k w)).1 = false) :
    Course it w budget (.ok ⟨.converged, k + 1, none⟩, it.swept (k + 1) w)
  /-- A snapshot is kept. -/
  | kept (k : Nat) (before : ∀ j < k, it.GoesOn w j) (keeps : it.Keeps w (k + 1)) :
    Course it w budget (.ok (it.accepted (k + 1)), it.snap (it.swept (k + 1) w))
  /-- The budget is spent. -/
  | timeout (before : ∀ j < budget, it.GoesOn w j) :
    Course it w budget (.error (.timeout it.ids.length), it.swept budget w)

/-- A round without faults. -/
theorem Unhindered.run_succ_eq (h : it.Unhindered w.size) (budget done : Nat) :
    it.run (budget + 1) done w =
      if it.isDue (done + 1) && it.game.isFixed it.ids (it.snap (it.game.sweep it.ids w).2) then
        (.ok (it.accepted (done + 1)), it.snap (it.game.sweep it.ids w).2)
      else if (it.game.sweep it.ids w).1 then
        it.run budget (done + 1) (it.game.sweep it.ids w).2
      else (.ok ⟨.converged, done + 1, none⟩, (it.game.sweep it.ids w).2) := by
  have hupdate : it.ids.all (it.game.canUpdate w.size) = true :=
    List.all_eq_true.2 h.canUpdate
  have hinside : it.ids.any (w.size ≤ ·) = false := by
    rw [List.any_eq_false]
    intro id hid
    simpa using h.inside id hid
  have hsnap : it.ids.all (it.canSnap (it.game.sweep it.ids w).2) = true :=
    List.all_eq_true.2 (h.canSnap _)
  simp only [run_succ, hupdate, hinside, hsnap, if_true, Bool.and_false, Bool.not_true,
    Bool.false_eq_true, if_false]

theorem keeps_iff (it : Iteration) (w : ValueTable) (n : Nat) :
    it.Keeps w n ↔
      (it.isDue n && it.game.isFixed it.ids (it.snap (it.swept n w))) = true := by
  rw [Bool.and_eq_true, Game.isFixed_iff]
  exact ⟨fun h => ⟨h.due, h.fixedAt⟩, fun h => ⟨h.1, h.2⟩⟩

/-- The rounds after some that went on. The tables are those of plain sweeps all the way. -/
theorem Unhindered.course_of_goesOn (h : it.Unhindered w.size) (budget done : Nat)
    (before : ∀ j < done, it.GoesOn w j) :
    it.Course w (done + budget) (it.run budget done (it.swept done w)) := by
  induction budget generalizing done with
  | zero => exact .timeout before
  | succ budget ih =>
    have hdone : it.Unhindered (it.swept done w).size := by rwa [(it.frame_swept done w).size_eq]
    rw [hdone.run_succ_eq, ← swept_succ]
    split_ifs with hkeeps hchanged
    · exact .kept done before ((it.keeps_iff w _).2 hkeeps)
    · rw [Nat.add_comm budget 1, ← Nat.add_assoc]
      refine ih (done + 1) ?_
      intro j hj
      cases Nat.lt_succ_iff_lt_or_eq.1 hj with
      | inl hlt => exact before j hlt
      | inr heq => exact heq ▸ ⟨hchanged, fun hk => hkeeps ((it.keeps_iff w _).1 hk)⟩
    · exact .converged done before (fun hk => hkeeps ((it.keeps_iff w _).1 hk))
        (Bool.eq_false_iff.2 hchanged)

theorem Unhindered.course (h : it.Unhindered w.size) (budget : Nat) :
    it.Course w budget (it.run budget 0 w) := by
  have hcourse := h.course_of_goesOn budget 0 fun j hj => absurd hj j.not_lt_zero
  rwa [Nat.zero_add] at hcourse

/-- A run whose budget ends with some sweep has ended well, or that sweep goes on. -/
theorem Unhindered.run_or (h : it.Unhindered w.size) (k : Nat) :
    (∃ o w', it.run (k + 1) 0 w = (.ok o, w')) ∨ it.GoesOn w k := by
  generalize hrun : it.run (k + 1) 0 w = r
  cases hrun ▸ h.course (k + 1) with
  | converged => exact Or.inl ⟨_, _, rfl⟩
  | kept => exact Or.inl ⟨_, _, rfl⟩
  | timeout before => exact Or.inr (before k k.lt_succ_self)

end Iteration

/-! ### Solving listed nodes -/

namespace Game

variable {g : Game} {settings search : SolverSettings} {pace : Nat} {ids : List NodeId}
  {w w' : ValueTable} {result : Except IterationFailure Outcome}

/-- Listed nodes inside a table can be updated if their successors lie inside. -/
theorem canUpdate_of_successors {size : Nat} {id : NodeId} (hid : id < size)
    (hreads : ∀ s ∈ g.successors id, s < size) : g.canUpdate size id = true := by
  cases hn : g.node? id with
  | none => rw [canUpdate, hn, Option.all_none]
  | some n =>
    rw [successors_of_node? hn] at hreads
    have hall : n.successors.all (· < size) = true :=
      List.all_eq_true.2 fun s hs => decide_eq_true (hreads s hs)
    rw [canUpdate, hn, Option.all_some, Node.readsWithin, hall, decide_eq_true hid, Bool.or_true,
      Bool.or_true, Bool.and_self]

theorem unhindered_iteration {size : Nat} (approximant : Approximant)
    (hinside : ∀ id ∈ ids, id < size) (hupdate : ∀ id ∈ ids, g.canUpdate size id = true)
    (hbound : (g.denominatorBound ids settings.denominatorCap.toNat).value ≤ 2 ^ 63) :
    (g.iteration settings approximant ids).Unhindered size where
  inside := hinside
  canUpdate := hupdate
  canSnap w id _ := by
    rw [Iteration.canSnap, Bool.or_eq_true]
    exact Or.inr (Approximant.canAnswer_of_le _ _ hbound)

section

variable (search) (hinside : ∀ id ∈ ids, id < w.size)

include hinside

/-- The iteration keeps the snapshots that are right. -/
theorem accepts_iff_keeps {n : Nat} {t : ValueTable} :
    g.Accepts settings ids w n t ↔
      (g.iteration settings search.buildApproximant ids).Keeps w n ∧
        t = (g.iteration settings search.buildApproximant ids).snap (g.sweeps ids n w) := by
  let it := g.iteration settings search.buildApproximant ids
  have hswept : it.swept n w = g.sweeps ids n w := it.swept_eq n w
  have hsnap : g.IsSnapshot ids it.bound.value (g.sweeps ids n w) (it.snap (g.sweeps ids n w)) := by
    refine it.isSnapshot_snap (fun x => search.nearest_eq_walk x _) ?_
    intro id hid
    rw [← hswept, (it.frame_swept n w).size_eq]
    exact hinside id hid
  constructor
  · intro h
    obtain rfl := hsnap.unique h.snapshot
    refine ⟨⟨(it.isDue_iff n).2 ⟨h.interval_pos, h.dvd⟩, ?_⟩, rfl⟩
    intro id hid
    rw [hswept]
    exact fixedAt_iff.2 (h.fixed id hid)
  · intro ⟨hkeeps, ht⟩
    obtain ⟨hpos, hdvd⟩ := (it.isDue_iff n).1 hkeeps.due
    refine ⟨hpos, hdvd, ht ▸ hsnap, ?_⟩
    intro id hid
    rw [ht, ← hswept]
    exact fixedAt_iff.1 (hkeeps.fixedAt id hid)

theorem not_accepts {n : Nat}
    (h : ¬ (g.iteration settings search.buildApproximant ids).Keeps w n) (t : ValueTable) :
    ¬ g.Accepts settings ids w n t :=
  fun ht => h ((accepts_iff_keeps search hinside).1 ht).1

theorem continues_of_goesOn {j : Nat}
    (h : (g.iteration settings search.buildApproximant ids).GoesOn w j) :
    g.Continues settings ids w j where
  changed := by
    have hchanged := h.changed
    rwa [Iteration.swept_eq] at hchanged
  refused := not_accepts search hinside h.refused

end

/-- **Snapshots do not show until one is kept.** Let listed nodes inside a table be solved
under a cap of at most 2 ^ 63, with any search. Whatever the result, only their entries
change. If the iteration converges, the table is the one after that many plain sweeps, of
which the last is the first to report no change. If it keeps a snapshot, that follows a
multiple of the interval of plain sweeps that all went on before, and it is right: each
listed value is replaced by its best fraction, those of sinks apart, and every listed
operator that gives a value agrees with it. The iteration fails only if a listed node has
a successor outside the table, or if all sweeps that the time allows went on. -/
theorem solveNodes_hides_refused_snapshots (hinside : ∀ id ∈ ids, id < w.size)
    (hcap : settings.denominatorCap.toNat ≤ 2 ^ 63)
    (h : g.solveNodes settings search.buildApproximant pace ids w = (result, w')) :
    w'.size = w.size ∧ (∀ id, id ∉ ids → w'.value id = w.value id) ∧
      (∀ o, result = .ok o → ∃ k, o.sweeps = k + 1 ∧
        (∀ j < k, g.Continues settings ids w j) ∧
        match o.termination with
        | .converged => w' = g.sweeps ids (k + 1) w ∧
          (g.sweep ids (g.sweeps ids k w)).1 = false ∧ ∀ t, ¬ g.Accepts settings ids w (k + 1) t
        | .exactFixedPoint => g.Accepts settings ids w (k + 1) w') ∧
      ∀ failure, result = .error failure →
        (∃ id ∈ ids, ∃ s ∈ g.successors id, w.size ≤ s) ∨
          failure = .timeout ids.length ∧
            ∀ j < settings.sweepBudget pace, g.Continues settings ids w j := by
  let it := g.iteration settings search.buildApproximant ids
  have hrun : it.run (settings.sweepBudget pace) 0 w = (result, w') := h
  have hframe : Frame ids w w' := by
    have hframe := it.frame_run (settings.sweepBudget pace) 0 w
    rwa [hrun] at hframe
  refine ⟨hframe.size_eq, hframe.value_eq, ?_⟩
  by_cases hupdate : ∀ id ∈ ids, g.canUpdate w.size id = true
  · have hbound : it.bound.value ≤ 2 ^ 63 :=
      (g.denominatorBound_value_le ids _).trans (max_le hcap (by decide))
    have hfree : it.Unhindered w.size := unhindered_iteration _ hinside hupdate hbound
    have hcourse := hrun ▸ hfree.course (settings.sweepBudget pace)
    cases hcourse with
    | converged k before refused same =>
      refine ⟨?_, fun _ hfailure => nomatch hfailure⟩
      intro o ho
      obtain rfl := Except.ok.inj ho
      rw [it.swept_eq] at same
      exact ⟨k, rfl, fun j hj => continues_of_goesOn search hinside (before j hj),
        it.swept_eq (k + 1) w, same, not_accepts search hinside refused⟩
    | kept k before keeps =>
      refine ⟨?_, fun _ hfailure => nomatch hfailure⟩
      intro o ho
      obtain rfl := Except.ok.inj ho
      refine ⟨k, rfl, fun j hj => continues_of_goesOn search hinside (before j hj), ?_⟩
      exact (accepts_iff_keeps search hinside).2 ⟨keeps, by rw [it.swept_eq]; rfl⟩
    | timeout before =>
      refine ⟨fun _ ho => (nomatch ho), ?_⟩
      intro failure hfailure
      exact Or.inr ⟨(Except.error.inj hfailure).symm,
        fun j hj => continues_of_goesOn search hinside (before j hj)⟩
  · obtain ⟨failure, hfailure⟩ := it.exists_failure_of_run hupdate
    rw [hrun] at hfailure
    refine ⟨fun o ho => (nomatch ho.symm.trans hfailure), fun _ _ => Or.inl ?_⟩
    by_contra hreads
    push Not at hreads
    exact hupdate fun id hid => canUpdate_of_successors (hinside id hid) (hreads id hid)

/-- `coinLoop` with the grave of a removed node. -/
def coinGrave : Game := List.foldl perform coinLoop [.addNode .max, .removeNode 4]

/-- A table for `coinGrave`. -/
def coinGraveTable : ValueTable := ⟨#[0, 1, 0, 0, 7]⟩

/-- The minimizer is listed twice and the grave once. The snapshots after two and four
sweeps are refused and the one after six is kept. It takes the entry of the grave to 1. -/
theorem coinGrave_hides_refused_snapshots :
    coinGrave.solveNodes { checkInterval := 2 } (SolverSettings.buildApproximant {}) 1 [3, 4, 2, 3]
        coinGraveTable = (.ok ⟨.exactFixedPoint, 6, none⟩, ⟨#[0, 1, 1 / 2, 1 / 2, 1]⟩) ∧
      (∀ j < 5, coinGrave.Continues { checkInterval := 2 } [3, 4, 2, 3] coinGraveTable j) ∧
      coinGrave.Accepts { checkInterval := 2 } [3, 4, 2, 3] coinGraveTable 6
        ⟨#[0, 1, 1 / 2, 1 / 2, 1]⟩ := by
  have hrun : coinGrave.solveNodes { checkInterval := 2 } (SolverSettings.buildApproximant {}) 1
      [3, 4, 2, 3] coinGraveTable =
        (.ok ⟨.exactFixedPoint, 6, none⟩, ⟨#[0, 1, 1 / 2, 1 / 2, 1]⟩) := by decide +kernel
  obtain ⟨-, -, hends, -⟩ :=
    solveNodes_hides_refused_snapshots (by decide) (by decide) hrun
  obtain ⟨k, hk, hbefore, hkept⟩ := hends _ rfl
  obtain rfl : 5 = k := Nat.succ.inj hk
  exact ⟨hrun, hbefore, hkept⟩

end Game

end StochasticGame
