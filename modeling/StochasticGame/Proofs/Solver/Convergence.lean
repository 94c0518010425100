import Mathlib.Algebra.Order.Archimedean.Basic
import Mathlib.Data.Finset.Order
import StochasticGame.Proofs.Solver.Stopping

/-!
# StochasticGame.Proofs.Solver.Convergence

**Sweeps of a stopping game converge.** Along an exit order the nodes of a stopping game
get sizes such that every operator turns errors of at most these sizes into an error
that is smaller than its own node's by a fixed factor (`Game.Damping`).

A sweep works in place, so a node sees old errors and new ones. New ones are no larger,
which is all that the argument needs. After a sweep the errors of all listed nodes are
smaller by the factor, whatever the table started with.
-/

namespace StochasticGame

/-! ### How an operator passes on errors -/

namespace Node

/-- Errors of size `u` at the successors become an error of at most `m`. -/
def Dampens (n : Node) (u : NodeId → Rat) (m : Rat) : Prop :=
  match n.label with
  | .sink => True
  | .max | .min => ∀ s ∈ n.successors, u s ≤ m
  | .average => n.weightedSum u ≤ m

variable {n : Node} {f h u u' : NodeId → Rat} {c m m' x y : Rat} {ids : List NodeId}

theorem Dampens.mono (hn : n.label = .average → ∀ e ∈ n.succs.entries, 0 ≤ e.2)
    (hd : n.Dampens u m) (hu : ∀ s, u' s ≤ u s) (hm : m ≤ m') : n.Dampens u' m' := by
  unfold Dampens at hd ⊢
  cases hl : n.label with
  | sink => trivial
  | max | min =>
    rw [hl] at hd
    exact fun s hs => (hu s).trans ((hd s hs).trans hm)
  | average =>
    rw [hl] at hd
    exact (weightedSum_mono (hn hl) fun s _ => hu s).trans (hd.trans hm)

theorem weightedSum_add_mul (n : Node) (h u : NodeId → Rat) (c : Rat) :
    n.weightedSum (fun s => h s + c * u s) = n.weightedSum h + c * n.weightedSum u := by
  unfold weightedSum
  induction n.succs.entries with
  | nil => simp
  | cons e es ih =>
    simp only [List.map_cons, List.sum_cons, ih]
    ring

/-- A valuation that exceeds another one by at most `c` times the sizes gives a value
that exceeds the other by at most `c` times the dampened size. -/
theorem Yields.le_add_of_dampens (hn : n.label = .average → ∀ e ∈ n.succs.entries, 0 ≤ e.2)
    (hd : n.Dampens u m) (hm : 0 ≤ m) (hc : 0 ≤ c)
    (hle : ∀ s ∈ n.successors, f s ≤ h s + c * u s) (hx : n.Yields f x) (hy : n.Yields h y) :
    x ≤ y + c * m := by
  have hstep : ∀ s ∈ n.successors, u s ≤ m → f s ≤ h s + c * m := fun s hs hus =>
    (hle s hs).trans (by linarith [mul_le_mul_of_nonneg_left hus hc])
  unfold Dampens at hd
  unfold Yields at hx hy
  cases hl : n.label with
  | sink =>
    rw [hl] at hx hy
    have hxy := Option.some_inj.1 (hx.symm.trans hy)
    linarith [mul_nonneg hc hm]
  | max =>
    rw [hl] at hd hx hy
    obtain ⟨⟨s, hs, rfl⟩, -⟩ := hx
    exact (hstep s hs (hd s hs)).trans (by linarith [hy.2 s hs])
  | min =>
    rw [hl] at hd hx hy
    obtain ⟨⟨s, hs, rfl⟩, -⟩ := hy
    exact (hx.2 s hs).trans (hstep s hs (hd s hs))
  | average =>
    rw [hl] at hd hx hy
    have hsum := weightedSum_mono (hn hl) hle
    rw [weightedSum_add_mul, hx, hy] at hsum
    exact hsum.trans (by linarith [mul_le_mul_of_nonneg_left hd hc])

/-- The same for errors to either side. -/
theorem Yields.abs_sub_le_of_dampens (hn : n.label = .average → ∀ e ∈ n.succs.entries, 0 ≤ e.2)
    (hd : n.Dampens u m) (hm : 0 ≤ m) (hc : 0 ≤ c)
    (hle : ∀ s ∈ n.successors, |f s - h s| ≤ c * u s) (hx : n.Yields f x) (hy : n.Yields h y) :
    |x - y| ≤ c * m := by
  have hup := hx.le_add_of_dampens hn hd hm hc
    (fun s hs => by linarith [(abs_sub_le_iff.1 (hle s hs)).1]) hy
  have hdown := hy.le_add_of_dampens hn hd hm hc
    (fun s hs => by linarith [(abs_sub_le_iff.1 (hle s hs)).2]) hx
  exact abs_sub_le_iff.2 ⟨by linarith, by linarith⟩

theorem exists_le_of_forall_lt_one {l : List NodeId} (h : ∀ s ∈ l, u s < 1) :
    ∃ a, 0 ≤ a ∧ a < 1 ∧ ∀ s ∈ l, u s ≤ a := by
  induction l with
  | nil => exact ⟨0, le_rfl, zero_lt_one, by simp⟩
  | cons s l ih =>
    obtain ⟨a, ha, ha', hall⟩ := ih fun t ht => h t (List.mem_cons_of_mem s ht)
    refine ⟨max a (u s), le_max_of_le_left ha, max_lt ha' (h s List.mem_cons_self), ?_⟩
    intro t ht
    rcases List.mem_cons.1 ht with rfl | ht
    · exact le_max_right a (u t)
    · exact (hall t ht).trans (le_max_left a (u s))

/-- Where play leads to smaller sizes, errors become smaller. -/
theorem exists_dampens (hn : n.Playable) (hlead : n.leadsInto ids = true) (hpos : ∀ s, 0 < u s)
    (hle : ∀ s, u s ≤ 1) (hlt : ∀ s ∈ ids, u s < 1) : ∃ a, 0 ≤ a ∧ a < 1 ∧ n.Dampens u a := by
  unfold leadsInto at hlead
  unfold Dampens
  cases hl : n.label with
  | sink => exact ⟨0, le_rfl, zero_lt_one, trivial⟩
  | max | min =>
    rw [hl] at hlead
    exact exists_le_of_forall_lt_one fun s hs =>
      hlt s (of_decide_eq_true (List.all_eq_true.1 hlead s hs))
  | average =>
    rw [hl] at hlead
    obtain ⟨e, he, hcount⟩ := List.any_eq_true.1 hlead
    rw [Bool.and_eq_true, decide_eq_true_eq, decide_eq_true_eq] at hcount
    have hw := hn.nonneg hl
    refine ⟨n.weightedSum u, ?_, ?_, le_rfl⟩
    · exact weightedSum_nonneg hw fun s _ => (hpos s).le
    · rw [← hn.sum_eq hl]
      refine List.sum_lt_sum _ _ (fun e he => mul_le_of_le_one_right (hw e he) (hle e.1))
        ⟨e, he, ?_⟩
      exact mul_lt_of_lt_one_right (lt_of_le_of_ne (hw e he) hcount.1.symm) (hlt e.1 hcount.2)

end Node

/-! ### Sizes for all nodes -/

namespace Game

variable {g : Game} {u v : NodeId → Rat} {ρ : Rat} {ids : List NodeId} {id : NodeId}

/-- Sizes of errors that every operator reduces by a factor. -/
structure Damping (g : Game) (u : NodeId → Rat) (ρ : Rat) : Prop where
  /-- Sizes are positive. -/
  pos : ∀ id, 0 < u id
  /-- Sizes are at most 1. -/
  le_one : ∀ id, u id ≤ 1
  /-- The factor is not negative. -/
  nonneg : 0 ≤ ρ
  /-- The factor is less than 1. -/
  lt_one : ρ < 1
  /-- Errors of the given sizes become smaller by the factor. -/
  dampens : ∀ id n, g.node? id = some n → n.Dampens u (ρ * u id)

/-- Sizes as far as the nodes of a list are concerned; all others have size 1. -/
structure SizesAlong (g : Game) (ids : List NodeId) (u : NodeId → Rat) (ρ : Rat) : Prop where
  /-- Sizes are positive. -/
  pos : ∀ id, 0 < u id
  /-- Listed nodes have sizes below 1. -/
  lt_one_of_mem : ∀ id ∈ ids, u id < 1
  /-- The others have size 1. -/
  eq_one : ∀ id, id ∉ ids → u id = 1
  /-- The factor is not negative. -/
  nonneg : 0 ≤ ρ
  /-- The factor is less than 1. -/
  lt_one : ρ < 1
  /-- Listed nodes reduce errors by the factor. -/
  dampens : ∀ id ∈ ids, ∀ n, g.node? id = some n → n.Dampens u (ρ * u id)

namespace SizesAlong

theorem le_one (h : g.SizesAlong ids u ρ) (id : NodeId) : u id ≤ 1 := by
  by_cases hid : id ∈ ids
  · exact (h.lt_one_of_mem id hid).le
  · exact (h.eq_one id hid).le

theorem cons_of_mem (h : g.SizesAlong ids u ρ) (hid : id ∈ ids) : g.SizesAlong (id :: ids) u ρ := by
  have hsame : ∀ j, j ∈ id :: ids → j ∈ ids := by
    intro j hj
    rcases List.mem_cons.1 hj with rfl | hj
    · exact hid
    · exact hj
  exact ⟨h.pos, fun j hj => h.lt_one_of_mem j (hsame j hj),
    fun j hj => h.eq_one j fun hin => hj (List.mem_cons_of_mem id hin), h.nonneg, h.lt_one,
    fun j hj => h.dampens j (hsame j hj)⟩

/-- A node from which play leads to listed ones gets a size. -/
theorem exists_cons (h : g.SizesAlong ids u ρ)
    (hplay : ∀ id n, g.node? id = some n → n.Playable) {n : Node} (hn : g.node? id = some n)
    (hlead : n.leadsInto ids = true) (hid : id ∉ ids) :
    ∃ u' ρ', g.SizesAlong (id :: ids) u' ρ' := by
  -- the new size lies halfway between what reaches the node and 1
  obtain ⟨a, ha, ha', hda⟩ :=
    Node.exists_dampens (hplay id n hn) hlead h.pos h.le_one h.lt_one_of_mem
  obtain ⟨b, hab, hb, hb'⟩ : ∃ b, a < b ∧ 0 < b ∧ b < 1 :=
    ⟨(a + 1) / 2, by linarith, by linarith, by linarith⟩
  have hdown : ∀ s, Function.update u id b s ≤ u s := by
    intro s
    by_cases hs : s = id
    · rw [hs, Function.update_self, h.eq_one id hid]
      exact hb'.le
    · rw [Function.update_of_ne hs]
  refine ⟨Function.update u id b, max ρ (a / b), ?_, ?_, ?_, le_max_of_le_left h.nonneg,
    max_lt h.lt_one ((div_lt_one hb).2 hab), ?_⟩
  · intro s
    by_cases hs : s = id
    · rwa [hs, Function.update_self]
    · rw [Function.update_of_ne hs]
      exact h.pos s
  · intro s hs
    by_cases hsi : s = id
    · rwa [hsi, Function.update_self]
    · rw [Function.update_of_ne hsi]
      exact h.lt_one_of_mem s ((List.mem_cons.1 hs).resolve_left hsi)
  · intro s hs
    rw [List.mem_cons, not_or] at hs
    rw [Function.update_of_ne hs.1]
    exact h.eq_one s hs.2
  · intro s hs m hm
    have hw := (hplay s m hm).nonneg
    by_cases hsi : s = id
    · subst hsi
      obtain rfl := Option.some_inj.1 (hn.symm.trans hm)
      refine hda.mono hw hdown ?_
      rw [Function.update_self]
      exact (div_mul_cancel₀ a hb.ne').ge.trans
        (mul_le_mul_of_nonneg_right (le_max_right ρ _) hb.le)
    · refine (h.dampens s ((List.mem_cons.1 hs).resolve_left hsi) m hm).mono hw hdown ?_
      rw [Function.update_of_ne hsi]
      exact mul_le_mul_of_nonneg_right (le_max_left ρ _) (h.pos s).le

end SizesAlong

/-- The nodes of an exit order get sizes from its end on. -/
theorem exists_sizesAlong_of_isExitOrder (hplay : ∀ id n, g.node? id = some n → n.Playable)
    (h : g.isExitOrder ids = true) : ∃ u ρ, g.SizesAlong ids u ρ := by
  induction ids with
  | nil =>
    exact ⟨fun _ => 1, 0, fun _ => zero_lt_one, by simp, fun _ _ => rfl, le_rfl, zero_lt_one,
      by simp⟩
  | cons i ids ih =>
    obtain ⟨⟨n, hn, hlead⟩, hrest⟩ := isExitOrder_cons.1 h
    obtain ⟨u, ρ, hsizes⟩ := ih hrest
    by_cases hi : i ∈ ids
    · exact ⟨u, ρ, hsizes.cons_of_mem hi⟩
    · exact hsizes.exists_cons hplay hn hlead hi

theorem Stopping.exists_damping (hs : g.Stopping) (hg : g.Linked) : ∃ u ρ, g.Damping u ρ := by
  obtain ⟨ids, hexit, hall⟩ := hg.exists_isExitOrder hs.no_trap
  obtain ⟨u, ρ, h⟩ := exists_sizesAlong_of_isExitOrder hs.playable hexit
  exact ⟨u, ρ, h.pos, h.le_one, h.nonneg, h.lt_one,
    fun id n hn => h.dampens id (hall id (contains_iff.2 ⟨n, hn⟩)) n hn⟩

/-! ### Sweeps -/

/-- A table of the game that is right about the live nodes which are not listed. -/
structure ExactOutside (g : Game) (v : NodeId → Rat) (ids : List NodeId) (w : ValueTable) :
    Prop where
  /-- The table has an entry for every slot. -/
  size_eq : w.size = g.capacity
  /-- Live nodes that are not listed have their values. -/
  value_eq : ∀ id, g.contains id = true → id ∉ ids → w.value id = v id

theorem ExactOutside.of_frame {w w' : ValueTable} (h : g.ExactOutside v ids w)
    (hf : ValueTable.Frame ids w w') : g.ExactOutside v ids w' where
  size_eq := hf.size_eq.trans h.size_eq
  value_eq id hid hout := (hf.value_eq id hout).trans (h.value_eq id hid hout)

/-- The errors are at most `c` times the sizes, and listed nodes only have errors. -/
structure Near (g : Game) (v u : NodeId → Rat) (ids : List NodeId) (c : Rat) (w : ValueTable) :
    Prop extends g.ExactOutside v ids w where
  /-- The errors are small. -/
  error : ∀ id, g.contains id = true → |w.value id - v id| ≤ c * u id

/-- Every table has errors of some size. -/
theorem Damping.exists_near (hd : g.Damping u ρ) {w : ValueTable} (hw : g.ExactOutside v ids w) :
    ∃ c, 0 ≤ c ∧ g.Near v u ids c w := by
  obtain ⟨c, hc⟩ := (g.nodeIds.toFinset.image fun id => |w.value id - v id| / u id).exists_le
  refine ⟨max c 0, le_max_right c 0, hw, ?_⟩
  intro id hid
  have hmem : id ∈ g.nodeIds.toFinset :=
    List.mem_toFinset.2 (mem_nodeIds.2 (contains_iff.1 hid))
  have hle := hc _ (Finset.mem_image_of_mem _ hmem)
  rw [div_le_iff₀ (hd.pos id)] at hle
  exact hle.trans (mul_le_mul_of_nonneg_right (le_max_left c 0) (hd.pos id).le)

/-- An update leaves the value that the operator gives. -/
theorem value_update {s : Bool × ValueTable} {x : Rat} (hid : id < s.2.size)
    (hx : g.step? s.2 id = some x) : (g.update s id).2.value id = x := by
  rcases g.update_cases s id with ⟨hfix, he⟩ | ⟨y, hy, he⟩
  · rw [he]
    exact fixedAt_iff.1 hfix x hx
  · rw [he, ValueTable.value_set s.2 id id y hid, if_pos rfl]
    exact Option.some_inj.1 (hy.symm.trans hx)

/-- A sweep over nodes that have their values does nothing. -/
theorem sweep_of_fixedAt {w : ValueTable} (h : ∀ id ∈ ids, g.FixedAt w.value id) :
    g.sweep ids w = (false, w) := by
  unfold sweep
  induction ids with
  | nil => rfl
  | cons i ids ih =>
    have hi : g.update (false, w) i = (false, w) := by
      rw [update]
      cases hx : g.step? w i with
      | none => rfl
      | some x =>
        exact if_pos (fixedAt_iff.1 (h i List.mem_cons_self) x hx).symm
    rw [List.foldl_cons, hi]
    exact ih fun id hid => h id (List.mem_cons_of_mem i hid)

/-- The operator of a live node of a stopping game gives a value. -/
theorem Stopping.exists_step? (hs : g.Stopping) (hv : g.Solves v) (hid : g.contains id = true)
    (w : ValueTable) : ∃ x, g.step? w id = some x := by
  obtain ⟨n, hn⟩ := contains_iff.1 hid
  obtain ⟨x, hx⟩ := (hv.yields hn (hs.not_idle id)).exists w.value
  exact ⟨x, step?_eq_some_iff.2 ⟨n, hn, hx⟩⟩

namespace Near

variable {w : ValueTable} {s : Bool × ValueTable} {c : Rat}
variable (hs : g.Stopping) (hg : g.Linked) (hv : g.Solves v) (hd : g.Damping u ρ) (hc : 0 ≤ c)

include hs hg hv hd hc

/-- What the operator of a node writes is closer by the factor. -/
theorem step (hw : g.Near v u ids c w) {x : Rat} (hx : g.step? w id = some x) :
    |x - v id| ≤ ρ * c * u id := by
  obtain ⟨n, hn, hx⟩ := step?_eq_some_iff.1 hx
  have hle := hx.abs_sub_le_of_dampens (hs.playable id n hn).nonneg (hd.dampens id n hn)
    (mul_nonneg hd.nonneg (hd.pos id).le) hc
    (fun s hs => hw.error s (hg.contains_successor hn hs)) (hv.yields hn (hs.not_idle id))
  calc |x - v id| ≤ c * (ρ * u id) := hle
    _ = ρ * c * u id := by ring

/-- An update makes no error larger, and that of its own node smaller by the factor. -/
theorem update (hw : g.Near v u ids c s.2) (hid : id ∈ ids) (hlive : g.contains id = true) :
    g.Near v u ids c (g.update s id).2 ∧
      |(g.update s id).2.value id - v id| ≤ ρ * c * u id := by
  obtain ⟨x, hx⟩ := hs.exists_step? hv hlive s.2
  have hnew : |(g.update s id).2.value id - v id| ≤ ρ * c * u id := by
    rw [value_update (hw.size_eq ▸ lt_capacity_of_contains hlive) hx]
    exact hw.step hs hg hv hd hc hx
  refine ⟨⟨hw.of_frame (frame_update hid s), ?_⟩, hnew⟩
  intro j hj
  by_cases he : j = id
  · subst he
    refine hnew.trans (mul_le_mul_of_nonneg_right ?_ (hd.pos j).le)
    exact mul_le_of_le_one_left hc hd.lt_one.le
  · have hframe : ValueTable.Frame [id] s.2 (g.update s id).2 :=
      frame_update List.mem_cons_self s
    rw [hframe.value_eq j (by simpa using he)]
    exact hw.error j hj

/-- A sweep makes all errors smaller by the factor. -/
theorem sweep (hw : g.Near v u ids c w) (hlive : ∀ id ∈ ids, g.contains id = true) :
    g.Near v u ids (ρ * c) (g.sweep ids w).2 := by
  have hexact := hw.of_frame (g.frame_sweep ids w)
  refine ⟨hexact, ?_⟩
  intro id hid
  by_cases hin : id ∈ ids
  · exact ValueTable.foldl_written (P := fun s => g.Near v u ids c s.2)
      (Q := fun i x => |x - v i| ≤ ρ * c * u i) Prod.snd
      (fun s i => frame_update List.mem_cons_self s)
      (fun s i hi hw => (hw.update hs hg hv hd hc hi (hlive i hi)).1)
      (fun s i hi hw => (hw.update hs hg hv hd hc hi (hlive i hi)).2) ids (fun _ h => h) (false, w)
      hw id hin
  · rw [hexact.value_eq id hid hin, sub_self, abs_zero]
    exact mul_nonneg (mul_nonneg hd.nonneg hc) (hd.pos id).le

end Near

end Game

/-! ### Convergence -/

namespace Iteration

variable {it : Iteration} {u v : NodeId → Rat} {ρ c : Rat} {w : ValueTable}

/-- Sweeps do nothing to a table in which all listed nodes have their values. -/
theorem swept_of_fixedAt (hfix : ∀ id ∈ it.ids, it.game.FixedAt w.value id) (k : Nat) :
    it.swept k w = w := by
  induction k with
  | zero => rfl
  | succ k ih => rw [swept, Game.sweep_of_fixedAt hfix, ih]

variable (hs : it.game.Stopping) (hg : it.game.Linked) (hv : it.game.Solves v)
  (hlive : ∀ id ∈ it.ids, it.game.contains id = true)

include hs hg hv hlive

theorem near_swept (hd : it.game.Damping u ρ) (hc : 0 ≤ c) (hw : it.game.Near v u it.ids c w)
    (k : Nat) : it.game.Near v u it.ids (ρ ^ k * c) (it.swept k w) := by
  induction k generalizing c w with
  | zero =>
    rw [pow_zero, one_mul]
    exact hw
  | succ k ih =>
    rw [pow_succ, mul_assoc]
    exact ih (mul_nonneg hd.nonneg hc) (hw.sweep hs hg hv hd hc hlive)

/-- **Sweeps converge.** Listed nodes of a stopping game come as close to their values as
one likes, from any table that is right about the other nodes. -/
theorem exists_swept_close (hw : it.game.ExactOutside v it.ids w) {ε : Rat} (hε : 0 < ε) :
    ∃ k, ∀ j, k ≤ j → ∀ id, it.game.contains id = true → |(it.swept j w).value id - v id| < ε := by
  obtain ⟨u, ρ, hd⟩ := hs.exists_damping hg
  obtain ⟨c, hc, hw⟩ := hd.exists_near hw
  obtain ⟨k, hk⟩ := exists_pow_lt_of_lt_one (show 0 < ε / (c + 1) by positivity) hd.lt_one
  rw [lt_div_iff₀ (by positivity)] at hk
  refine ⟨k, ?_⟩
  intro j hj id hid
  have hpow : ρ ^ j ≤ ρ ^ k := pow_le_pow_of_le_one hd.nonneg hd.lt_one.le hj
  have hpos : 0 ≤ ρ ^ j := pow_nonneg hd.nonneg j
  calc |(it.swept j w).value id - v id| ≤ ρ ^ j * c * u id :=
        (near_swept hs hg hv hlive hd hc hw j).error id hid
    _ ≤ ρ ^ j * c := mul_le_of_le_one_right (mul_nonneg hpos hc) (hd.le_one id)
    _ ≤ ρ ^ k * (c + 1) := by nlinarith
    _ < ε := hk

/-- Listed nodes that all satisfy their equations have their values, if the other nodes
have theirs. -/
theorem value_eq_of_fixedAt (hw : it.game.ExactOutside v it.ids w)
    (hfix : ∀ id ∈ it.ids, it.game.FixedAt w.value id) {id : NodeId} (hid : id ∈ it.ids) :
    w.value id = v id := by
  by_contra hne
  obtain ⟨k, hk⟩ := exists_swept_close hs hg hv hlive hw (abs_pos.2 (sub_ne_zero.2 hne))
  have hlt := hk k le_rfl id (hlive id hid)
  rw [swept_of_fixedAt hfix] at hlt
  exact lt_irrefl _ hlt

end Iteration

end StochasticGame
