import Mathlib.Algebra.Module.LinearMap.Defs
import Mathlib.Algebra.Order.Field.Basic
import Mathlib.Data.Finset.Max
import Mathlib.Data.Finset.Powerset
import Mathlib.Data.Set.Finite.Lemmas
import Mathlib.Tactic.Linarith

/-!
# StochasticGame.Proofs.Solver.LinearProgram

**A bounded linear program has a rational solution.** The values that no operator of a game
raises form a finite union of polyhedra: a maximizer and a coin give linear inequalities, a
minimizer a choice between some. A linear objective that is bounded below on such a set
attains its minimum, and over the rationals this cannot be had from compactness.

* From a point that is no corner, slide along a direction that lowers the objective and
  keeps the tight constraints tight, until one more constraint is tight
  (`Meets.exists_slide`). After finitely many slides the point is a corner.
* Corners with the same tight constraints have the same objective, so the objective has
  finitely many values at corners, and the least of them is the minimum.
* `Polyhedral` collects the sets to which this applies: half-spaces, unions, intersections.
-/

namespace StochasticGame.LinearProgram

variable {V : Type} [AddCommGroup V] [Module Rat V]

/-- A linear form that has to be at least a bound. -/
structure Constraint (V : Type) [AddCommGroup V] [Module Rat V] where
  /-- The linear form. -/
  form : V →ₗ[Rat] Rat
  /-- What it has to reach. -/
  bound : Rat

/-- A point that satisfies all of some constraints. -/
def Meets (rows : Finset (Constraint V)) (x : V) : Prop := ∀ r ∈ rows, r.bound ≤ r.form x

/-- The constraints that hold with equality at a point. -/
def tight (rows : Finset (Constraint V)) (x : V) : Finset (Constraint V) :=
  rows.filter fun r => r.form x = r.bound

/-- A point at which no direction that keeps the tight constraints tight changes the
objective. -/
def IsCorner (rows : Finset (Constraint V)) (c : V →ₗ[Rat] Rat) (x : V) : Prop :=
  ∀ d, (∀ r ∈ tight rows x, r.form d = 0) → c d = 0

variable {rows : Finset (Constraint V)} {c : V →ₗ[Rat] Rat} {x y d : V}

theorem mem_tight {r : Constraint V} : r ∈ tight rows x ↔ r ∈ rows ∧ r.form x = r.bound :=
  Finset.mem_filter

theorem form_slide (f : V →ₗ[Rat] Rat) (x d : V) (t : Rat) : f (x + t • d) = f x + t * f d := by
  rw [map_add, map_smul, smul_eq_mul]

/-! ### Corners -/

/-- Along a direction that some constraint forbids, one can go until a constraint that was
not tight is. -/
theorem Meets.exists_slide (hx : Meets rows x) (hd : ∀ r ∈ tight rows x, r.form d = 0)
    (hneg : ∃ r ∈ rows, r.form d < 0) :
    ∃ t : Rat, 0 < t ∧ Meets rows (x + t • d) ∧ tight rows x ⊂ tight rows (x + t • d) := by
  -- how far a constraint lets one go
  let room : Constraint V → Rat := fun r => (r.form x - r.bound) / -r.form d
  obtain ⟨r₀, hr₀, hmin⟩ := Finset.exists_min_image (rows.filter fun r => r.form d < 0) room <| by
    obtain ⟨r, hr, hlt⟩ := hneg
    exact ⟨r, Finset.mem_filter.2 ⟨hr, hlt⟩⟩
  obtain ⟨hmem, hlt⟩ := Finset.mem_filter.1 hr₀
  have hslack : r₀.bound < r₀.form x := by
    refine (hx r₀ hmem).lt_of_ne ?_
    intro he
    exact hlt.ne (hd r₀ (mem_tight.2 ⟨hmem, he.symm⟩))
  have hpos : 0 < room r₀ := div_pos (sub_pos.2 hslack) (neg_pos.2 hlt)
  have hreach : room r₀ * -r₀.form d = r₀.form x - r₀.bound :=
    div_mul_cancel₀ _ (neg_ne_zero.2 hlt.ne)
  refine ⟨room r₀, hpos, ?_, Finset.ssubset_iff_subset_ne.2 ⟨?_, ?_⟩⟩
  · intro r hr
    rw [form_slide]
    by_cases hrd : r.form d < 0
    · have hle := hmin r (Finset.mem_filter.2 ⟨hr, hrd⟩)
      have hfar : room r₀ * -r.form d ≤ r.form x - r.bound :=
        (le_div_iff₀ (neg_pos.2 hrd)).1 hle
      linarith
    · have hge : 0 ≤ room r₀ * r.form d := mul_nonneg hpos.le (not_lt.1 hrd)
      linarith [hx r hr]
  · intro r hr
    obtain ⟨hrows, he⟩ := mem_tight.1 hr
    refine mem_tight.2 ⟨hrows, ?_⟩
    rw [form_slide, hd r hr, mul_zero, add_zero, he]
  · -- the constraint that stops the slide is tight only now
    intro he
    have hnew : r₀ ∈ tight rows (x + room r₀ • d) := by
      refine mem_tight.2 ⟨hmem, ?_⟩
      rw [form_slide]
      linarith
    rw [← he] at hnew
    exact hslack.ne' (mem_tight.1 hnew).2

/-- A direction that no constraint forbids does not lower an objective that is bounded
below. -/
theorem Meets.nonneg_of_bounded {b : Rat} (hx : Meets rows x)
    (hb : ∀ y, Meets rows y → b ≤ c y) (hd : ∀ r ∈ rows, 0 ≤ r.form d) : 0 ≤ c d := by
  by_contra hlt
  rw [not_le] at hlt
  -- far enough along the direction the objective is below its bound
  let t : Rat := (c x - b + 1) / -c d
  have hb' := hb x hx
  have ht : 0 ≤ t := div_nonneg (by linarith) (neg_pos.2 hlt).le
  have hfar : t * -c d = c x - b + 1 := div_mul_cancel₀ _ (neg_ne_zero.2 hlt.ne)
  have hmeets : Meets rows (x + t • d) := by
    intro r hr
    rw [form_slide]
    linarith [hx r hr, mul_nonneg ht (hd r hr)]
  have hlow := hb _ hmeets
  rw [form_slide] at hlow
  linarith

/-- Below every point lies a corner. -/
theorem Meets.exists_corner {b : Rat} (hx : Meets rows x) (hb : ∀ y, Meets rows y → b ≤ c y) :
    ∃ y, Meets rows y ∧ IsCorner rows c y ∧ c y ≤ c x := by
  -- every slide makes one more constraint tight
  induction hn : (rows.card - (tight rows x).card) using Nat.strong_induction_on generalizing x with
  | _ n ih =>
    by_cases hcorner : IsCorner rows c x
    · exact ⟨x, hx, hcorner, le_rfl⟩
    · obtain ⟨d, hd, hlow⟩ : ∃ d, (∀ r ∈ tight rows x, r.form d = 0) ∧ c d < 0 := by
        simp only [IsCorner, not_forall] at hcorner
        obtain ⟨d, hd, hne⟩ := hcorner
        cases lt_or_gt_of_ne hne with
        | inl hlt => exact ⟨d, hd, hlt⟩
        | inr hgt =>
          refine ⟨-d, fun r hr => ?_, ?_⟩
          · rw [map_neg, hd r hr, neg_zero]
          · rw [map_neg]
            linarith
      have hneg : ∃ r ∈ rows, r.form d < 0 := by
        by_contra hall
        push Not at hall
        exact absurd (hx.nonneg_of_bounded hb hall) (not_le.2 hlow)
      obtain ⟨t, ht, hmeets, htight⟩ := hx.exists_slide hd hneg
      have hcard := Finset.card_lt_card htight
      have hrows : (tight rows (x + t • d)).card ≤ rows.card :=
        Finset.card_le_card (Finset.filter_subset _ _)
      obtain ⟨y, hy, hyc, hle⟩ := ih _ (by omega) hmeets rfl
      refine ⟨y, hy, hyc, hle.trans ?_⟩
      rw [form_slide]
      linarith [mul_neg_of_pos_of_neg ht hlow]

/-- The objective at a corner depends on what is tight there. -/
theorem IsCorner.eq_of_tight (hx : IsCorner rows c x) (he : tight rows x = tight rows y) :
    c x = c y := by
  have hdiff : c (x - y) = 0 := by
    refine hx _ ?_
    intro r hr
    have hy := (mem_tight.1 (he ▸ hr)).2
    rw [map_sub, (mem_tight.1 hr).2, hy, sub_self]
  rw [map_sub] at hdiff
  linarith

/-- **A linear program that has a point and is bounded below attains its minimum.** -/
theorem Meets.exists_minimum {b : Rat} (hx : Meets rows x) (hb : ∀ y, Meets rows y → b ≤ c y) :
    ∃ y, Meets rows y ∧ ∀ z, Meets rows z → c y ≤ c z := by
  let corners : Set V := {y | Meets rows y ∧ IsCorner rows c y}
  have hfactor : Function.FactorsThrough (fun y : corners => c y) fun y => tight rows y :=
    fun y _ he => y.2.2.eq_of_tight he
  have hfinite : (Set.range fun y : corners => c y).Finite := by
    refine (rows.powerset.finite_toSet.image (Function.extend (fun y : corners => tight rows y)
      (fun y : corners => c y) 0)).subset ?_
    rintro _ ⟨y, rfl⟩
    exact ⟨tight rows y, Finset.mem_coe.2 (Finset.mem_powerset.2 (Finset.filter_subset _ _)),
      hfactor.extend_apply 0 y⟩
  have hbelow : ∀ z, Meets rows z → ∃ y : corners, c y ≤ c z := by
    intro z hz
    obtain ⟨y, hy, hcorner, hle⟩ := hz.exists_corner hb
    exact ⟨⟨y, hy, hcorner⟩, hle⟩
  obtain ⟨y₀, -⟩ := hbelow x hx
  obtain ⟨_, ⟨y, rfl⟩, hmin⟩ := Set.exists_min_image _ id hfinite ⟨c y₀, y₀, rfl⟩
  refine ⟨y, y.2.1, ?_⟩
  intro z hz
  obtain ⟨y', hle⟩ := hbelow z hz
  exact (hmin (c y') ⟨y', rfl⟩).trans hle

/-! ### Polyhedral sets -/

/-- A finite union of sets that are each given by finitely many constraints. -/
def Polyhedral (S : Set V) : Prop :=
  ∃ cells : List (Finset (Constraint V)), ∀ x, x ∈ S ↔ ∃ rows ∈ cells, Meets rows x

theorem polyhedral_of_iff {P : V → Prop} (f : V →ₗ[Rat] Rat) (b : Rat)
    (h : ∀ x, P x ↔ b ≤ f x) : Polyhedral {x | P x} := by
  refine ⟨[{⟨f, b⟩}], ?_⟩
  intro x
  simpa [Meets] using h x

theorem polyhedral_univ : Polyhedral (Set.univ : Set V) := ⟨[∅], fun x => by simp [Meets]⟩

namespace Polyhedral

variable {S T : Set V}

open Classical in
theorem inter (hS : Polyhedral S) (hT : Polyhedral T) : Polyhedral (S ∩ T) := by
  obtain ⟨cells, hS⟩ := hS
  obtain ⟨cells', hT⟩ := hT
  refine ⟨cells.flatMap fun rows => cells'.map (rows ∪ ·), ?_⟩
  have hunion : ∀ rows rows' : Finset (Constraint V), ∀ x,
      Meets (rows ∪ rows') x ↔ Meets rows x ∧ Meets rows' x := by
    intro rows rows' x
    simp only [Meets, Finset.mem_union, or_imp, forall_and]
  intro x
  simp only [Set.mem_inter_iff, hS, hT, List.mem_flatMap, List.mem_map]
  constructor
  · intro ⟨⟨rows, hrows, hx⟩, rows', hrows', hx'⟩
    exact ⟨_, ⟨rows, hrows, rows', hrows', rfl⟩, (hunion rows rows' x).2 ⟨hx, hx'⟩⟩
  · intro ⟨_, ⟨rows, hrows, rows', hrows', he⟩, hx⟩
    rw [← he, hunion] at hx
    exact ⟨⟨rows, hrows, hx.1⟩, rows', hrows', hx.2⟩

/-- All of finitely many conditions. -/
theorem forall_mem {α : Type} (l : List α) {P : α → V → Prop}
    (h : ∀ a ∈ l, Polyhedral {x | P a x}) : Polyhedral {x | ∀ a ∈ l, P a x} := by
  induction l with
  | nil => simpa using polyhedral_univ
  | cons a l ih =>
    have hinter := (h a List.mem_cons_self).inter (ih fun b hb => h b (List.mem_cons_of_mem a hb))
    simp only [List.forall_mem_cons]
    exact hinter

/-- One of finitely many conditions. -/
theorem exists_mem {α : Type} (l : List α) {P : α → V → Prop}
    (h : ∀ a ∈ l, Polyhedral {x | P a x}) : Polyhedral {x | ∃ a ∈ l, P a x} := by
  induction l with
  | nil => exact ⟨[], fun x => by simp⟩
  | cons a l ih =>
    obtain ⟨cells, ha⟩ := h a List.mem_cons_self
    obtain ⟨cells', hl⟩ := ih fun b hb => h b (List.mem_cons_of_mem a hb)
    refine ⟨cells ++ cells', ?_⟩
    intro x
    have ha := ha x
    have hl := hl x
    simp only [Set.mem_ofPred_eq] at ha hl
    simp only [Set.mem_ofPred_eq, List.exists_mem_cons_iff, ha, hl, List.mem_append, or_and_right,
      exists_or]

open Classical in
/-- **A linear objective that is bounded below attains its minimum.** -/
theorem exists_minimum (hS : Polyhedral S) (c : V →ₗ[Rat] Rat) {b : Rat} (hne : S.Nonempty)
    (hb : ∀ x ∈ S, b ≤ c x) : ∃ x ∈ S, ∀ y ∈ S, c x ≤ c y := by
  obtain ⟨cells, hcells⟩ := hS
  have hcell : ∀ rows, rows ∈ cells ∧ (∃ x, Meets rows x) →
      ∃ y, Meets rows y ∧ ∀ z, Meets rows z → c y ≤ c z :=
    fun rows ⟨hrows, x, hx⟩ => hx.exists_minimum fun z hz => hb z ((hcells z).2 ⟨rows, hrows, hz⟩)
  -- the least of the minima of the cells that have a point
  choose! best hbest hmin using hcell
  obtain ⟨x, hx⟩ := hne
  obtain ⟨rows, hrows, hx⟩ := (hcells x).1 hx
  obtain ⟨least, hleast, hle⟩ := Finset.exists_min_image
    (cells.toFinset.filter fun rows => ∃ x, Meets rows x) (fun rows => c (best rows))
    ⟨rows, Finset.mem_filter.2 ⟨List.mem_toFinset.2 hrows, x, hx⟩⟩
  rw [Finset.mem_filter, List.mem_toFinset] at hleast
  refine ⟨best least, (hcells _).2 ⟨least, hleast.1, hbest least hleast⟩, ?_⟩
  intro y hy
  obtain ⟨rows', hrows', hy⟩ := (hcells y).1 hy
  have hbelow := hle rows' (Finset.mem_filter.2 ⟨List.mem_toFinset.2 hrows', y, hy⟩)
  exact hbelow.trans (hmin rows' ⟨hrows', y, hy⟩ y hy)

end Polyhedral

end StochasticGame.LinearProgram
