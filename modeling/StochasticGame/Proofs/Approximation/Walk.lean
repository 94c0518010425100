import Mathlib.RingTheory.Coprime.Lemmas
import Mathlib.Tactic.LinearCombination
import Mathlib.Tactic.Zify
import StochasticGame.Proofs.Approximation.Closeness

/-!
# StochasticGame.Proofs.Approximation.Walk

**The walk finds the best fraction.** Its ends stay neighbours: their cross
difference is 1. Hence every fraction strictly between them has at least the
denominator of their mediant, and once that passes the bound, no candidate is left
inside. Outside, an end beats every fraction beyond it.

* `Neighbours` is the relation of the ends, kept by both moves.
* `Search` is the invariant of the walk: neighbours around the value, and a best
  answer at least as good as both of them.
* Each move makes the mediant's denominator grow, so the walk ends within as many steps
  as the bound says, and every larger number of steps gives the same answer.
-/

namespace StochasticGame

namespace Fraction

variable {f l r best : Fraction} {value : Rat} {bound : Nat}

theorem toRat_lt_toRat_iff (hf : 0 < f.den) (hl : 0 < l.den) :
    f.toRat < l.toRat ↔ f.num * l.den < l.num * f.den := by
  rw [toRat, toRat, div_lt_div_iff₀ (Nat.cast_pos.2 hf) (Nat.cast_pos.2 hl)]
  exact_mod_cast Iff.rfl

theorem toRat_le_one (hf : 0 < f.den) (h : f.num ≤ f.den) : f.toRat ≤ 1 := by
  rw [toRat, div_le_one (Nat.cast_pos.2 hf)]
  exact_mod_cast h

theorem toRat_eq_toRat_iff (hl : 0 < l.den) (hf : 0 < f.den) :
    l.toRat = f.toRat ↔ l.num * f.den = f.num * l.den := by
  rw [toRat, toRat, div_eq_div_iff (Nat.cast_pos.2 hl).ne' (Nat.cast_pos.2 hf).ne']
  exact_mod_cast Iff.rfl

/-- A reduced fraction has the smallest denominator among the ways to write it. -/
theorem den_le_of_toRat_eq (hl : 0 < l.den) (hco : l.num.Coprime l.den) (hf : 0 < f.den)
    (he : l.toRat = f.toRat) : l.den ≤ f.den := by
  have hcross := (toRat_eq_toRat_iff hl hf).1 he
  have hdvd : l.den ∣ f.den := hco.symm.dvd_of_dvd_mul_left ⟨f.num, by rw [hcross, mul_comm]⟩
  exact Nat.le_of_dvd hf hdvd

/-- Reduced fractions with the same value are the same. -/
theorem eq_of_toRat_eq (hl : 0 < l.den) (hlco : l.num.Coprime l.den) (hr : 0 < r.den)
    (hrco : r.num.Coprime r.den) (he : l.toRat = r.toRat) : l = r := by
  have hden : l.den = r.den :=
    le_antisymm (den_le_of_toRat_eq hl hlco hr he) (den_le_of_toRat_eq hr hrco hl he.symm)
  have hcross := (toRat_eq_toRat_iff hl hr).1 he
  rw [hden] at hcross
  exact congrArg₂ Fraction.mk (Nat.eq_of_mul_eq_mul_right hr hcross) hden

/-- Of two ways to write a rational the reduced one is preferred. -/
theorem noFarther_of_toRat_eq (hl : 0 < l.den) (hco : l.num.Coprime l.den) (hf : 0 < f.den)
    (he : l.toRat = f.toRat) : NoFarther value l f := by
  have hcross := (toRat_eq_toRat_iff hl hf).1 he
  refine Or.inr ⟨by rw [he], ?_⟩
  rcases (den_le_of_toRat_eq hl hco hf he).lt_or_eq with hlt | hden
  · exact Or.inl hlt
  · rw [← hden] at hcross
    exact Or.inr ⟨hden, (Nat.eq_of_mul_eq_mul_right hl hcross).le⟩

/-- Below the value a reduced fraction beats every smaller one. -/
theorem noFarther_of_le_value (hl : 0 < l.den) (hco : l.num.Coprime l.den) (hf : 0 < f.den)
    (hle : f.toRat ≤ l.toRat) (hv : l.toRat ≤ value) : NoFarther value l f := by
  rcases hle.lt_or_eq with hlt | he
  · left
    rw [abs_sub_comm, abs_of_nonneg (sub_nonneg.2 hv), abs_sub_comm,
      abs_of_nonneg (sub_nonneg.2 (hle.trans hv))]
    linarith
  · exact noFarther_of_toRat_eq hl hco hf he.symm

/-- Above the value a reduced fraction beats every larger one. -/
theorem noFarther_of_value_le (hr : 0 < r.den) (hco : r.num.Coprime r.den) (hf : 0 < f.den)
    (hle : r.toRat ≤ f.toRat) (hv : value ≤ r.toRat) : NoFarther value r f := by
  rcases hle.lt_or_eq with hlt | he
  · left
    rw [abs_of_nonneg (sub_nonneg.2 hv), abs_of_nonneg (sub_nonneg.2 (hv.trans hle))]
    linarith
  · exact noFarther_of_toRat_eq hr hco hf he

/-! ### Neighbours -/

/-- Two fractions of the unit interval whose cross difference is 1. -/
structure Neighbours (l r : Fraction) : Prop where
  /-- The left denominator is positive. -/
  left_pos : 0 < l.den
  /-- The right denominator is positive. -/
  right_pos : 0 < r.den
  /-- The cross difference. -/
  det : r.num * l.den = l.num * r.den + 1
  /-- The right end is at most 1. -/
  right_le : r.num ≤ r.den

namespace Neighbours

theorem zero_one : Neighbours zero one := ⟨by decide, by decide, by decide, by decide⟩

theorem left_lt (h : Neighbours l r) : l.num < l.den := by
  have hle := Nat.mul_le_mul_right l.den h.right_le
  have hlt : l.num * r.den < l.den * r.den := by
    rw [mul_comm l.den]
    have := h.det
    omega
  exact lt_of_mul_lt_mul_right hlt (Nat.zero_le _)

theorem mediant_le (h : Neighbours l r) : (l.mediant r).num ≤ (l.mediant r).den :=
  Nat.add_le_add h.left_lt.le h.right_le

theorem mediant_right (h : Neighbours l r) : Neighbours (l.mediant r) r where
  left_pos := Nat.add_pos_left h.left_pos r.den
  right_pos := h.right_pos
  det := by
    simp only [mediant, Nat.mul_add, Nat.add_mul, h.det]
    omega
  right_le := h.right_le

theorem mediant_left (h : Neighbours l r) : Neighbours l (l.mediant r) where
  left_pos := h.left_pos
  right_pos := Nat.add_pos_left h.left_pos r.den
  det := by
    simp only [mediant, Nat.mul_add, Nat.add_mul, h.det]
    omega
  right_le := h.mediant_le

theorem coprime_left (h : Neighbours l r) : l.num.Coprime l.den := by
  rw [← Nat.isCoprime_iff_coprime]
  refine ⟨-r.den, r.num, ?_⟩
  have hdet : (r.num : Int) * l.den = l.num * r.den + 1 := by exact_mod_cast h.det
  linarith

theorem coprime_right (h : Neighbours l r) : r.num.Coprime r.den := by
  rw [← Nat.isCoprime_iff_coprime]
  refine ⟨l.den, -l.num, ?_⟩
  have hdet : (r.num : Int) * l.den = l.num * r.den + 1 := by exact_mod_cast h.det
  linarith

theorem toRat_lt (h : Neighbours l r) : l.toRat < r.toRat := by
  rw [toRat_lt_toRat_iff h.left_pos h.right_pos, h.det]
  exact Nat.lt_succ_self _

/-- Between neighbours denominators are at least that of the mediant. -/
theorem den_le_of_between (h : Neighbours l r) (hf : 0 < f.den) (hl : l.toRat < f.toRat)
    (hr : f.toRat < r.toRat) : l.den + r.den ≤ f.den := by
  rw [toRat_lt_toRat_iff h.left_pos hf] at hl
  rw [toRat_lt_toRat_iff hf h.right_pos] at hr
  obtain ⟨a, ha⟩ := Nat.exists_eq_add_of_lt hl
  obtain ⟨b, hb⟩ := Nat.exists_eq_add_of_lt hr
  -- the denominator is a combination of the two with the cross differences as factors
  have hden : f.den = l.den * (b + 1) + r.den * (a + 1) := by
    have hdet := h.det
    zify at ha hb hdet ⊢
    linear_combination (l.den : Int) * hb + (r.den : Int) * ha - (f.den : Int) * hdet
  rw [hden]
  have h₁ := Nat.le_mul_of_pos_right l.den (Nat.succ_pos b)
  have h₂ := Nat.le_mul_of_pos_right r.den (Nat.succ_pos a)
  exact Nat.add_le_add h₁ h₂

end Neighbours

/-! ### The invariant of the walk -/

/-- A reduced fraction of the unit interval whose denominator fits a bound. -/
structure Admissible (bound : Nat) (f : Fraction) : Prop where
  /-- The denominator is positive. -/
  pos : 0 < f.den
  /-- The fraction is at most 1. -/
  le : f.num ≤ f.den
  /-- The denominator fits the bound. -/
  den_le : f.den ≤ bound
  /-- The fraction is reduced. -/
  coprime : f.num.Coprime f.den

/-- An admissible fraction that no fraction of the unit interval within the bound
beats. -/
def IsBest (value : Rat) (bound : Nat) (f : Fraction) : Prop :=
  Admissible bound f ∧
    ∀ c : Fraction, 0 < c.den → c.num ≤ c.den → c.den ≤ bound → NoFarther value f c

/-- Neighbours around the value and a best answer so far. -/
structure Search (value : Rat) (bound : Nat) (l r best : Fraction) : Prop
    extends Neighbours l r where
  /-- The left end is not above the value, unless the value is outside. -/
  left_side : l.toRat ≤ value ∨ l = zero
  /-- The right end is not below the value, unless the value is outside. -/
  right_side : value ≤ r.toRat ∨ r = one
  /-- The left denominator fits the bound. -/
  left_den : l.den ≤ bound
  /-- The right denominator fits the bound. -/
  right_den : r.den ≤ bound
  /-- The best answer is admissible. -/
  admissible : Admissible bound best
  /-- The best answer is at least as good as the left end. -/
  best_left : NoFarther value best l
  /-- The best answer is at least as good as the right end. -/
  best_right : NoFarther value best r

namespace Search

variable (h : Search value bound l r best)
include h

/-- The left end beats everything beyond it. -/
theorem left_noFarther (hf : 0 < f.den) (hle : f.toRat ≤ l.toRat) : NoFarther value l f := by
  rcases h.left_side with hv | rfl
  · exact noFarther_of_le_value h.left_pos h.coprime_left hf hle hv
  · rw [toRat_zero] at hle
    have hzero := le_antisymm hle f.toRat_nonneg
    exact noFarther_of_toRat_eq h.left_pos h.coprime_left hf (toRat_zero.trans hzero.symm)

/-- The right end beats everything beyond it. -/
theorem right_noFarther (hf : 0 < f.den) (hf1 : f.num ≤ f.den) (hle : r.toRat ≤ f.toRat) :
    NoFarther value r f := by
  rcases h.right_side with hv | rfl
  · exact noFarther_of_value_le h.right_pos h.coprime_right hf hle hv
  · rw [toRat_one] at hle
    have hone := le_antisymm (toRat_le_one hf hf1) hle
    exact noFarther_of_toRat_eq h.right_pos h.coprime_right hf (toRat_one.trans hone.symm)

/-- When the mediant passes the bound, the best answer so far is the best one. -/
theorem isBest (hb : bound < l.den + r.den) : IsBest value bound best := by
  refine ⟨h.admissible, ?_⟩
  intro c hc hc1 hcb
  rcases le_or_gt c.toRat l.toRat with hl | hl
  · exact h.best_left.trans (h.left_noFarther hc hl)
  rcases le_or_gt r.toRat c.toRat with hr | hr
  · exact h.best_right.trans (h.right_noFarther hc hc1 hr)
  have := h.den_le_of_between hc hl hr
  omega

theorem mediant_admissible (hm : (l.mediant r).den ≤ bound) :
    Admissible bound (l.mediant r) where
  pos := h.mediant_left.right_pos
  le := h.mediant_le
  den_le := hm
  coprime := h.mediant_left.coprime_right

/-- A mediant that is the value is the best answer. -/
theorem isBest_mediant (hm : (l.mediant r).den ≤ bound) (he : (l.mediant r).toRat = value) :
    IsBest value bound (l.mediant r) := by
  have hadm := h.mediant_admissible hm
  refine ⟨hadm, ?_⟩
  intro c hc _ _
  by_cases hcv : c.toRat = value
  · exact noFarther_of_toRat_eq hadm.pos hadm.coprime hc (he.trans hcv.symm)
  · left
    rw [he, sub_self, abs_zero]
    exact abs_pos.2 (sub_ne_zero.2 hcv)

theorem closer_admissible (hm : (l.mediant r).den ≤ bound) :
    Admissible bound ((l.mediant r).closer best value) := by
  rcases closer_eq_or (l.mediant r) best value with he | he
  · rw [he]
    exact h.mediant_admissible hm
  · rw [he]
    exact h.admissible

/-- The walk moves right when the mediant is below the value. -/
theorem move_right (hm : (l.mediant r).den ≤ bound) (hlt : (l.mediant r).toRat < value) :
    Search value bound (l.mediant r) r ((l.mediant r).closer best value) where
  toNeighbours := h.toNeighbours.mediant_right
  left_side := Or.inl hlt.le
  right_side := h.right_side
  left_den := hm
  right_den := h.right_den
  admissible := h.closer_admissible hm
  best_left := closer_noFarther_left h.mediant_left.right_pos h.admissible.pos
  best_right :=
    (closer_noFarther_right h.mediant_left.right_pos h.admissible.pos).trans h.best_right

/-- The walk moves left when the mediant is above the value. -/
theorem move_left (hm : (l.mediant r).den ≤ bound) (hgt : value < (l.mediant r).toRat) :
    Search value bound l (l.mediant r) ((l.mediant r).closer best value) where
  toNeighbours := h.toNeighbours.mediant_left
  left_side := h.left_side
  right_side := Or.inl hgt.le
  left_den := h.left_den
  right_den := hm
  admissible := h.closer_admissible hm
  best_left := (closer_noFarther_right h.mediant_left.right_pos h.admissible.pos).trans h.best_left
  best_right := closer_noFarther_left h.mediant_left.right_pos h.admissible.pos

end Search

/-- The invariant holds at the start. -/
theorem Search.start (value : Rat) {bound : Nat} (hb : 1 ≤ bound) :
    Search value bound zero one (one.closer zero value) where
  toNeighbours := .zero_one
  left_side := Or.inr rfl
  right_side := Or.inr rfl
  left_den := hb
  right_den := hb
  admissible := by
    rcases closer_eq_or one zero value with he | he
    · rw [he]
      exact ⟨by decide, by decide, hb, by decide⟩
    · rw [he]
      exact ⟨by decide, by decide, hb, by decide⟩
  best_left := closer_noFarther_right (by decide) (by decide)
  best_right := closer_noFarther_left (by decide) (by decide)

/-! ### The walk -/

/-- With enough steps the walk ends, and it ends with the best fraction. -/
theorem Search.walk (h : Search value bound l r best) {steps : Nat} (hsteps : 0 < steps)
    (hs : bound + 1 < steps + (l.den + r.den)) :
    ∃ f, IsBest value bound f ∧
      ∀ more, Fraction.walk value bound (steps + more) l r best = some f := by
  induction steps generalizing l r best with
  | zero => exact absurd hsteps (lt_irrefl 0)
  | succ steps ih =>
    have hl := h.left_pos
    have hr := h.right_pos
    have hpos := h.mediant_left.right_pos
    have hden : (l.mediant r).den = l.den + r.den := rfl
    simp only [Nat.add_right_comm steps 1, Fraction.walk]
    by_cases hm : bound < (l.mediant r).den
    · exact ⟨best, h.isBest (by omega), fun _ => if_pos hm⟩
    -- a mediant within the bound leaves at least one more step
    have hm' := Nat.le_of_not_lt hm
    have hrest : 0 < steps := by omega
    simp only [if_neg hm]
    cases hcmp : (l.mediant r).compareTo value with
    | eq =>
      exact ⟨l.mediant r, h.isBest_mediant hm' ((compareTo_eq_eq_iff hpos).1 hcmp), fun _ => rfl⟩
    | lt => exact ih (h.move_right hm' ((compareTo_eq_lt_iff hpos).1 hcmp)) hrest (by omega)
    | gt => exact ih (h.move_left hm' ((compareTo_eq_gt_iff hpos).1 hcmp)) hrest (by omega)

/-- Neighbours with denominators of at most 2 ^ 63 have a mediant of 64 bits: they
cannot both reach that bound. -/
theorem Neighbours.mediant_fits (h : Neighbours l r) (hl : l.den ≤ 2 ^ 63) (hr : r.den ≤ 2 ^ 63) :
    (l.mediant r).fits = true := by
  have hle := h.mediant_le
  have hlt : (l.mediant r).den < 2 ^ 64 := by
    by_contra hge
    simp only [mediant] at hge
    have hl' : l.den = 2 ^ 63 := by omega
    have hr' : r.den = 2 ^ 63 := by omega
    have hdet := h.det
    rw [hl', hr'] at hdet
    omega
  simp only [fits, Bool.and_eq_true, decide_eq_true_eq]
  exact ⟨hle.trans_lt hlt, hlt⟩

/-- The walk stays within 64 bits. -/
theorem Search.walkFits (h : Search value bound l r best) (hb : bound ≤ 2 ^ 63) (steps : Nat) :
    Fraction.walkFits value bound steps l r = true := by
  induction steps generalizing l r best with
  | zero => rfl
  | succ steps ih =>
    have hpos := h.mediant_left.right_pos
    have hfits := h.mediant_fits (h.left_den.trans hb) (h.right_den.trans hb)
    rw [Fraction.walkFits]
    simp only [hfits, if_true]
    split
    · rfl
    · rename_i hm
      have hm' := Nat.le_of_not_lt hm
      cases hcmp : (l.mediant r).compareTo value with
      | eq => rfl
      | lt => exact ih (h.move_right hm' ((compareTo_eq_lt_iff hpos).1 hcmp))
      | gt => exact ih (h.move_left hm' ((compareTo_eq_gt_iff hpos).1 hcmp))

end Fraction

/-! ### The nearest fraction -/

open Fraction

/-- The walk for a value ends within as many steps as the bound says. -/
theorem exists_walk_eq_some (value : Rat) (bound : Nat) :
    ∃ f : Fraction, IsBest value (max bound 1) f ∧
      (∀ more, walk value (max bound 1) (max bound 1 + more) zero one (one.closer zero value) =
        some f) ∧
      nearestByWalk value bound = f.toRat := by
  have hsteps : max bound 1 + 1 < max bound 1 + (zero.den + one.den) := Nat.lt_succ_self _
  obtain ⟨f, hbest, hwalk⟩ :=
    (Search.start value (Nat.le_max_right bound 1)).walk (by omega) hsteps
  refine ⟨f, hbest, hwalk, ?_⟩
  have hzero : walk value (max bound 1) (max bound 1) zero one (one.closer zero value) = some f :=
    hwalk 0
  rw [nearestByWalk, hzero, Option.getD_some]

/-- The fraction that the search for a value ends with. -/
theorem exists_isBest (value : Rat) (bound : Nat) :
    ∃ f : Fraction, nearestByWalk value bound = f.toRat ∧ IsBest value (max bound 1) f := by
  obtain ⟨f, hbest, -, hf⟩ := exists_walk_eq_some value bound
  exact ⟨f, hf, hbest⟩

theorem Fraction.Admissible.num_toRat {bound : Nat} {f : Fraction} (h : Admissible bound f) :
    f.toRat.num = f.num := by
  have hq := Rat.num_div_eq_of_coprime (a := (f.num : Int)) (b := (f.den : Int))
    (Int.natCast_pos.2 h.pos) (by simpa using h.coprime)
  simpa [toRat] using hq

theorem Fraction.Admissible.den_toRat {bound : Nat} {f : Fraction} (h : Admissible bound f) :
    f.toRat.den = f.den := by
  have hq := Rat.den_div_eq_of_coprime (a := (f.num : Int)) (b := (f.den : Int))
    (Int.natCast_pos.2 h.pos) (by simpa using h.coprime)
  exact_mod_cast (by simpa [toRat] using hq : (f.toRat.den : Int) = f.den)

/-- Every rational of the unit interval is the value of an admissible fraction with its
numerator and denominator. -/
theorem exists_candidate {c : Rat} (h0 : 0 ≤ c) (h1 : c ≤ 1) :
    ∃ f : Fraction, f.toRat = c ∧ (f.num : Int) = c.num ∧ f.den = c.den ∧
      Admissible c.den f := by
  have hnum : (c.num.toNat : Int) = c.num := Int.toNat_of_nonneg (Rat.num_nonneg.2 h0)
  refine ⟨⟨c.num.toNat, c.den⟩, ?_, hnum, rfl, c.den_pos, ?_, le_rfl, ?_⟩
  · have hcast : ((c.num.toNat : Nat) : Rat) = c.num := by exact_mod_cast hnum
    rw [toRat, hcast, Rat.num_div_den]
  · have hle : c.num ≤ c.den := by
      rw [← Rat.num_div_den c, div_le_one (Nat.cast_pos.2 c.den_pos)] at h1
      exact_mod_cast h1
    exact Int.toNat_le.2 hle
  · have hco := c.reduced
    rwa [← hnum, Int.natAbs_natCast] at hco

/-- **The walk finds the best approximation.** For every value and every bound of at
most 2 ^ 63 it stays within 64 bits and ends: within as many steps as the bound says it
has an answer, and with more steps it has the same. The answer lies in the unit interval,
its denominator fits the bound, no fraction of the unit interval within the bound is
closer, and of those that are as close it has the smallest denominator and then the
smallest numerator. -/
theorem nearestByWalk_is_best (value : Rat) (bound : Nat) (hbound : bound ≤ 2 ^ 63) :
    canWalk value bound = true ∧
      (∃ f : Fraction, (∀ more, walk value (max bound 1) (max bound 1 + more) zero one
        (one.closer zero value) = some f) ∧ nearestByWalk value bound = f.toRat) ∧
      0 ≤ nearestByWalk value bound ∧ nearestByWalk value bound ≤ 1 ∧
      (nearestByWalk value bound).den ≤ max bound 1 ∧
      (∀ p q : Nat, p ≤ q → 1 ≤ q → q ≤ max bound 1 →
        |nearestByWalk value bound - value| ≤ |(p : Rat) / q - value|) ∧
      ∀ c : Rat, 0 ≤ c → c ≤ 1 → c.den ≤ max bound 1 →
        |c - value| = |nearestByWalk value bound - value| →
        (nearestByWalk value bound).den < c.den ∨
          ((nearestByWalk value bound).den = c.den ∧ (nearestByWalk value bound).num ≤ c.num) := by
  have hstart := Search.start value (Nat.le_max_right bound 1)
  obtain ⟨f, ⟨hadm, hbest⟩, hwalk, hf⟩ := exists_walk_eq_some value bound
  refine ⟨hstart.walkFits (by omega) _, ⟨f, hwalk, hf⟩, ?_⟩
  rw [hf]
  refine ⟨f.toRat_nonneg, toRat_le_one hadm.pos hadm.le, hadm.den_toRat ▸ hadm.den_le, ?_, ?_⟩
  · intro p q hpq hq hqb
    rcases hbest ⟨p, q⟩ hq hpq hqb with hlt | ⟨he, -⟩
    · exact hlt.le
    · exact he.le
  · intro c h0 h1 hden hclose
    obtain ⟨k, rfl, hknum, hkden, hk⟩ := exists_candidate h0 h1
    rw [hadm.den_toRat, hadm.num_toRat, ← hknum, ← hkden]
    rcases hbest k hk.pos hk.le (hkden ▸ hden) with hlt | ⟨-, hlex⟩
    · exact absurd hclose hlt.ne'
    · exact_mod_cast hlex

/-- 1/3 and 1/2 are equally close to 5/12, and the smaller denominator wins. The walk meets
both in its first two steps, has no answer then, and ends with the third. -/
theorem nearest_five_twelfths :
    3 ≤ 2 ^ 63 ∧ nearestByWalk (5 / 12) 3 = 1 / 2 ∧ canWalk (5 / 12) 3 = true ∧
      walk (5 / 12) 3 2 zero one (one.closer zero (5 / 12)) = none ∧
      (∀ more, walk (5 / 12) 3 (3 + more) zero one (one.closer zero (5 / 12)) = some ⟨1, 2⟩) ∧
      ∀ p q : Nat, p ≤ q → 1 ≤ q → q ≤ 3 →
        |nearestByWalk (5 / 12) 3 - 5 / 12| ≤ |(p : Rat) / q - 5 / 12| := by
  obtain ⟨hfits, ⟨f, hwalk, -⟩, -, -, -, hclosest, -⟩ :=
    nearestByWalk_is_best (5 / 12) 3 (by decide)
  have hrun : nearestByWalk (5 / 12) 3 = 1 / 2 ∧
      walk (5 / 12) 3 2 zero one (one.closer zero (5 / 12)) = none ∧
      walk (5 / 12) 3 3 zero one (one.closer zero (5 / 12)) = some ⟨1, 2⟩ := by decide +kernel
  obtain ⟨hnearest, htwo, hthree⟩ := hrun
  obtain rfl : f = ⟨1, 2⟩ := Option.some_inj.1 ((hwalk 0).symm.trans hthree)
  exact ⟨by decide, hnearest, hfits, htwo, hwalk, hclosest⟩

end StochasticGame
