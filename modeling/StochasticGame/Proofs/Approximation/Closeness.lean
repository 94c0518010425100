import Mathlib.Algebra.Order.Field.Basic
import Mathlib.Algebra.Order.Group.Abs
import Mathlib.Algebra.Order.Ring.Rat
import Mathlib.Data.Rat.Cast.Order
import Mathlib.Tactic.FieldSimp
import Mathlib.Tactic.Linarith
import Mathlib.Tactic.Ring
import StochasticGame.Approximation.Kind

/-!
# StochasticGame.Proofs.Approximation.Closeness

**What the comparisons of fractions mean.** The searches compare by
cross-multiplication. For positive denominators `Fraction.compareTo` is the order of
the rationals, and `Fraction.isCloser` is the strict part of a total order: distance
to the value first, then denominator, then numerator. `NoFarther` is that order.
-/

namespace StochasticGame

namespace Fraction

variable {f g h : Fraction} {value : Rat}

theorem toRat_nonneg (f : Fraction) : 0 ≤ f.toRat :=
  div_nonneg (Nat.cast_nonneg f.num) (Nat.cast_nonneg f.den)

@[simp] theorem toRat_zero : zero.toRat = 0 := by simp [toRat, zero]

@[simp] theorem toRat_one : one.toRat = 1 := by simp [toRat, one]

/-! ### Comparing to a value -/

theorem toRat_lt_iff (hf : 0 < f.den) :
    f.toRat < value ↔ (f.num : Int) * value.den < value.num * f.den := by
  have hf' : (0 : Rat) < f.den := Nat.cast_pos.2 hf
  have hv : (0 : Rat) < value.den := Nat.cast_pos.2 value.den_pos
  rw [toRat]
  nth_rewrite 1 [← Rat.num_div_den value]
  rw [div_lt_div_iff₀ hf' hv]
  exact_mod_cast Iff.rfl

theorem lt_toRat_iff (hf : 0 < f.den) :
    value < f.toRat ↔ value.num * f.den < (f.num : Int) * value.den := by
  have hf' : (0 : Rat) < f.den := Nat.cast_pos.2 hf
  have hv : (0 : Rat) < value.den := Nat.cast_pos.2 value.den_pos
  rw [toRat]
  nth_rewrite 1 [← Rat.num_div_den value]
  rw [div_lt_div_iff₀ hv hf']
  exact_mod_cast Iff.rfl

theorem compareTo_eq_lt_iff (hf : 0 < f.den) : f.compareTo value = .lt ↔ f.toRat < value := by
  rw [compareTo, compare_lt_iff_lt, toRat_lt_iff hf]

theorem compareTo_eq_gt_iff (hf : 0 < f.den) : f.compareTo value = .gt ↔ value < f.toRat := by
  rw [compareTo, compare_gt_iff_gt, lt_toRat_iff hf]

theorem compareTo_ne_gt_iff (hf : 0 < f.den) : f.compareTo value ≠ .gt ↔ f.toRat ≤ value := by
  rw [Ne, compareTo_eq_gt_iff hf, not_lt]

theorem compareTo_eq_eq_iff (hf : 0 < f.den) : f.compareTo value = .eq ↔ f.toRat = value := by
  rw [compareTo, compare_eq_iff_eq]
  constructor
  · intro he
    apply le_antisymm
    · rw [← not_lt, lt_toRat_iff hf, he]
      exact lt_irrefl _
    · rw [← not_lt, toRat_lt_iff hf, he]
      exact lt_irrefl _
  · intro he
    apply le_antisymm
    · rw [← not_lt, ← lt_toRat_iff hf, he]
      exact lt_irrefl _
    · rw [← not_lt, ← toRat_lt_iff hf, he]
      exact lt_irrefl _

/-- The gap is the distance times both denominators. -/
theorem gap_eq (hf : 0 < f.den) :
    (f.gap value : Rat) = |f.toRat - value| * (f.den * value.den) := by
  have hf' : (0 : Rat) < f.den := Nat.cast_pos.2 hf
  have hv : (0 : Rat) < value.den := Nat.cast_pos.2 value.den_pos
  have hpos : (0 : Rat) < f.den * value.den := mul_pos hf' hv
  rw [gap, Nat.cast_natAbs, Int.cast_abs, ← abs_of_pos hpos, ← abs_mul]
  congr 1
  rw [toRat]
  nth_rewrite 3 [← Rat.num_div_den value]
  field_simp
  push_cast
  ring

/-! ### Closeness -/

/-- `f` answers a search for the value at least as well as `g`: it is closer, or as
close with a smaller denominator, or with the same and no larger numerator. -/
def NoFarther (value : Rat) (f g : Fraction) : Prop :=
  |f.toRat - value| < |g.toRat - value| ∨
    (|f.toRat - value| = |g.toRat - value| ∧ (f.den < g.den ∨ (f.den = g.den ∧ f.num ≤ g.num)))

theorem NoFarther.refl (value : Rat) (f : Fraction) : NoFarther value f f :=
  Or.inr ⟨rfl, Or.inr ⟨rfl, le_rfl⟩⟩

theorem NoFarther.trans (hfg : NoFarther value f g) (hgh : NoFarther value g h) :
    NoFarther value f h := by
  rcases hfg with hlt | ⟨heq, hfg⟩
  · rcases hgh with hlt' | ⟨heq', -⟩
    · exact Or.inl (hlt.trans hlt')
    · exact Or.inl (heq' ▸ hlt)
  · rcases hgh with hlt' | ⟨heq', hgh⟩
    · exact Or.inl (heq ▸ hlt')
    · exact Or.inr ⟨heq.trans heq', by omega⟩

theorem NoFarther.total (value : Rat) (f g : Fraction) :
    NoFarther value f g ∨ NoFarther value g f := by
  rcases lt_trichotomy |f.toRat - value| |g.toRat - value| with hlt | heq | hgt
  · exact Or.inl (Or.inl hlt)
  · have hlex : (f.den < g.den ∨ (f.den = g.den ∧ f.num ≤ g.num)) ∨
        (g.den < f.den ∨ (g.den = f.den ∧ g.num ≤ f.num)) := by omega
    exact hlex.imp (fun h => Or.inr ⟨heq, h⟩) fun h => Or.inr ⟨heq.symm, h⟩
  · exact Or.inr (Or.inl hgt)

/-- A candidate is strictly closer unless the best answer is at least as good. -/
theorem isCloser_iff (hf : 0 < f.den) (hg : 0 < g.den) :
    f.isCloser g value = true ↔ ¬ NoFarther value g f := by
  have hf' : (0 : Rat) < f.den := Nat.cast_pos.2 hf
  have hg' : (0 : Rat) < g.den := Nat.cast_pos.2 hg
  have hpos : (0 : Rat) < f.den * g.den * value.den :=
    mul_pos (mul_pos hf' hg') (Nat.cast_pos.2 value.den_pos)
  have hmine : ((f.gap value * g.den : Nat) : Rat) =
      |f.toRat - value| * (f.den * g.den * value.den) := by
    rw [Nat.cast_mul, gap_eq hf]
    ring
  have hother : ((g.gap value * f.den : Nat) : Rat) =
      |g.toRat - value| * (f.den * g.den * value.den) := by
    rw [Nat.cast_mul, gap_eq hg]
    ring
  have hlt : f.gap value * g.den < g.gap value * f.den ↔
      |f.toRat - value| < |g.toRat - value| := by
    rw [← Nat.cast_lt (α := Rat), hmine, hother, mul_lt_mul_iff_left₀ hpos]
  have heq : f.gap value * g.den = g.gap value * f.den ↔
      |f.toRat - value| = |g.toRat - value| := by
    rw [← Nat.cast_inj (R := Rat), hmine, hother, mul_left_inj' hpos.ne']
  simp only [isCloser, Bool.or_eq_true, Bool.and_eq_true, decide_eq_true_eq, hlt, heq, NoFarther,
    not_or, not_and, not_lt]
  constructor
  · rintro (h | ⟨he, h⟩)
    · exact ⟨h.le, fun he => absurd he h.ne'⟩
    · exact ⟨he.le, fun _ => by omega⟩
  · rintro ⟨hle, h⟩
    rcases hle.lt_or_eq with hl | he
    · exact Or.inl hl
    · have := h he.symm
      exact Or.inr ⟨he, by omega⟩

theorem closer_noFarther_left (hf : 0 < f.den) (hg : 0 < g.den) :
    NoFarther value (f.closer g value) f := by
  unfold closer
  split
  · exact NoFarther.refl value f
  · rename_i h
    rw [isCloser_iff hf hg, not_not] at h
    exact h

theorem closer_noFarther_right (hf : 0 < f.den) (hg : 0 < g.den) :
    NoFarther value (f.closer g value) g := by
  unfold closer
  split
  · rename_i h
    rw [isCloser_iff hf hg] at h
    exact (NoFarther.total value f g).resolve_right h
  · exact NoFarther.refl value g

theorem closer_eq_or (f g : Fraction) (value : Rat) :
    f.closer g value = f ∨ f.closer g value = g := by
  unfold closer
  split
  · exact Or.inl rfl
  · exact Or.inr rfl

end Fraction

/-- Every search answers with a non-negative number. -/
theorem Approximant.nearest_nonneg (a : Approximant) (value : Rat) (bound : Nat) :
    0 ≤ a.nearest value bound := by
  cases a with
  | walk => exact Fraction.toRat_nonneg _
  | table t =>
    unfold Approximant.nearest FareyTable.nearest
    dsimp only
    split
    · exact Fraction.toRat_nonneg _
    · exact Fraction.toRat_nonneg _

end StochasticGame
