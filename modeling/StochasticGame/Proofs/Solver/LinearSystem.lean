import Mathlib.Algebra.BigOperators.Field
import Mathlib.LinearAlgebra.Matrix.Adjugate
import Mathlib.Tactic.FieldSimp
import Mathlib.Tactic.Linarith

/-!
# StochasticGame.Proofs.Solver.LinearSystem

**Denominators of the solution of a linear system.** Once the players of a game have
chosen their moves, the values of the average nodes solve a system `x = P x + c` with
non-negative `P`. If `P` dampens some positive vector, the determinant of `1 - P` is
positive and at most 1 (`det_one_sub_mem`): eliminating an unknown multiplies it by a
factor of the same range. By Cramer's rule, numbers `d i` that clear the denominators of
the rows, and a number `e` that clears those that remain in `c`, clear those of the
solution up to a factor of at most 1.
-/

namespace StochasticGame.LinearSystem

open Matrix

/-- The system that is left when the first unknown is eliminated. -/
def eliminate {k : Nat} (P : Matrix (Fin (k + 1)) (Fin (k + 1)) Rat) : Matrix (Fin k) (Fin k) Rat :=
  of fun i j => P i.succ j.succ + P i.succ 0 * P 0 j.succ / (1 - P 0 0)

theorem det_one_sub_succ {k : Nat} (P : Matrix (Fin (k + 1)) (Fin (k + 1)) Rat)
    (h : 1 - P 0 0 ≠ 0) : (1 - P).det = (1 - P 0 0) * (1 - eliminate P).det := by
  -- clear the first column below the diagonal
  let c : Fin (k + 1) → Rat := Fin.cons 0 fun i => P i.succ 0 / (1 - P 0 0)
  let A : Matrix (Fin (k + 1)) (Fin (k + 1)) Rat := of fun i j =>
    (1 - P) i j + c i * (1 - P) 0 j
  have hA : A.det = (1 - P).det :=
    det_eq_of_forall_row_eq_smul_add_const c 0 rfl fun i j => rfl
  have hdiag : (1 - P) 0 0 = 1 - P 0 0 := by rw [Matrix.sub_apply, one_apply_eq]
  have htop : A 0 0 = 1 - P 0 0 := by
    show (1 - P) 0 0 + 0 * (1 - P) 0 0 = 1 - P 0 0
    rw [zero_mul, add_zero, hdiag]
  have hzero : ∀ i : Fin k, A i.succ 0 = 0 := by
    intro i
    have hoff : (1 - P) i.succ 0 = -P i.succ 0 := by
      rw [Matrix.sub_apply, one_apply_ne (Fin.succ_ne_zero i), zero_sub]
    show (1 - P) i.succ 0 + P i.succ 0 / (1 - P 0 0) * (1 - P) 0 0 = 0
    rw [hdiag, hoff, div_mul_cancel₀ _ h, neg_add_cancel]
  have hrest : A.submatrix (Fin.succAbove 0) Fin.succ = 1 - eliminate P := by
    ext i j
    have hoff : (1 - P) 0 j.succ = -P 0 j.succ := by
      rw [Matrix.sub_apply, one_apply_ne (Fin.succ_ne_zero j).symm, zero_sub]
    have hunit : (1 : Matrix (Fin (k + 1)) (Fin (k + 1)) Rat) i.succ j.succ =
        (1 : Matrix (Fin k) (Fin k) Rat) i j := by simp [one_apply]
    show (1 - P) i.succ j.succ + P i.succ 0 / (1 - P 0 0) * (1 - P) 0 j.succ = (1 - eliminate P) i j
    rw [hoff, Matrix.sub_apply, Matrix.sub_apply, hunit, eliminate, of_apply]
    ring
  rw [← hA, det_succ_column_zero, Fin.sum_univ_succ, htop, hrest]
  simp [hzero]

/-- A non-negative system that dampens a positive vector has a determinant of at most 1. -/
theorem det_one_sub_fin_mem {k : Nat} (P : Matrix (Fin k) (Fin k) Rat) (u : Fin k → Rat)
    (hP : ∀ i j, 0 ≤ P i j) (hu : ∀ i, 0 < u i) (hlt : ∀ i, ∑ j, P i j * u j < u i) :
    0 < (1 - P).det ∧ (1 - P).det ≤ 1 := by
  induction k with
  | zero =>
    rw [det_fin_zero]
    exact ⟨zero_lt_one, le_rfl⟩
  | succ k ih =>
    have hrow := hlt 0
    rw [Fin.sum_univ_succ] at hrow
    have htail : 0 ≤ ∑ j : Fin k, P 0 j.succ * u j.succ :=
      Finset.sum_nonneg fun j _ => mul_nonneg (hP 0 j.succ) (hu j.succ).le
    have hpivot : 0 < 1 - P 0 0 := by nlinarith [hu 0]
    have hnonneg : ∀ i j, 0 ≤ eliminate P i j := fun i j =>
      add_nonneg (hP _ _) (div_nonneg (mul_nonneg (hP _ _) (hP _ _)) hpivot.le)
    -- the first unknown is replaced by what its own row makes of the others
    have hfirst : (∑ j : Fin k, P 0 j.succ * u j.succ) / (1 - P 0 0) ≤ u 0 := by
      rw [div_le_iff₀ hpivot]
      linarith
    have hdamp : ∀ i, ∑ j, eliminate P i j * u j.succ < u i.succ := by
      intro i
      have hi := hlt i.succ
      rw [Fin.sum_univ_succ] at hi
      have hsplit : ∑ j, eliminate P i j * u j.succ = ∑ j : Fin k, P i.succ j.succ * u j.succ +
          P i.succ 0 * ((∑ j : Fin k, P 0 j.succ * u j.succ) / (1 - P 0 0)) := by
        rw [Finset.sum_div, Finset.mul_sum, ← Finset.sum_add_distrib]
        refine Finset.sum_congr rfl fun j _ => ?_
        simp only [eliminate, of_apply]
        ring
      rw [hsplit]
      linarith [mul_le_mul_of_nonneg_left hfirst (hP i.succ 0)]
    obtain ⟨hpos, hle⟩ := ih (eliminate P) (fun i => u i.succ) hnonneg (fun i => hu i.succ) hdamp
    rw [det_one_sub_succ P hpivot.ne']
    exact ⟨mul_pos hpivot hpos, mul_le_one₀ (by linarith [hP 0 0]) hpos.le hle⟩

variable {ι : Type} [Fintype ι] [DecidableEq ι]

theorem det_one_sub_mem (P : Matrix ι ι Rat) (u : ι → Rat) (hP : ∀ i j, 0 ≤ P i j)
    (hu : ∀ i, 0 < u i) (hlt : ∀ i, ∑ j, P i j * u j < u i) :
    0 < (1 - P).det ∧ (1 - P).det ≤ 1 := by
  let e := (Fintype.equivFin ι).symm
  have hsub : (1 - P).submatrix e e = 1 - P.submatrix e e := by
    ext i j
    simp [one_apply]
  rw [← det_submatrix_equiv_self e, hsub]
  refine det_one_sub_fin_mem _ (fun i => u (e i)) (fun i j => hP _ _) (fun i => hu _) ?_
  intro i
  have hi := hlt (e i)
  rwa [← Equiv.sum_comp e] at hi

/-- The rationals that are integers. -/
abbrev integers : Subring Rat := (Int.castRingHom Rat).range

/-- A rational that a positive integer clears has a denominator of at most that integer. -/
theorem den_le_of_mul_mem {x : Rat} {m : Int} (hm : 0 < m) (h : (m : Rat) * x ∈ integers) :
    ((x.den : Nat) : Int) ≤ m := by
  obtain ⟨z, hz⟩ := h
  have hx : x = Rat.divInt z m := by
    rw [Rat.divInt_eq_div, eq_div_iff (by exact_mod_cast hm.ne'), mul_comm]
    exact hz.symm
  rw [hx]
  exact Int.le_of_dvd hm (Rat.den_dvd z m)

/-- Cramer's rule. -/
theorem det_mul_eq (M : Matrix ι ι Rat) (x : ι → Rat) (i : ι) :
    M.det * x i = ∑ j, M.adjugate i j * (M *ᵥ x) j := by
  have h : (M.adjugate * M) *ᵥ x = M.det • x := by
    rw [adjugate_mul, smul_mulVec, one_mulVec]
  rw [← mulVec_mulVec] at h
  exact (congrFun h i).symm

/-- What clears the right side of an integer system clears the solution, together with the
determinant. -/
theorem mul_det_mul_mem (N : Matrix ι ι Int) {x : ι → Rat} {e : Int}
    (h : ∀ j, (e : Rat) * ((Int.castRingHom Rat).mapMatrix N *ᵥ x) j ∈ integers) (i : ι) :
    ((e * N.det : Int) : Rat) * x i ∈ integers := by
  have hcramer : (N.det : Rat) * x i =
      ∑ j, (N.adjugate i j : Rat) * ((Int.castRingHom Rat).mapMatrix N *ᵥ x) j := by
    have hdet := det_mul_eq ((Int.castRingHom Rat).mapMatrix N) x i
    rwa [← RingHom.map_det, ← RingHom.map_adjugate] at hdet
  rw [Int.cast_mul, mul_assoc, hcramer, Finset.mul_sum]
  refine Subring.sum_mem _ fun j _ => ?_
  rw [mul_left_comm]
  exact Subring.mul_mem _ ⟨_, rfl⟩ (h j)

/-- The system `x = P x + c` with its rows multiplied by the `d i`. -/
theorem scaled_mulVec {P : Matrix ι ι Rat} {c x d : ι → Rat}
    (hx : ∀ i, x i = ∑ j, P i j * x j + c i) (i : ι) :
    ((of fun i j => d i * (1 - P) i j) *ᵥ x) i = d i * c i := by
  have hrow : ((1 - P) *ᵥ x) i = c i := by
    rw [sub_mulVec, one_mulVec, Pi.sub_apply, hx i]
    exact add_sub_cancel_left _ (c i)
  rw [← hrow]
  simp only [mulVec, dotProduct, of_apply, mul_assoc, Finset.mul_sum]

/-- **Denominators of a solution.** If the `d i` clear the denominators of the rows of `P`,
and with `e` those of `c`, no denominator of a solution of `x = P x + c` exceeds the
product of them all. -/
theorem den_le_of_solution {P : Matrix ι ι Rat} {c x u : ι → Rat} {d : ι → Nat} {e : Nat}
    (hx : ∀ i, x i = ∑ j, P i j * x j + c i) (hP : ∀ i j, 0 ≤ P i j) (hu : ∀ i, 0 < u i)
    (hlt : ∀ i, ∑ j, P i j * u j < u i) (hd : ∀ i, 0 < d i) (he : 0 < e)
    (hrow : ∀ i j, (d i : Rat) * P i j ∈ integers) (hrest : ∀ i, (e * d i : Rat) * c i ∈ integers)
    (i : ι) : (x i).den ≤ e * ∏ j, d j := by
  -- the integer matrix of the cleared system
  have hentry : ∀ i j, ∃ z : Int, (z : Rat) = d i * (1 - P) i j := by
    intro i j
    rw [Matrix.sub_apply, mul_sub, one_apply]
    refine Subring.sub_mem _ ?_ (hrow i j)
    split
    · exact ⟨d i, by simp⟩
    · exact ⟨0, by simp⟩
  choose N hN using hentry
  have hM : (Int.castRingHom Rat).mapMatrix (of N) = of fun i j => (d i : Rat) * (1 - P) i j := by
    ext i j
    exact hN i j
  have hclear : (((e : Int) * (of N).det : Int) : Rat) * x i ∈ integers := by
    refine mul_det_mul_mem (of N) ?_ i
    intro j
    rw [hM, scaled_mulVec hx, ← mul_assoc]
    exact hrest j
  have hdet : ((of N).det : Rat) = (∏ j, (d j : Rat)) * (1 - P).det := by
    rw [← det_mul_column, ← hM]
    exact (Int.castRingHom Rat).map_det (of N)
  obtain ⟨hpos, hle⟩ := det_one_sub_mem P u hP hu hlt
  have hprod : (0 : Rat) < ∏ j, (d j : Rat) := Finset.prod_pos fun j _ => Nat.cast_pos.2 (hd j)
  have hdetpos : 0 < (of N).det := by
    have h := mul_pos hprod hpos
    rw [← hdet] at h
    exact_mod_cast h
  have hdetle : (of N).det ≤ ∏ j, (d j : Int) := by
    have h := mul_le_of_le_one_right hprod.le hle
    rw [← hdet] at h
    exact_mod_cast h
  have hall : ((x i).den : Int) ≤ e * ∏ j, (d j : Int) :=
    calc ((x i).den : Int) ≤ e * (of N).det :=
          den_le_of_mul_mem (mul_pos (Int.natCast_pos.2 he) hdetpos) hclear
      _ ≤ e * ∏ j, (d j : Int) := mul_le_mul_of_nonneg_left hdetle (Int.natCast_nonneg e)
  exact_mod_cast hall

end StochasticGame.LinearSystem
