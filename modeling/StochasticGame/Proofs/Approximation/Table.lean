import StochasticGame.Proofs.Approximation.Walk
import StochasticGame.Solver.Settings

/-!
# StochasticGame.Proofs.Approximation.Table

**The table finds the same fraction as the walk.** The table of an order holds exactly
the admissible fractions of that order, sorted. A query splits it at the value; the
last entry below and the first entry above whose denominators fit beat all other
entries on their sides. Both searches thus answer with the best fraction, and there is
only one.
-/

namespace StochasticGame

open Fraction

namespace FareyTable

variable {f : Fraction} {value : Rat} {bound n : Nat}

/-! ### The entries -/

theorem mem_withDenominator {q : Nat} :
    f ∈ withDenominator q ↔ f.den = q ∧ 0 < f.num ∧ f.num < q ∧ f.num.Coprime q := by
  obtain ⟨p, d⟩ := f
  simp only [withDenominator, List.mem_map, List.mem_filter, List.mem_range, decide_eq_true_eq,
    Fraction.mk.injEq]
  constructor
  · rintro ⟨p', ⟨hlt, hpos, hco⟩, rfl, rfl⟩
    exact ⟨rfl, hpos, hlt, hco⟩
  · rintro ⟨rfl, hpos, hlt, hco⟩
    exact ⟨p, ⟨hlt, hpos, hco⟩, rfl, rfl⟩

theorem mem_reducedFractions (hn : 1 ≤ n) : f ∈ reducedFractions n ↔ Admissible n f := by
  have hmem : f ∈ reducedFractions n ↔ f = .zero ∨ f = .one ∨
      (2 ≤ f.den ∧ f.den ≤ n ∧ 0 < f.num ∧ f.num < f.den ∧ f.num.Coprime f.den) := by
    simp only [reducedFractions, List.mem_cons, List.mem_flatMap, List.mem_filter, List.mem_range,
      decide_eq_true_eq, mem_withDenominator]
    constructor
    · rintro (h | h | ⟨q, ⟨hq, h2⟩, rfl, hpos, hlt, hco⟩)
      · exact Or.inl h
      · exact Or.inr (Or.inl h)
      · exact Or.inr (Or.inr ⟨h2, Nat.le_of_lt_succ hq, hpos, hlt, hco⟩)
    · rintro (h | h | ⟨h2, hq, hpos, hlt, hco⟩)
      · exact Or.inl h
      · exact Or.inr (Or.inl h)
      · exact Or.inr (Or.inr ⟨f.den, ⟨Nat.lt_succ_of_le hq, h2⟩, rfl, hpos, hlt, hco⟩)
  rw [hmem]
  constructor
  · rintro (rfl | rfl | ⟨h2, hq, hpos, hlt, hco⟩)
    · exact ⟨by decide, by decide, hn, by decide⟩
    · exact ⟨by decide, by decide, hn, by decide⟩
    · exact ⟨by omega, hlt.le, hq, hco⟩
  · intro h
    obtain ⟨p, q⟩ := f
    obtain ⟨hpos, hle, hq, hco⟩ := h
    simp only at hpos hle hq hco
    by_cases h1 : q = 1
    · subst h1
      have hp : p = 0 ∨ p = 1 := by omega
      rcases hp with rfl | rfl
      · exact Or.inl rfl
      · exact Or.inr (Or.inl rfl)
    · -- neither 0 nor the denominator is coprime to it
      have hp0 : p ≠ 0 := by
        rintro rfl
        exact h1 ((Nat.coprime_zero_left q).1 hco)
      have hpq : p ≠ q := by
        rintro rfl
        exact h1 ((Nat.coprime_self p).1 hco)
      have h2 : 2 ≤ q := by omega
      have hp : 0 < p := by omega
      have hlt : p < q := by omega
      exact Or.inr (Or.inr ⟨h2, hq, hp, hlt, hco⟩)

theorem mem_entries : f ∈ (ofOrder n).entries ↔ Admissible (max n 1) f := by
  rw [ofOrder, List.mem_toArray, (List.mergeSort_perm _ _).mem_iff,
    mem_reducedFractions (Nat.le_max_right n 1)]

/-- The entries are in increasing order. -/
theorem entries_mono {i j : Nat} {a b : Fraction} (hij : i ≤ j)
    (ha : (ofOrder n).entries[i]? = some a) (hb : (ofOrder n).entries[j]? = some b) :
    a.toRat ≤ b.toRat := by
  -- sorting by cross-multiplication is sorting by value, which is a total order
  have hsort : (reducedFractions (max n 1)).mergeSort le =
      (reducedFractions (max n 1)).mergeSort fun a b => decide (a.toRat ≤ b.toRat) := by
    have hmap := List.map_mergeSort (r := le) (s := fun a b => decide (a.toRat ≤ b.toRat)) (f := id)
      (l := reducedFractions (max n 1)) ?_
    · simpa using hmap
    · intro a ha b hb
      have hapos := ((mem_reducedFractions (Nat.le_max_right n 1)).1 ha).pos
      have hbpos := ((mem_reducedFractions (Nat.le_max_right n 1)).1 hb).pos
      simp only [le, id, decide_eq_decide]
      rw [← not_lt, ← not_lt, toRat_lt_toRat_iff hbpos hapos]
  have hpair : ((reducedFractions (max n 1)).mergeSort le).Pairwise
      fun a b => decide (a.toRat ≤ b.toRat) = true := by
    rw [hsort]
    apply List.pairwise_mergeSort
    · intro a b c hab hbc
      rw [decide_eq_true_eq] at hab hbc ⊢
      exact hab.trans hbc
    · intro a b
      rw [Bool.or_eq_true, decide_eq_true_eq, decide_eq_true_eq]
      exact le_total _ _
  rw [ofOrder, List.getElem?_toArray] at ha hb
  obtain ⟨hi, rfl⟩ := List.getElem?_eq_some_iff.1 ha
  obtain ⟨hj, rfl⟩ := List.getElem?_eq_some_iff.1 hb
  rcases hij.lt_or_eq with hlt | rfl
  · exact of_decide_eq_true (List.pairwise_iff_getElem.1 hpair i j hi hj hlt)
  · exact le_rfl

/-! ### The binary search -/

/-- The search finds where a predicate that holds on a first part stops to hold. -/
theorem splitPoint_spec (p : Fraction → Bool) (xs : Array Fraction)
    (hp : ∀ (i j : Nat) (a b : Fraction), i ≤ j → xs[i]? = some a → xs[j]? = some b →
      p b = true → p a = true)
    (lo hi : Nat) (hle : lo ≤ hi) (hhi : hi ≤ xs.size) :
    (∀ (i : Nat) (a : Fraction), lo ≤ i → i < splitPoint p xs lo hi → xs[i]? = some a →
      p a = true) ∧
      ∀ (i : Nat) (a : Fraction), splitPoint p xs lo hi ≤ i → i < hi → xs[i]? = some a →
        p a = false := by
  fun_induction splitPoint p xs lo hi with
  | case1 lo hi hlt mid hmid ih =>
    obtain ⟨hbelow, habove⟩ := ih (by omega) hhi
    refine ⟨?_, habove⟩
    intro i a hlo hi' ha
    rcases Nat.lt_or_ge mid i with hmi | hmi
    · exact hbelow i a hmi hi' ha
    · rw [Option.any_eq_true] at hmid
      obtain ⟨b, hb, hpb⟩ := hmid
      exact hp i mid a b hmi ha hb hpb
  | case2 lo hi hlt mid hmid ih =>
    obtain ⟨hbelow, habove⟩ := ih (by omega) (by omega)
    refine ⟨hbelow, ?_⟩
    intro i a hi' hihi ha
    rcases Nat.lt_or_ge i mid with hmi | hmi
    · exact habove i a hi' hmi ha
    · -- were it true here, it would be true in the middle
      by_contra hpa
      rw [Bool.not_eq_false] at hpa
      apply hmid
      have hlt' : mid < xs.size := by omega
      rw [Option.any_eq_true]
      exact ⟨xs[mid], Array.getElem?_eq_getElem hlt',
        hp mid i xs[mid] a hmi (Array.getElem?_eq_getElem hlt') ha hpa⟩
  | case3 lo hi hge =>
    exact ⟨fun i a h₁ h₂ => absurd (Nat.lt_of_le_of_lt h₁ h₂) (lt_irrefl lo),
      fun i a h₁ h₂ => absurd (Nat.lt_of_le_of_lt h₁ h₂) hge⟩

theorem exists_of_lastFitting {xs : Array Fraction} {i : Nat}
    (h : lastFitting xs bound i = some f) : ∃ j : Nat, j < i ∧ xs[j]? = some f ∧ f.den ≤ bound := by
  induction i with
  | zero => cases h
  | succ i ih =>
    rw [lastFitting] at h
    split at h
    · rename_i a ha
      split at h
      · rename_i hden
        obtain rfl := Option.some_inj.1 h
        exact ⟨i, Nat.lt_succ_self i, ha, hden⟩
      · obtain ⟨j, hj, hf⟩ := ih h
        exact ⟨j, Nat.lt_succ_of_lt hj, hf⟩
    · obtain ⟨j, hj, hf⟩ := ih h
      exact ⟨j, Nat.lt_succ_of_lt hj, hf⟩

/-- The last fitting entry is not before any fitting one. -/
theorem lastFitting_of_fits {xs : Array Fraction} {i k : Nat} {a : Fraction} (hk : k < i)
    (ha : xs[k]? = some a) (hden : a.den ≤ bound) :
    ∃ (j : Nat) (f : Fraction), lastFitting xs bound i = some f ∧ k ≤ j ∧ j < i ∧
      xs[j]? = some f := by
  induction i with
  | zero => exact absurd hk (Nat.not_lt_zero k)
  | succ i ih =>
    have hstep : k ≠ i → ∃ (j : Nat) (f : Fraction), lastFitting xs bound i = some f ∧ k ≤ j ∧
        j < i + 1 ∧ xs[j]? = some f := by
      intro hki
      obtain ⟨j, f, hf, hkj, hji, hx⟩ := ih (by omega)
      exact ⟨j, f, hf, hkj, Nat.lt_succ_of_lt hji, hx⟩
    rw [lastFitting]
    split
    · rename_i b hb
      split
      · exact ⟨i, b, rfl, Nat.le_of_lt_succ hk, Nat.lt_succ_self i, hb⟩
      · rename_i hnot
        apply hstep
        rintro rfl
        obtain rfl := Option.some_inj.1 (ha.symm.trans hb)
        exact hnot hden
    · rename_i hnone
      apply hstep
      rintro rfl
      rw [ha] at hnone
      cases hnone

theorem exists_of_firstFitting {xs : Array Fraction} {i : Nat}
    (h : firstFitting xs bound i = some f) :
    ∃ j : Nat, i ≤ j ∧ xs[j]? = some f ∧ f.den ≤ bound := by
  fun_induction firstFitting xs bound i with
  | case1 i hi hden =>
    obtain rfl := Option.some_inj.1 h
    exact ⟨i, le_rfl, Array.getElem?_eq_getElem hi, hden⟩
  | case2 i hi hden ih =>
    obtain ⟨j, hj, hf⟩ := ih h
    exact ⟨j, Nat.le_of_succ_le hj, hf⟩
  | case3 i hi => cases h

/-- The first fitting entry is not after any fitting one. -/
theorem firstFitting_of_fits {xs : Array Fraction} {i k : Nat} {a : Fraction} (hk : i ≤ k)
    (ha : xs[k]? = some a) (hden : a.den ≤ bound) :
    ∃ (j : Nat) (f : Fraction), firstFitting xs bound i = some f ∧ i ≤ j ∧ j ≤ k ∧
      xs[j]? = some f := by
  fun_induction firstFitting xs bound i with
  | case1 i hi hfits => exact ⟨i, xs[i], rfl, le_rfl, hk, Array.getElem?_eq_getElem hi⟩
  | case2 i hi hfits ih =>
    have hne : i ≠ k := by
      rintro rfl
      obtain rfl := Option.some_inj.1 (ha.symm.trans (Array.getElem?_eq_getElem hi))
      exact hfits hden
    obtain ⟨j, f, hf, hij, hjk, hx⟩ := ih (Nat.lt_of_le_of_ne hk hne)
    exact ⟨j, f, hf, Nat.le_of_succ_le hij, hjk, hx⟩
  | case3 i hi =>
    have hlt := (Array.getElem?_eq_some_iff.1 ha).1
    omega

/-! ### The answer -/

/-- The entries on both sides of a value. -/
structure Sides (value : Rat) (bound : Nat) (below above : Option Fraction) : Prop where
  /-- The entry below is an admissible fraction not above the value. -/
  below_spec : ∀ f ∈ below, Admissible bound f ∧ f.toRat ≤ value
  /-- The entry above is an admissible fraction above the value. -/
  above_spec : ∀ f ∈ above, Admissible bound f ∧ value < f.toRat
  /-- Every admissible fraction lies beyond one of them. -/
  beyond : ∀ c, Admissible bound c →
    (∃ f ∈ below, c.toRat ≤ f.toRat) ∨ ∃ f ∈ above, f.toRat ≤ c.toRat

theorem admissible_of_getElem? {i : Nat} {a : Fraction}
    (ha : (ofOrder n).entries[i]? = some a) : Admissible (max n 1) a :=
  mem_entries.1 (Array.mem_of_getElem? ha)

/-- The split point of a query parts the entries that are not above the value from the
rest. -/
theorem lt_splitPoint_iff {i : Nat} {a : Fraction} (ha : (ofOrder n).entries[i]? = some a) :
    i < splitPoint (fun f => f.compareTo value ≠ .gt) (ofOrder n).entries 0
      (ofOrder n).entries.size ↔ a.toRat ≤ value := by
  have hp : ∀ {i : Nat} {a : Fraction}, (ofOrder n).entries[i]? = some a →
      (decide (a.compareTo value ≠ .gt) = true ↔ a.toRat ≤ value) := by
    intro i a ha
    rw [decide_eq_true_eq, compareTo_ne_gt_iff (admissible_of_getElem? ha).pos]
  obtain ⟨hbelow, habove⟩ := splitPoint_spec (fun f => f.compareTo value ≠ .gt)
    (ofOrder n).entries
    (fun i j a b hij ha hb hpb => (hp ha).2 ((entries_mono hij ha hb).trans ((hp hb).1 hpb)))
    0 (ofOrder n).entries.size (Nat.zero_le _) le_rfl
  constructor
  · intro hi
    exact (hp ha).1 (hbelow i a (Nat.zero_le i) hi ha)
  · intro hle
    by_contra hi
    have hfalse := habove i a (Nat.le_of_not_lt hi) (Array.getElem?_eq_some_iff.1 ha).1 ha
    exact Bool.false_ne_true (hfalse.symm.trans ((hp ha).2 hle))

/-- The fitting entries next to the split point. -/
theorem sides_of_split (n : Nat) (value : Rat) (hbn : bound ≤ max n 1) :
    let split := splitPoint (fun f => f.compareTo value ≠ .gt) (ofOrder n).entries 0
      (ofOrder n).entries.size
    Sides value bound (lastFitting (ofOrder n).entries bound split)
      (firstFitting (ofOrder n).entries bound split) := by
  intro split
  refine ⟨?_, ?_, ?_⟩
  · intro f hf
    obtain ⟨j, hj, ha, hden⟩ := exists_of_lastFitting hf
    exact ⟨{ admissible_of_getElem? ha with den_le := hden }, (lt_splitPoint_iff ha).1 hj⟩
  · intro f hf
    obtain ⟨j, hj, ha, hden⟩ := exists_of_firstFitting hf
    have hgt := mt (lt_splitPoint_iff ha).2 (Nat.not_lt.2 hj)
    exact ⟨{ admissible_of_getElem? ha with den_le := hden }, not_le.1 hgt⟩
  · intro c hc
    have hmem : c ∈ (ofOrder n).entries := mem_entries.2 { hc with den_le := hc.den_le.trans hbn }
    obtain ⟨k, hk⟩ := Array.getElem?_of_mem hmem
    rcases Nat.lt_or_ge k split with hks | hks
    · obtain ⟨j, f, hf, hkj, -, hx⟩ := lastFitting_of_fits hks hk hc.den_le
      exact Or.inl ⟨f, hf, entries_mono hkj hk hx⟩
    · obtain ⟨j, f, hf, -, hjk, hx⟩ := firstFitting_of_fits hks hk hc.den_le
      exact Or.inr ⟨f, hf, entries_mono hjk hx hk⟩

/-- An admissible fraction that beats the entries on both sides is the best one. -/
theorem Sides.isBest {below above : Option Fraction} (h : Sides value bound below above)
    (hf : Admissible bound f) (hbelow : ∀ b ∈ below, NoFarther value f b)
    (habove : ∀ a ∈ above, NoFarther value f a) : IsBest value bound f := by
  refine ⟨hf, ?_⟩
  intro c hc hc1 hcb
  obtain ⟨k, hk, -, -, hadm⟩ := exists_candidate c.toRat_nonneg (toRat_le_one hc hc1)
  have hkc : NoFarther value k c := noFarther_of_toRat_eq hadm.pos hadm.coprime hc hk
  have hden : k.den ≤ bound := (den_le_of_toRat_eq hadm.pos hadm.coprime hc hk).trans hcb
  rcases h.beyond k { hadm with den_le := hden } with ⟨b, hb, hle⟩ | ⟨a, ha, hle⟩
  · obtain ⟨hadmb, hbv⟩ := h.below_spec b hb
    exact ((hbelow b hb).trans
      (noFarther_of_le_value hadmb.pos hadmb.coprime hadm.pos hle hbv)).trans hkc
  · obtain ⟨hadma, hva⟩ := h.above_spec a ha
    exact ((habove a ha).trans
      (noFarther_of_value_le hadma.pos hadma.coprime hadm.pos hle hva.le)).trans hkc

/-- A query of the table finds the best fraction. -/
theorem search_isBest (n : Nat) (value : Rat) (hb : 1 ≤ bound) (hbn : bound ≤ max n 1) :
    IsBest value bound ((ofOrder n).search value bound) := by
  have h := sides_of_split n value hbn
  unfold search
  dsimp only at h ⊢
  split
  · rename_i below above hbelow habove
    rw [hbelow, habove] at h
    have hadmb := (h.below_spec below rfl).1
    have hadma := (h.above_spec above rfl).1
    refine h.isBest ?_ ?_ ?_
    · rcases closer_eq_or above below value with he | he
      · rwa [he]
      · rwa [he]
    · rintro b ⟨⟩
      exact closer_noFarther_right hadma.pos hadmb.pos
    · rintro a ⟨⟩
      exact closer_noFarther_left hadma.pos hadmb.pos
  · rename_i below hbelow habove
    rw [hbelow, habove] at h
    refine h.isBest (h.below_spec below rfl).1 ?_ ?_
    · rintro b ⟨⟩
      exact NoFarther.refl value below
    · rintro a ⟨⟩
  · rename_i above hbelow habove
    rw [hbelow, habove] at h
    refine h.isBest (h.above_spec above rfl).1 ?_ ?_
    · rintro b ⟨⟩
    · rintro a ⟨⟩
      exact NoFarther.refl value above
  · -- 0 is always an entry that fits
    rename_i hbelow habove
    rw [hbelow, habove] at h
    rcases h.beyond zero ⟨by decide, by decide, hb, by decide⟩ with ⟨f, ⟨⟩, -⟩ | ⟨f, ⟨⟩, -⟩

end FareyTable

/-- There is only one best fraction. -/
theorem Fraction.IsBest.unique {value : Rat} {bound : Nat} {f g : Fraction}
    (hf : IsBest value bound f) (hg : IsBest value bound g) : f = g := by
  have hfg := hf.2 g hg.1.pos hg.1.le hg.1.den_le
  have hgf := hg.2 f hf.1.pos hf.1.le hf.1.den_le
  obtain ⟨p, q⟩ := f
  obtain ⟨p', q'⟩ := g
  rcases hfg with hlt | ⟨he, hlex⟩
  · rcases hgf with hgt | ⟨he', -⟩
    · exact absurd hlt (lt_asymm hgt)
    · exact absurd he'.symm hlt.ne
  · rcases hgf with hgt | ⟨-, hlex'⟩
    · exact absurd he.symm hgt.ne
    · simp only at hlex hlex'
      obtain rfl : q = q' := by omega
      obtain rfl : p = p' := by omega
      rfl

/-- The table answers like the walk. -/
theorem FareyTable.nearest_ofOrder (n : Nat) (value : Rat) (bound : Nat) :
    (FareyTable.ofOrder n).nearest value bound = nearestByWalk value bound := by
  unfold FareyTable.nearest
  split
  · rfl
  · rename_i hle
    have hbn : max bound 1 ≤ max n 1 := max_le (Nat.le_of_not_lt hle) (Nat.le_max_right n 1)
    obtain ⟨f, hf, hbest⟩ := exists_isBest value bound
    rw [hf, hbest.unique (FareyTable.search_isBest n value (Nat.le_max_right bound 1) hbn)]

/-- Two different fractions are at least the inverse of the product of their denominators
apart. -/
theorem inv_mul_den_le_abs_sub {a b : Rat} (h : a ≠ b) :
    1 / ((a.den : Rat) * b.den) ≤ |a - b| := by
  have hnum : (1 : Rat) ≤ |((a - b).num : Rat)| := by
    have h1 := Int.one_le_abs (Rat.num_ne_zero.2 (sub_ne_zero.2 h))
    exact_mod_cast h1
  have hden : ((a - b).den : Rat) ≤ a.den * b.den := by
    exact_mod_cast Nat.le_of_dvd (Nat.mul_pos a.den_pos b.den_pos) (Rat.sub_den_dvd a b)
  have hpos : (0 : Rat) < (a - b).den := Nat.cast_pos.2 (a - b).den_pos
  calc 1 / ((a.den : Rat) * b.den) ≤ 1 / (a - b).den := one_div_le_one_div_of_le hpos hden
    _ ≤ |((a - b).num : Rat)| / (a - b).den := div_le_div_of_nonneg_right hnum hpos.le
    _ = |a - b| := by rw [← abs_of_pos hpos, ← abs_div, Rat.num_div_den]

/-- A value is taken to a fraction within the bound that it is close to. -/
theorem nearestByWalk_of_close {c value : Rat} {bound : Nat} (h0 : 0 ≤ c) (h1 : c ≤ 1)
    (hden : c.den ≤ max bound 1)
    (hclose : |value - c| < 1 / (2 * ((max bound 1 : Nat) : Rat) ^ 2)) :
    nearestByWalk value bound = c := by
  obtain ⟨f, hf, hadm, hbest⟩ := exists_isBest value bound
  obtain ⟨k, rfl, -, hkden, hk⟩ := exists_candidate h0 h1
  have hle : |f.toRat - value| ≤ |k.toRat - value| := by
    rcases hbest k hk.pos hk.le (hkden ▸ hden) with hlt | ⟨he, -⟩
    · exact hlt.le
    · exact he.le
  rw [hf]
  by_contra hne
  -- different fractions within the bound are further apart than that
  have hB : (0 : Rat) < (max bound 1 : Nat) := Nat.cast_pos.2 (by omega)
  have hprod : (f.toRat.den : Rat) * k.toRat.den ≤ ((max bound 1 : Nat) : Rat) ^ 2 := by
    rw [sq]
    exact mul_le_mul (Nat.cast_le.2 (hadm.den_toRat ▸ hadm.den_le)) (Nat.cast_le.2 hden)
      (Nat.cast_nonneg _) hB.le
  have hpos : (0 : Rat) < f.toRat.den * k.toRat.den :=
    mul_pos (Nat.cast_pos.2 f.toRat.den_pos) (Nat.cast_pos.2 k.toRat.den_pos)
  have hapart := inv_mul_den_le_abs_sub hne
  have hgap := (one_div_le_one_div_of_le hpos hprod).trans hapart
  have htri : |f.toRat - k.toRat| ≤ |f.toRat - value| + |value - k.toRat| :=
    abs_sub_le f.toRat value k.toRat
  rw [abs_sub_comm k.toRat] at hle
  rw [← div_div, div_right_comm] at hclose
  linarith

/-- A fraction within the bound is its own nearest one. -/
theorem nearestByWalk_self {c : Rat} {bound : Nat} (h0 : 0 ≤ c) (h1 : c ≤ 1)
    (hden : c.den ≤ max bound 1) : nearestByWalk c bound = c := by
  have hB : (0 : Rat) < (max bound 1 : Nat) := Nat.cast_pos.2 (by omega)
  refine nearestByWalk_of_close h0 h1 hden ?_
  rw [sub_self, abs_zero]
  positivity

/-- Whichever search the settings choose, it answers as the walk does. -/
theorem SolverSettings.nearest_eq_walk (s : SolverSettings) (value : Rat) (bound : Nat) :
    s.buildApproximant.nearest value bound = nearestByWalk value bound := by
  unfold buildApproximant
  split
  · rfl
  · exact FareyTable.nearest_ofOrder _ value bound

/-- Every search answers with a number of the unit interval. -/
theorem nearestByWalk_mem_unit (value : Rat) (bound : Nat) :
    0 ≤ nearestByWalk value bound ∧ nearestByWalk value bound ≤ 1 := by
  obtain ⟨f, hf, hadm, -⟩ := exists_isBest value bound
  rw [hf]
  exact ⟨f.toRat_nonneg, toRat_le_one hadm.pos hadm.le⟩

theorem den_nearestByWalk_le (value : Rat) (bound : Nat) :
    (nearestByWalk value bound).den ≤ max bound 1 := by
  obtain ⟨f, hf, hadm, -⟩ := exists_isBest value bound
  rw [hf, hadm.den_toRat]
  exact hadm.den_le

/-- A second search for the nearest fraction finds nothing closer. -/
theorem nearestByWalk_idem (value : Rat) (bound : Nat) :
    nearestByWalk (nearestByWalk value bound) bound = nearestByWalk value bound := by
  have hunit := nearestByWalk_mem_unit value bound
  exact nearestByWalk_self hunit.1 hunit.2 (den_nearestByWalk_le value bound)

/-- Snapshots of 0 and 1 change nothing, whichever search the settings choose. -/
theorem SolverSettings.nearest_of_settled (s : SolverSettings) (bound : Nat) {c : Rat}
    (hc : c = 0 ∨ c = 1) : s.buildApproximant.nearest c bound = c := by
  rw [s.nearest_eq_walk]
  rcases hc with rfl | rfl
  · exact nearestByWalk_self le_rfl zero_le_one (Nat.le_max_right bound 1)
  · exact nearestByWalk_self zero_le_one le_rfl (Nat.le_max_right bound 1)

/-! ### Queries within 64 bits -/

theorem canWalk_of_le (value : Rat) {bound : Nat} (hb : bound ≤ 2 ^ 63) :
    canWalk value bound = true :=
  (Search.start value (Nat.le_max_right bound 1)).walkFits (by omega) _

theorem FareyTable.canAnswer_of_le (t : FareyTable) (value : Rat) {bound : Nat}
    (hb : bound ≤ 2 ^ 63) : t.canAnswer value bound = true := by
  rw [canAnswer, canWalk_of_le value hb, Bool.or_true]

theorem Approximant.canAnswer_of_le (a : Approximant) (value : Rat) {bound : Nat}
    (hb : bound ≤ 2 ^ 63) : a.canAnswer value bound = true := by
  cases a with
  | walk => exact canWalk_of_le value hb
  | table t => exact t.canAnswer_of_le value hb

/-! ### Recovering a fraction -/

/-- In lowest terms a denominator does not grow. -/
theorem den_div_le {p q : Nat} (hq : 1 ≤ q) : ((p : Rat) / q).den ≤ q := by
  have hdvd := Rat.den_dvd (p : Int) (q : Int)
  rw [Rat.divInt_eq_div, Int.natCast_dvd_natCast, Int.cast_natCast, Int.cast_natCast] at hdvd
  exact Nat.le_of_dvd hq hdvd

/-- **Close fractions are recovered exactly.** Every query with a bound of at most 2 ^ 63
is answered within 64 bits. Let a fraction of the unit interval have a denominator within
the bound. A value whose distance from it is less than half the inverse square of the
bound is taken to that very fraction, by the walk and by a table of any order. In
particular either search takes its own answers to themselves. -/
theorem nearest_of_close_fraction :
    (∀ (value : Rat) (bound n : Nat), bound ≤ 2 ^ 63 →
      canWalk value bound = true ∧ (FareyTable.ofOrder n).canAnswer value bound = true) ∧
    (∀ (p q bound n : Nat) (value : Rat), p ≤ q → 1 ≤ q → q ≤ bound →
      |value - (p : Rat) / q| < 1 / (2 * (bound : Rat) ^ 2) →
      nearestByWalk value bound = (p : Rat) / q ∧
        (FareyTable.ofOrder n).nearest value bound = (p : Rat) / q) ∧
    ∀ (value : Rat) (bound n : Nat),
      nearestByWalk (nearestByWalk value bound) bound = nearestByWalk value bound ∧
        (FareyTable.ofOrder n).nearest ((FareyTable.ofOrder n).nearest value bound) bound =
          (FareyTable.ofOrder n).nearest value bound := by
  simp only [FareyTable.nearest_ofOrder, and_self]
  refine ⟨?_, ?_, ?_⟩
  · intro value bound n hb
    exact ⟨canWalk_of_le value hb, FareyTable.canAnswer_of_le _ value hb⟩
  · intro p q bound _ value hpq hq hqb hclose
    have hmax : max bound 1 = bound := max_eq_left (hq.trans hqb)
    have hq' : (0 : Rat) < q := Nat.cast_pos.2 hq
    have hle : (p : Rat) / q ≤ 1 := (div_le_one hq').2 (Nat.cast_le.2 hpq)
    refine nearestByWalk_of_close (by positivity) hle ?_ ?_
    · rw [hmax]
      exact (den_div_le hq).trans hqb
    · rwa [hmax]
  · intro value bound _
    exact nearestByWalk_idem value bound

/-- 3/7 comes back from below and from above, and 1 from beyond the unit interval. The
bound is beyond the order of the first table and within that of the second. -/
theorem nearest_of_close_sevenths :
    10 ≤ 2 ^ 63 ∧ canWalk (428 / 1000) 10 = true ∧
      |(428 / 1000 : Rat) - (3 : Nat) / (7 : Nat)| < 1 / (2 * ((10 : Nat) : Rat) ^ 2) ∧
      nearestByWalk (428 / 1000) 10 = 3 / 7 ∧
      (FareyTable.ofOrder 4).nearest (429 / 1000) 10 = 3 / 7 ∧
      (FareyTable.ofOrder 20).nearest (1001 / 1000) 10 = 1 := by
  obtain ⟨hanswer, hclose, -⟩ := nearest_of_close_fraction
  have hbelow : |(428 / 1000 : Rat) - (3 : Nat) / (7 : Nat)| <
      1 / (2 * ((10 : Nat) : Rat) ^ 2) := by
    norm_num [abs_lt]
  have habove : |(429 / 1000 : Rat) - (3 : Nat) / (7 : Nat)| <
      1 / (2 * ((10 : Nat) : Rat) ^ 2) := by
    norm_num [abs_lt]
  have hbeyond : |(1001 / 1000 : Rat) - (2 : Nat) / (2 : Nat)| <
      1 / (2 * ((10 : Nat) : Rat) ^ 2) := by
    norm_num [abs_lt]
  have h₁ := (hclose 3 7 10 4 _ (by decide) (by decide) (by decide) hbelow).1
  have h₂ := (hclose 3 7 10 4 _ (by decide) (by decide) (by decide) habove).2
  have h₃ := (hclose 2 2 10 20 _ (by decide) (by decide) (by decide) hbeyond).2
  exact ⟨by decide, (hanswer _ 10 4 (by decide)).1, hbelow, by simpa using h₁, by simpa using h₂,
    by simpa using h₃⟩

end StochasticGame
