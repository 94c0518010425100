import StochasticGame.Proofs.Approximation.Table

/-!
# StochasticGame.Proofs.Approximation.WordSize

**Which walks stay within 64 bits.** A walk adds the numerators and the denominators of
its ends before it compares the sum with the bound, so it may compute one mediant whose
denominator is beyond the bound. Whether that one has 64 bits depends on the value.

* `mediants` lists what a walk computes.
* `Around` is what the ends of a walk have in common. The walk for a value passes all
  pairs of fractions that are around it, and no others.
* Hence a walk leaves the 64 bits exactly if some pair around the value has
  denominators whose sum does. Both may be as large as the bound, but they are
  coprime, so bounds up to 2 ^ 63 are safe for every value and no larger one is.
-/

namespace StochasticGame

namespace Fraction

variable {l r : Fraction} {value : Rat} {bound : Nat}

theorem fits_iff {f : Fraction} : f.fits = true ↔ f.num < 2 ^ 64 ∧ f.den < 2 ^ 64 := by
  rw [fits, Bool.and_eq_true, decide_eq_true_eq, decide_eq_true_eq]
  exact Iff.rfl

/-! ### The mediants of a walk -/

/-- The mediants that at most the given number of steps of the walk between `left` and
`right` computes, the last one included, which ends the walk. -/
def walkMediants (value : Rat) (bound : Nat) : Nat → Fraction → Fraction → List Fraction
  | 0, _, _ => []
  | steps + 1, left, right =>
    let middle := left.mediant right
    middle ::
      if bound < middle.den then []
      else
        match middle.compareTo value with
        | .eq => []
        | .lt => walkMediants value bound steps middle right
        | .gt => walkMediants value bound steps left middle

theorem walkFits_iff {steps : Nat} :
    walkFits value bound steps l r = true ↔
      ∀ m ∈ walkMediants value bound steps l r, m.fits = true := by
  induction steps generalizing l r with
  | zero => simp [walkFits, walkMediants]
  | succ steps ih =>
    rw [walkFits, walkMediants, List.forall_mem_cons]
    by_cases hfits : (l.mediant r).fits = true
    · simp only [hfits, if_true, true_and]
      split
      · simp
      · cases (l.mediant r).compareTo value with
        | eq => simp
        | lt => exact ih
        | gt => exact ih
    · simp [hfits]

end Fraction

/-- The mediants that the walk for a value and a bound computes. -/
def mediants (value : Rat) (bound : Nat) : List Fraction :=
  Fraction.walkMediants value (max bound 1) (max bound 1) .zero .one

theorem canWalk_iff {value : Rat} {bound : Nat} :
    canWalk value bound = true ↔ ∀ m ∈ mediants value bound, m.num < 2 ^ 64 ∧ m.den < 2 ^ 64 := by
  simp only [canWalk, Fraction.walkFits_iff, Fraction.fits_iff, mediants]

namespace Fraction

variable {l r l' r' m : Fraction} {value : Rat} {bound : Nat}

/-! ### Nested neighbours -/

/-- The mediant of neighbours around a smaller pair has at most the denominator of an end
of that pair. -/
theorem Neighbours.mediant_den_le (h : Neighbours l r) (ht : Neighbours l' r')
    (hl : l.toRat ≤ l'.toRat) (hr : r'.toRat ≤ r.toRat) (hne : ¬ (l = l' ∧ r = r')) :
    (l.mediant r).den ≤ l'.den ∨ (l.mediant r).den ≤ r'.den := by
  rcases hl.lt_or_eq with hlt | hleft
  · exact Or.inl (h.den_le_of_between ht.left_pos hlt (ht.toRat_lt.trans_le hr))
  rcases hr.lt_or_eq with hlt | hright
  · exact Or.inr (h.den_le_of_between ht.right_pos (hl.trans_lt ht.toRat_lt) hlt)
  have hll := eq_of_toRat_eq h.left_pos h.coprime_left ht.left_pos ht.coprime_left hleft
  have hrr := eq_of_toRat_eq ht.right_pos ht.coprime_right h.right_pos h.coprime_right hright
  exact absurd ⟨hll, hrr.symm⟩ hne

/-- That mediant does not lie inside the smaller pair. -/
theorem Neighbours.mediant_outside (h : Neighbours l r) (ht : Neighbours l' r')
    (hl : l.toRat ≤ l'.toRat) (hr : r'.toRat ≤ r.toRat) (hne : ¬ (l = l' ∧ r = r')) :
    (l.mediant r).toRat ≤ l'.toRat ∨ r'.toRat ≤ (l.mediant r).toRat := by
  by_contra hin
  rw [not_or, not_le, not_le] at hin
  have hden := ht.den_le_of_between h.mediant_left.right_pos hin.1 hin.2
  have hpos := ht.left_pos
  have hpos' := ht.right_pos
  rcases h.mediant_den_le ht hl hr hne with hle | hle
  · omega
  · omega

/-! ### The ends of a walk -/

/-- Neighbours within a bound that have the value strictly between them, where 0 and 1
stand for all values below and above as well. -/
structure Around (value : Rat) (bound : Nat) (l r : Fraction) : Prop extends Neighbours l r where
  /-- The value is to the right of the left end. -/
  left_side : l.toRat < value ∨ l = zero
  /-- The value is to the left of the right end. -/
  right_side : value < r.toRat ∨ r = one
  /-- The left denominator fits the bound. -/
  left_den : l.den ≤ bound
  /-- The right denominator fits the bound. -/
  right_den : r.den ≤ bound

namespace Around

theorem start (value : Rat) (hb : 1 ≤ bound) : Around value bound zero one :=
  ⟨.zero_one, Or.inr rfl, Or.inr rfl, hb, hb⟩

theorem move_right (h : Around value bound l r) (hm : (l.mediant r).den ≤ bound)
    (hlt : (l.mediant r).toRat < value) : Around value bound (l.mediant r) r :=
  ⟨h.mediant_right, Or.inl hlt, h.right_side, hm, h.right_den⟩

theorem move_left (h : Around value bound l r) (hm : (l.mediant r).den ≤ bound)
    (hgt : value < (l.mediant r).toRat) : Around value bound l (l.mediant r) :=
  ⟨h.mediant_left, h.left_side, Or.inl hgt, h.left_den, hm⟩

/-- A value strictly inside the unit interval is strictly between the ends. -/
theorem between (h : Around value bound l r) (h0 : 0 < value) (h1 : value < 1) :
    l.toRat < value ∧ value < r.toRat := by
  constructor
  · rcases h.left_side with hlt | rfl
    · exact hlt
    · rwa [toRat_zero]
  · rcases h.right_side with hlt | rfl
    · exact hlt
    · rwa [toRat_one]

/-- A fraction to the left of a pair around the value is to the left of the value. -/
theorem lt_value (h : Around value bound l r) {x : Rat} (hx : 0 < x) (hle : x ≤ l.toRat) :
    x < value := by
  rcases h.left_side with hlt | rfl
  · exact hle.trans_lt hlt
  · rw [toRat_zero] at hle
    exact absurd hx hle.not_gt

/-- A fraction to the right of a pair around the value is to the right of the value. -/
theorem value_lt (h : Around value bound l r) {x : Rat} (hx : x < 1) (hle : r.toRat ≤ x) :
    value < x := by
  rcases h.right_side with hlt | rfl
  · exact hlt.trans_le hle
  · rw [toRat_one] at hle
    exact absurd hx hle.not_gt

/-- The walk computes only mediants of pairs around the value. -/
theorem of_mem_walkMediants (h : Around value bound l r) {steps : Nat}
    (hm : m ∈ walkMediants value bound steps l r) :
    ∃ l' r' : Fraction, Around value bound l' r' ∧ m = l'.mediant r' := by
  induction steps generalizing l r with
  | zero => simp [walkMediants] at hm
  | succ steps ih =>
    have hpos := h.mediant_left.right_pos
    rw [walkMediants, List.mem_cons] at hm
    rcases hm with rfl | hm
    · exact ⟨l, r, h, rfl⟩
    split at hm
    · simp at hm
    rename_i hle
    cases hcmp : (l.mediant r).compareTo value with
    | eq => simp [hcmp] at hm
    | lt =>
      rw [hcmp] at hm
      exact ih (h.move_right (Nat.le_of_not_lt hle) ((compareTo_eq_lt_iff hpos).1 hcmp)) hm
    | gt =>
      rw [hcmp] at hm
      exact ih (h.move_left (Nat.le_of_not_lt hle) ((compareTo_eq_gt_iff hpos).1 hcmp)) hm

/-- The walk from a pair around the value passes every pair inside. -/
theorem mediant_mem_walkMediants (h : Around value bound l r) (ht : Around value bound l' r')
    (hl : l.toRat ≤ l'.toRat) (hr : r'.toRat ≤ r.toRat) {steps : Nat} (hpos : 0 < steps)
    (hs : bound + 1 < steps + (l.den + r.den)) :
    l'.mediant r' ∈ walkMediants value bound steps l r := by
  induction steps generalizing l r with
  | zero => exact absurd hpos (lt_irrefl 0)
  | succ steps ih =>
    rw [walkMediants, List.mem_cons]
    by_cases he : l = l' ∧ r = r'
    · obtain ⟨rfl, rfl⟩ := he
      exact Or.inl rfl
    right
    -- not there yet: the mediant fits the bound and is an end of the next pair
    have hle : (l.mediant r).den ≤ bound := by
      rcases h.mediant_den_le ht.toNeighbours hl hr he with hd | hd
      · exact hd.trans ht.left_den
      · exact hd.trans ht.right_den
    have hden : (l.mediant r).den = l.den + r.den := rfl
    have hlpos := h.left_pos
    have hrpos := h.right_pos
    have hmpos := h.mediant_left.right_pos
    rw [if_neg (Nat.not_lt.2 hle)]
    rcases h.mediant_outside ht.toNeighbours hl hr he with hout | hout
    · have hlt : (l.mediant r).toRat < value :=
        ht.lt_value (l.toRat_nonneg.trans_lt h.mediant_left.toRat_lt) hout
      rw [(compareTo_eq_lt_iff hmpos).2 hlt]
      exact ih (h.move_right hle hlt) hout hr (by omega) (by omega)
    · have hgt : value < (l.mediant r).toRat :=
        ht.value_lt (h.mediant_right.toRat_lt.trans_le (toRat_le_one hrpos h.right_le)) hout
      rw [(compareTo_eq_gt_iff hmpos).2 hgt]
      exact ih (h.move_left hle hgt) hl hout (by omega) (by omega)

end Around

end Fraction

open Fraction

/-- The walk computes the mediants of the pairs around the value. -/
theorem mem_mediants {value : Rat} {bound : Nat} {m : Fraction} :
    m ∈ mediants value bound ↔
      ∃ l r : Fraction, Around value (max bound 1) l r ∧ m = l.mediant r := by
  have hstart := Around.start value (Nat.le_max_right bound 1)
  constructor
  · exact hstart.of_mem_walkMediants
  · rintro ⟨l, r, h, rfl⟩
    refine hstart.mediant_mem_walkMediants h ?_ ?_ (by omega) (by simp only [zero, one]; omega)
    · rw [toRat_zero]
      exact l.toRat_nonneg
    · rw [toRat_one]
      exact toRat_le_one h.right_pos h.right_le

theorem canWalk_iff_around {value : Rat} {bound : Nat} :
    canWalk value bound = true ↔
      ∀ l r : Fraction, Around value (max bound 1) l r → l.den + r.den < 2 ^ 64 := by
  rw [canWalk_iff]
  constructor
  · intro h l r hlr
    exact (h (l.mediant r) (mem_mediants.2 ⟨l, r, hlr, rfl⟩)).2
  · intro h m hm
    obtain ⟨l, r, hlr, rfl⟩ := mem_mediants.1 hm
    have hden : (l.mediant r).den < 2 ^ 64 := h l r hlr
    exact ⟨hlr.mediant_le.trans_lt hden, hden⟩

/-- A value inside the unit interval whose denominator has 64 bits is safe at any bound. -/
theorem canWalk_of_den_lt {value : Rat} (bound : Nat) (h0 : 0 < value) (h1 : value < 1)
    (hden : value.den < 2 ^ 64) : canWalk value bound = true := by
  rw [canWalk_iff_around]
  intro l r h
  obtain ⟨hl, hr⟩ := h.between h0 h1
  obtain ⟨f, rfl, -, hfden, hadm⟩ := exists_candidate h0.le h1.le
  exact (h.den_le_of_between hadm.pos hl hr).trans_lt (hfden ▸ hden)

/-- Neighbours right above 1/2 whose denominators are the two odd numbers next to
2 ^ 63. -/
theorem neighbours_above_half :
    Neighbours ⟨2 ^ 62 + 1, 2 ^ 63 + 1⟩ ⟨2 ^ 62, 2 ^ 63 - 1⟩ :=
  ⟨by decide, by decide, by decide, by decide⟩

/-- Every value is safe up to the bound 2 ^ 63. Beyond it the mediant of the neighbours
above 1/2 is not. -/
theorem forall_canWalk_iff {bound : Nat} :
    (∀ value : Rat, canWalk value bound = true) ↔ bound ≤ 2 ^ 63 := by
  constructor
  · intro h
    by_contra hb
    have hn := neighbours_above_half
    have haround : Around (mediant ⟨2 ^ 62 + 1, 2 ^ 63 + 1⟩ ⟨2 ^ 62, 2 ^ 63 - 1⟩).toRat
        (max bound 1) ⟨2 ^ 62 + 1, 2 ^ 63 + 1⟩ ⟨2 ^ 62, 2 ^ 63 - 1⟩ :=
      ⟨hn, Or.inl hn.mediant_left.toRat_lt, Or.inl hn.mediant_right.toRat_lt,
        by simp only; omega, by simp only; omega⟩
    exact absurd (canWalk_iff_around.1 (h _) _ _ haround) (by decide)
  · exact fun hb value => canWalk_of_le value hb

/-- **Exactly the bounds up to 2 ^ 63 are safe.** A walk stays within 64 bits if and only
if all mediants that it computes do. They do for a value and a bound if and only if no
two neighbouring fractions within the bound enclose the value and have denominators
whose sum is 2 ^ 64 or more. So they do for every value if the bound is at most 2 ^ 63,
for no larger bound do they for every value, and they do at any bound for a value inside
the unit interval whose own denominator has 64 bits. -/
theorem mediants_have_64_bits_iff (value : Rat) (bound : Nat) :
    (canWalk value bound = true ↔
      ∀ m ∈ mediants value bound, m.num < 2 ^ 64 ∧ m.den < 2 ^ 64) ∧
    ((∀ m ∈ mediants value bound, m.num < 2 ^ 64 ∧ m.den < 2 ^ 64) ↔
      ∀ l r : Fraction, Around value (max bound 1) l r → l.den + r.den < 2 ^ 64) ∧
    ((∀ v : Rat, ∀ m ∈ mediants v bound, m.num < 2 ^ 64 ∧ m.den < 2 ^ 64) ↔ bound ≤ 2 ^ 63) ∧
    (0 < value → value < 1 → value.den < 2 ^ 64 →
      ∀ m ∈ mediants value bound, m.num < 2 ^ 64 ∧ m.den < 2 ^ 64) := by
  refine ⟨canWalk_iff, canWalk_iff.symm.trans canWalk_iff_around, ?_, ?_⟩
  · simp only [← canWalk_iff]
    exact forall_canWalk_iff
  · intro h0 h1 hden
    exact canWalk_iff.1 (canWalk_of_den_lt bound h0 h1 hden)

/-- The quotient of the 93rd and the 94th Fibonacci number is safe at the bound 2 ^ 63,
and the one before it, whose denominator has 64 bits, at the largest bound. -/
theorem golden_mediants_have_64_bits :
    (∀ m ∈ mediants (12200160415121876738 / 19740274219868223167) (2 ^ 63),
      m.num < 2 ^ 64 ∧ m.den < 2 ^ 64) ∧
    ((7540113804746346429 : Nat) / (12200160415121876738 : Nat) : Rat).den < 2 ^ 64 ∧
    ∀ m ∈ mediants ((7540113804746346429 : Nat) / (12200160415121876738 : Nat)) (2 ^ 64 - 1),
      m.num < 2 ^ 64 ∧ m.den < 2 ^ 64 := by
  have hden : ((7540113804746346429 : Nat) / (12200160415121876738 : Nat) : Rat).den < 2 ^ 64 :=
    (den_div_le (by decide)).trans_lt (by decide)
  obtain ⟨-, -, hbound, -⟩ :=
    mediants_have_64_bits_iff (12200160415121876738 / 19740274219868223167) (2 ^ 63)
  obtain ⟨-, -, -, hvalue⟩ := mediants_have_64_bits_iff
    ((7540113804746346429 : Nat) / (12200160415121876738 : Nat)) (2 ^ 64 - 1)
  exact ⟨hbound.2 le_rfl _, hden, hvalue (by norm_num) (by norm_num) hden⟩

/-- With the 93rd Fibonacci number as the bound, the walk for the quotient of the 93rd and
the 94th computes it as the mediant of the two quotients before. Its denominator does not
have 64 bits, while the bound has. -/
theorem golden_mediant_exceeds_64_bits :
    12200160415121876738 < 2 ^ 64 ∧
      canWalk (12200160415121876738 / 19740274219868223167) 12200160415121876738 = false ∧
      ∃ m ∈ mediants (12200160415121876738 / 19740274219868223167) 12200160415121876738,
        2 ^ 64 ≤ m.den := by
  have haround : Around (12200160415121876738 / 19740274219868223167) (max 12200160415121876738 1)
      ⟨7540113804746346429, 12200160415121876738⟩ ⟨4660046610375530309, 7540113804746346429⟩ :=
    ⟨⟨by decide, by decide, by decide, by decide⟩, Or.inl (by norm_num [toRat]),
      Or.inl (by norm_num [toRat]), by decide, by decide⟩
  refine ⟨by decide, ?_, _, mem_mediants.2 ⟨_, _, haround, rfl⟩, by decide⟩
  rw [← Bool.not_eq_true, canWalk_iff_around]
  intro h
  exact absurd (h _ _ haround) (by decide)

end StochasticGame
