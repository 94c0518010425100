import StochasticGame.Proofs.Approximation.Table

/-!
# StochasticGame.Proofs.Approximation.FareySequence

**The table of an order is the Farey sequence of that order.** The fractions are
collected by denominator, with the ends 0 and 1 put in by hand, and then sorted. Every
reduced fraction is collected once, and two of them never have the same value, so the
sorted table increases strictly. The predicate of a query therefore changes once along
the table, which is what the binary search needs.
-/

namespace StochasticGame

open Fraction

namespace FareyTable

variable {value : Rat} {n : Nat}

/-! ### No fraction is repeated -/

theorem nodup_withDenominator (q : Nat) : (withDenominator q).Nodup := by
  refine List.Nodup.map ?_ (List.nodup_range.filter _)
  intro p p' he
  exact congrArg Fraction.num he

theorem nodup_reducedFractions (n : Nat) : (reducedFractions n).Nodup := by
  -- the ends have the denominator 1, all others have at least 2
  have hden : ∀ f ∈ ((List.range (n + 1)).filter (2 ≤ ·)).flatMap withDenominator, 2 ≤ f.den := by
    intro f hf
    obtain ⟨q, hq, hf⟩ := List.mem_flatMap.1 hf
    rw [List.mem_filter, decide_eq_true_eq] at hq
    exact (mem_withDenominator.1 hf).1 ▸ hq.2
  have hends : ∀ f : Fraction, f.den = 1 →
      f ∉ ((List.range (n + 1)).filter (2 ≤ ·)).flatMap withDenominator := by
    intro f hf hmem
    have := hden f hmem
    omega
  rw [reducedFractions, List.nodup_cons, List.nodup_cons, List.mem_cons, not_or,
    List.nodup_flatMap]
  refine ⟨⟨by decide, hends zero rfl⟩, hends one rfl, fun q _ => nodup_withDenominator q, ?_⟩
  refine (List.nodup_range.filter _).imp ?_
  intro q q' hne f hf hf'
  exact hne ((mem_withDenominator.1 hf).1.symm.trans (mem_withDenominator.1 hf').1)

/-- Different entries have different values, so their order is strict. -/
theorem entries_strictMono {i j : Nat} {a b : Fraction} (hij : i < j)
    (ha : (ofOrder n).entries[i]? = some a) (hb : (ofOrder n).entries[j]? = some b) :
    a.toRat < b.toRat := by
  refine (entries_mono hij.le ha hb).lt_of_ne ?_
  intro he
  have hadma := admissible_of_getElem? ha
  have hadmb := admissible_of_getElem? hb
  obtain rfl := eq_of_toRat_eq hadma.pos hadma.coprime hadmb.pos hadmb.coprime he
  have hnodup : ((reducedFractions (max n 1)).mergeSort le).Nodup :=
    (List.mergeSort_perm _ _).nodup_iff.2 (nodup_reducedFractions _)
  rw [ofOrder, List.getElem?_toArray] at ha hb
  exact List.nodup_iff_getElem?_ne_getElem?.1 hnodup i j hij (List.getElem?_eq_some_iff.1 hb).1
    (ha.trans hb.symm)

/-! ### The split of a query -/

theorem splitPoint_le (p : Fraction → Bool) (xs : Array Fraction) {lo hi : Nat} (hle : lo ≤ hi) :
    splitPoint p xs lo hi ≤ hi := by
  fun_induction splitPoint p xs lo hi with
  | case1 lo hi hlt mid hmid ih => exact ih (by omega)
  | case2 lo hi hlt mid hmid ih => exact (ih (by omega)).trans (by omega)
  | case3 lo hi hge => exact hle

/-- The entries before the split point are not above the value. -/
theorem toRat_le_of_mem_take {f : Fraction}
    (hf : f ∈ (ofOrder n).entries.toList.take (splitPoint (fun f => f.compareTo value ≠ .gt)
      (ofOrder n).entries 0 (ofOrder n).entries.size)) : f.toRat ≤ value := by
  obtain ⟨i, hi⟩ := List.mem_iff_getElem?.1 hf
  rw [List.getElem?_take, Array.getElem?_toList] at hi
  split at hi
  · rename_i hlt
    exact (lt_splitPoint_iff hi).1 hlt
  · cases hi

/-- The entries from the split point on are above the value. -/
theorem lt_toRat_of_mem_drop {f : Fraction}
    (hf : f ∈ (ofOrder n).entries.toList.drop (splitPoint (fun f => f.compareTo value ≠ .gt)
      (ofOrder n).entries 0 (ofOrder n).entries.size)) : value < f.toRat := by
  obtain ⟨i, hi⟩ := List.mem_iff_getElem?.1 hf
  rw [List.getElem?_drop, Array.getElem?_toList] at hi
  exact not_le.1 (mt (lt_splitPoint_iff hi).2 (Nat.not_lt.2 (Nat.le_add_right _ i)))

/-- **The table is the Farey sequence.** The entries increase strictly, and they are the
fractions of the unit interval in lowest terms whose denominators are at most the order.
For every value the table consists of the entries that are not above it followed by
those that are, and the binary search finds where the second part begins. -/
theorem entries_are_farey_sequence (n : Nat) :
    (ofOrder n).entries.toList.Pairwise (fun a b => a.toRat < b.toRat) ∧
    (∀ p q : Nat, ⟨p, q⟩ ∈ (ofOrder n).entries ↔
      p.gcd q = 1 ∧ 0 ≤ p ∧ p ≤ q ∧ 1 ≤ q ∧ q ≤ max n 1) ∧
    ∀ value : Rat, ∃ before after : List Fraction,
      (ofOrder n).entries.toList = before ++ after ∧
      (∀ f ∈ before, f.compareTo value ≠ .gt ∧ f.toRat ≤ value) ∧
      (∀ f ∈ after, f.compareTo value = .gt ∧ value < f.toRat) ∧
      splitPoint (fun f => f.compareTo value ≠ .gt) (ofOrder n).entries 0
        (ofOrder n).entries.size = before.length := by
  refine ⟨?_, ?_, ?_⟩
  · rw [List.pairwise_iff_getElem]
    intro i j hi hj hij
    exact entries_strictMono hij (Array.getElem?_eq_getElem hi) (Array.getElem?_eq_getElem hj)
  · intro p q
    rw [mem_entries]
    constructor
    · intro h
      exact ⟨h.coprime, Nat.zero_le p, h.le, h.pos, h.den_le⟩
    · rintro ⟨hco, -, hle, hpos, hden⟩
      exact ⟨hpos, hle, hden, hco⟩
  · intro value
    set split := splitPoint (fun f => f.compareTo value ≠ .gt) (ofOrder n).entries 0
      (ofOrder n).entries.size
    refine ⟨(ofOrder n).entries.toList.take split, (ofOrder n).entries.toList.drop split,
      (List.take_append_drop _ _).symm, ?_, ?_, ?_⟩
    · intro f hf
      have hadm := mem_entries.1 (Array.mem_toList_iff.1 (List.mem_of_mem_take hf))
      have hle := toRat_le_of_mem_take hf
      exact ⟨(compareTo_ne_gt_iff hadm.pos).2 hle, hle⟩
    · intro f hf
      have hadm := mem_entries.1 (Array.mem_toList_iff.1 (List.mem_of_mem_drop hf))
      have hgt := lt_toRat_of_mem_drop hf
      exact ⟨(compareTo_eq_gt_iff hadm.pos).2 hgt, hgt⟩
    · rw [List.length_take]
      exact (min_eq_left (splitPoint_le _ _ (Nat.zero_le _))).symm

/-- In the table of order 5 the entries up to 2/5 come first and 1/2 comes later, while
the fraction 2/4 does not occur. -/
theorem farey_sequence_split_at_two_fifths :
    ∃ before after : List Fraction, (ofOrder 5).entries.toList = before ++ after ∧
      ⟨2, 5⟩ ∈ before ∧ ⟨1, 2⟩ ∈ after ∧ ⟨2, 4⟩ ∉ before ++ after := by
  obtain ⟨-, hmem, hsplit⟩ := entries_are_farey_sequence 5
  obtain ⟨before, after, he, hbefore, hafter, -⟩ := hsplit (2 / 5)
  have hiff : ∀ p q : Nat, ⟨p, q⟩ ∈ before ++ after ↔
      p.gcd q = 1 ∧ 0 ≤ p ∧ p ≤ q ∧ 1 ≤ q ∧ q ≤ max 5 1 := by
    intro p q
    rw [← he, Array.mem_toList_iff, hmem]
  refine ⟨before, after, he, ?_, ?_, mt (hiff 2 4).1 (by decide)⟩
  · refine (List.mem_append.1 ((hiff 2 5).2 (by decide))).resolve_right ?_
    intro h
    exact absurd (hafter _ h).2 (by norm_num [toRat])
  · refine (List.mem_append.1 ((hiff 1 2).2 (by decide))).resolve_left ?_
    intro h
    exact absurd (hbefore _ h).2 (by norm_num [toRat])

end FareyTable

end StochasticGame
