import StochasticGame.Proofs.Text.Spelling

/-!
# StochasticGame.Proofs.Text.Layout

**Texts that can be taken apart again.** A text whose pieces are each ended by a mark gives
back its pieces when it is split at the mark, and one last piece that is empty. Numbers are
written as digits, so neither a space nor a line feed occurs in them, and the digits
determine the number.
-/

namespace StochasticGame.Text

variable {sep : Char}

/-- Pieces that are each ended by a mark are found again by splitting at the mark. -/
theorem splitOn_ended {pieces : List (List Char)} (h : ∀ p ∈ pieces, sep ∉ p) :
    (pieces.flatMap fun p => p ++ [sep]).splitOn sep = pieces ++ [[]] := by
  induction pieces with
  | nil => rfl
  | cons p pieces ih =>
    rw [List.flatMap_cons, List.append_assoc, List.singleton_append,
      List.splitOn_append_cons_self, List.splitOn_eq_singleton (h p List.mem_cons_self),
      ih fun q hq => h q (List.mem_cons_of_mem p hq)]
    rfl

/-! ### Numbers as digits -/

theorem isDigits_toDigits (n : Nat) : IsDigits (Nat.toDigits 10 n) :=
  ⟨Nat.toDigits_ne_nil, fun _ hc => Nat.isDigit_of_mem_toDigits (by decide) (by decide) hc⟩

/-- The digits of a number read as that number. -/
theorem natural?_toDigits (n : Nat) : natural? (Nat.toDigits 10 n) = some n :=
  natural?_eq_some_iff.2 ⟨isDigits_toDigits n, Nat.ofDigitChars_ten_toDigits⟩

theorem notMem_toDigits (h : sep.isDigit = false) (n : Nat) : sep ∉ Nat.toDigits 10 n :=
  fun hmem => (isDigits_toDigits n).ne hmem h rfl

theorem toDigits_injective : Function.Injective (Nat.toDigits 10) := by
  intro m n h
  have hread := congrArg natural? h
  rwa [natural?_toDigits, natural?_toDigits, Option.some_inj] at hread

/-- The numbers that stand between the spaces of a line. -/
def numbers? (line : List Char) : Option (List Nat) :=
  ((line.splitOn ' ').filter (· ≠ [])).mapM natural?

theorem mapM_natural?_toDigits (ns : List Nat) :
    (ns.map (Nat.toDigits 10)).mapM natural? = some ns := by
  induction ns with
  | nil => rfl
  | cons n ns ih => rw [List.map_cons, List.mapM_cons, natural?_toDigits, ih]; rfl

/-- Numbers that are each followed by a space are read in their order. -/
theorem numbers?_spaced (ns : List Nat) :
    numbers? (ns.flatMap fun n => Nat.toDigits 10 n ++ [' ']) = some ns := by
  have hspace : ∀ p ∈ ns.map (Nat.toDigits 10), ' ' ∉ p := by
    intro p hp
    obtain ⟨n, -, rfl⟩ := List.mem_map.1 hp
    exact notMem_toDigits (by decide) n
  have hfull : ∀ p ∈ ns.map (Nat.toDigits 10), decide (p ≠ []) = true := by
    intro p hp
    obtain ⟨n, -, rfl⟩ := List.mem_map.1 hp
    exact decide_eq_true Nat.toDigits_ne_nil
  have hsplit := splitOn_ended hspace
  rw [List.flatMap_map] at hsplit
  rw [numbers?, hsplit, List.filter_append, List.filter_eq_self.2 hfull]
  simpa using mapM_natural?_toDigits ns

end StochasticGame.Text
