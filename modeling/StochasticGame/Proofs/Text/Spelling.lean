import Mathlib.Algebra.Order.Field.Basic
import Mathlib.Algebra.Order.Field.Power
import Mathlib.Algebra.Order.Ring.Rat
import Mathlib.Data.List.Basic
import Mathlib.Data.List.TakeWhile
import Mathlib.Tactic.FieldSimp
import Mathlib.Tactic.Linarith
import Mathlib.Tactic.NormNum
import StochasticGame.Text.Blank
import StochasticGame.Text.Number

/-!
# StochasticGame.Proofs.Text.Spelling

**Words and the numbers that they spell.** The words of a text are what is left between
its blanks, which are listed one by one (`whiteSpace`). Integers and decimals are given by
rules of spelling, and the readers accept a word exactly if it follows the rules
(`integer?_eq_some_iff`, `integral?_eq_some_iff`, `Decimal.read?_eq_some_iff`). The readers
look for the first separator; the rules only say how a word is put together, and it is the
digits that leave no second way to do it. What digits mean is `Nat.ofDigitChars 10`, which
undoes the decimal notation of a number.

A decimal stands for its significand times a power of ten (`Decimal.value_eq`). Whether it
rounds to -1 is a matter of that value alone, however it is spelled
(`Decimal.roundsToMinusOne_iff`). Whether it is accepted as a number depends on the exponent
and on the places, not on the value (`Decimal.inRange_iff`): 0e65 is refused, and so is a 0
with 65 places.
-/

namespace StochasticGame.Text

variable {cs a b : List Char} {sep : Char}

/-! ### Words -/

/-- The characters with the Unicode property White_Space. -/
def whiteSpace : List Char :=
  ['\t', '\n', '\x0b', '\x0c', '\r', ' ', '\u0085', '\u00a0', '\u1680', '\u2000', '\u2001',
   '\u2002', '\u2003', '\u2004', '\u2005', '\u2006', '\u2007', '\u2008', '\u2009', '\u200a',
   '\u2028', '\u2029', '\u202f', '\u205f', '\u3000']

/-- The ranges hold these characters and no others. -/
theorem isBlank_iff {c : Char} : isBlank c = true ↔ c ∈ whiteSpace := by
  have hcodes : whiteSpace.map Char.toNat =
      blankRanges.flatMap fun r => List.range' r.1 (r.2 + 1 - r.1) := by decide
  rw [← List.mem_map_of_injective fun _ _ => Char.toNat_inj.1, hcodes, isBlank, List.any_eq_true,
    List.mem_flatMap]
  refine exists_congr fun r => and_congr_right fun _ => ?_
  rw [decide_eq_true_eq, List.mem_range'_1]
  omega

/-- The first part of a text is empty exactly if the text starts with a blank or ends. -/
theorem exists_splitOnP_isBlank (cs : List Char) :
    ∃ first rest, cs.splitOnP isBlank = first :: rest ∧
      (first = [] ↔ cs.head?.all isBlank = true) := by
  cases cs with
  | nil => exact ⟨[], [], rfl, by simp⟩
  | cons c cs =>
    obtain ⟨first, rest, hsplit⟩ := List.exists_cons_of_ne_nil (cs.splitOnP_ne_nil isBlank)
    rw [List.splitOnP_cons_eq_if_modifyHead, hsplit]
    by_cases hc : isBlank c = true
    · exact ⟨[], first :: rest, by simp [hc], by simp [hc]⟩
    · exact ⟨c :: first, rest, by simp [hc], by simp [hc]⟩

/-- **Words are the parts between blanks that are not empty.** -/
theorem words_eq_splitOnP (text : List Char) :
    words text = (text.splitOnP (· ∈ whiteSpace)).filter (· ≠ []) := by
  have hblank : (fun c => decide (c ∈ whiteSpace)) = isBlank := by
    funext c
    rw [Bool.eq_iff_iff, decide_eq_true_eq, isBlank_iff]
  rw [hblank]
  induction text with
  | nil => rfl
  | cons c cs ih =>
    obtain ⟨first, rest, hsplit, hfirst⟩ := exists_splitOnP_isBlank cs
    rw [hsplit] at ih
    rw [words, List.splitOnP_cons_eq_if_modifyHead, hsplit]
    by_cases hc : isBlank c = true
    · simp [hc, ih]
    · by_cases hend : cs.head?.all isBlank = true
      · -- the word ends here
        simp [hc, hend, ih, hfirst.2 hend]
      · have hne : first ≠ [] := fun he => hend (hfirst.1 he)
        simp [hc, hend, ih, hne]

/-! ### Integers -/

/-- At least one digit, and nothing else. -/
def IsDigits (cs : List Char) : Prop := cs ≠ [] ∧ ∀ c ∈ cs, c.isDigit = true

theorem natural?_eq_some_iff {n : Nat} :
    natural? cs = some n ↔ IsDigits cs ∧ Nat.ofDigitChars 10 cs 0 = n := by
  rw [natural?, Option.ite_none_right_eq_some, Option.some_inj, List.all_eq_true, IsDigits]
  rfl

/-- A character that is no digit does not occur among digits. -/
theorem IsDigits.ne (h : IsDigits cs) {c : Char} (hc : c ∈ cs) (hsep : sep.isDigit = false) :
    c ≠ sep := by
  intro he
  rw [← he, h.2 c hc] at hsep
  cases hsep

/-- An optional sign, and whether it is a minus. -/
inductive IsSign : List Char → Bool → Prop where
  /-- There is none. -/
  | absent : IsSign [] false
  /-- A plus sign. -/
  | plus : IsSign ['+'] false
  /-- A minus sign. -/
  | minus : IsSign ['-'] true

theorem IsSign.eq_or {sign : List Char} {negative : Bool} (h : IsSign sign negative) {c : Char}
    (hc : c ∈ sign) : c = '+' ∨ c = '-' := by
  cases h with
  | absent => cases hc
  | plus => exact Or.inl (List.mem_singleton.1 hc)
  | minus => exact Or.inr (List.mem_singleton.1 hc)

theorem exists_sign (cs : List Char) :
    ∃ sign, IsSign sign (splitSign cs).1 ∧ cs = sign ++ (splitSign cs).2 := by
  unfold splitSign
  split
  · exact ⟨['-'], .minus, rfl⟩
  · exact ⟨['+'], .plus, rfl⟩
  · exact ⟨[], .absent, rfl⟩

/-- What does not start with a sign is left by taking one off. -/
theorem splitSign_append {sign : List Char} {negative : Bool} (h : IsSign sign negative)
    (hcs : ∀ c, cs.head? = some c → c ≠ '+' ∧ c ≠ '-') :
    splitSign (sign ++ cs) = (negative, cs) := by
  cases h with
  | plus => rfl
  | minus => rfl
  | absent =>
    rw [List.nil_append]
    unfold splitSign
    split
    · exact absurd rfl (hcs '-' rfl).2
    · exact absurd rfl (hcs '+' rfl).1
    · rfl

/-- An optional sign and digits spell an integer. -/
inductive SpellsInteger : List Char → Int → Prop where
  /-- The sign applies to what the digits read as. -/
  | signed {sign digits : List Char} {negative : Bool} (hsign : IsSign sign negative)
    (hdigits : IsDigits digits) :
    SpellsInteger (sign ++ digits)
      (if negative then -(Nat.ofDigitChars 10 digits 0 : Int) else Nat.ofDigitChars 10 digits 0)

theorem integer?_eq_map (cs : List Char) :
    integer? cs = (natural? (splitSign cs).2).map fun n : Nat =>
      if (splitSign cs).1 then -(n : Int) else n := by
  unfold integer?
  dsimp only
  cases natural? (splitSign cs).2 <;> rfl

theorem integer?_eq_some_iff {z : Int} : integer? cs = some z ↔ SpellsInteger cs z := by
  rw [integer?_eq_map]
  constructor
  · intro h
    obtain ⟨n, hn, hz⟩ := Option.map_eq_some_iff.1 h
    obtain ⟨hdigits, rfl⟩ := natural?_eq_some_iff.1 hn
    obtain ⟨sign, hsign, hcs⟩ := exists_sign cs
    rw [hcs, ← hz]
    exact .signed hsign hdigits
  · intro h
    cases h with
    | @signed sign digits negative hsign hdigits =>
      have hhead : ∀ c, digits.head? = some c → c ≠ '+' ∧ c ≠ '-' := by
        intro c hc
        have hmem := List.mem_of_mem_head? hc
        exact ⟨hdigits.ne hmem (by decide), hdigits.ne hmem (by decide)⟩
      rw [splitSign_append hsign hhead, natural?_eq_some_iff.2 ⟨hdigits, rfl⟩, Option.map_some]

/-- A spelled integer has no character but signs and digits. -/
theorem SpellsInteger.notMem {z : Int} (h : SpellsInteger cs z) (hsep : sep.isDigit = false)
    (hplus : sep ≠ '+') (hminus : sep ≠ '-') : sep ∉ cs := by
  cases h with
  | signed hsign hdigits =>
    intro hmem
    cases List.mem_append.1 hmem with
    | inl hs =>
      cases hsign.eq_or hs with
      | inl he => exact hplus he
      | inr he => exact hminus he
    | inr hd => exact hdigits.ne hd hsep rfl

theorem signed?_eq_some_iff {bits : Nat} {z : Int} :
    signed? bits cs = some z ↔ SpellsInteger cs z ∧ fitsSigned bits z = true := by
  rw [signed?, Option.filter_eq_some_iff, integer?_eq_some_iff]

/-! ### Separators -/

/-- A list is split in front of the first entry that fails a test. -/
theorem takeWhile_dropWhile_eq_iff {p : Char → Bool} {c : Char} :
    cs.takeWhile p = a ∧ cs.dropWhile p = c :: b ↔
      cs = a ++ c :: b ∧ (∀ x ∈ a, p x = true) ∧ p c = false := by
  constructor
  · intro h
    obtain ⟨rfl, hdrop⟩ := h
    have happend := List.takeWhile_append_dropWhile (p := p) (l := cs)
    have hne : cs.dropWhile p ≠ [] := by simp [hdrop]
    have hhead := List.head_dropWhile_not p hne
    simp only [hdrop, List.head_cons] at hhead happend
    exact ⟨happend.symm, fun x hx => List.mem_takeWhile_imp hx, hhead⟩
  · intro h
    obtain ⟨rfl, ha, hc⟩ := h
    rw [List.takeWhile_append_of_pos ha, List.dropWhile_append_of_pos ha]
    simp [hc]

theorem splitAt?_eq_some_iff : splitAt? sep cs = some (a, b) ↔ cs = a ++ sep :: b ∧ sep ∉ a := by
  constructor
  · intro h
    unfold splitAt? at h
    split at h
    · cases h
    · rename_i c rest hdrop
      obtain ⟨rfl, rfl⟩ := Prod.mk.inj (Option.some_inj.1 h)
      obtain ⟨hcs, ha, hc⟩ := takeWhile_dropWhile_eq_iff.1 ⟨rfl, hdrop⟩
      obtain rfl : c = sep := by simpa using hc
      exact ⟨hcs, fun hmem => by simpa using ha c hmem⟩
  · intro h
    obtain ⟨hcs, hsep⟩ := h
    have ha : ∀ x ∈ a, decide (x ≠ sep) = true :=
      fun x hx => decide_eq_true fun he => hsep (he ▸ hx)
    obtain ⟨htake, hdrop⟩ := takeWhile_dropWhile_eq_iff.2 ⟨hcs, ha, by simp⟩
    rw [splitAt?, hdrop, htake]

theorem splitAt?_eq_none_iff : splitAt? sep cs = none ↔ sep ∉ cs := by
  constructor
  · intro h hmem
    obtain ⟨a, b, hcs, ha⟩ := List.eq_append_cons_of_mem hmem
    rw [splitAt?_eq_some_iff.2 ⟨hcs, ha⟩] at h
    cases h
  · intro h
    rw [Option.eq_none_iff_forall_ne_some]
    intro ab he
    exact h (by simp [(splitAt?_eq_some_iff.1 he).1])

/-- **A 64-bit integer may end in a point and zeros.** -/
theorem integral?_eq_some_iff {z : Int} :
    integral? cs = some z ↔ ∃ whole tail, cs = whole ++ tail ∧ SpellsInteger whole z ∧
      fitsSigned 64 z = true ∧ (tail = [] ∨ ∃ k, tail = '.' :: List.replicate k '0') := by
  have hpoint : ∀ {whole : List Char} {x : Int}, SpellsInteger whole x → '.' ∉ whole :=
    fun h => h.notMem (by decide) (by decide) (by decide)
  constructor
  · intro h
    unfold integral? at h
    split at h
    · rename_i n hn
      obtain rfl := Option.some_inj.1 h
      obtain ⟨hspell, hfits⟩ := signed?_eq_some_iff.1 hn
      exact ⟨cs, [], (List.append_nil cs).symm, hspell, hfits, Or.inl rfl⟩
    · split at h
      · rename_i whole fraction hsplit
        split at h
        · rename_i hzeros
          obtain ⟨hspell, hfits⟩ := signed?_eq_some_iff.1 h
          refine ⟨whole, '.' :: fraction, (splitAt?_eq_some_iff.1 hsplit).1, hspell, hfits,
            Or.inr ⟨fraction.length, ?_⟩⟩
          rw [List.cons_inj_right, List.eq_replicate_iff]
          simpa using hzeros
        · cases h
      · cases h
  · intro h
    obtain ⟨whole, tail, rfl, hspell, hfits, htail⟩ := h
    have hwhole : signed? 64 whole = some z := signed?_eq_some_iff.2 ⟨hspell, hfits⟩
    cases htail with
    | inl hnil => rw [hnil, List.append_nil, integral?, hwhole]
    | inr hzeros =>
      obtain ⟨k, rfl⟩ := hzeros
      -- with the point the word is no integer
      have hnone : signed? 64 (whole ++ '.' :: List.replicate k '0') = none := by
        rw [Option.eq_none_iff_forall_ne_some]
        intro x hx
        exact hpoint (signed?_eq_some_iff.1 hx).1 (by simp)
      rw [integral?, hnone, splitAt?_eq_some_iff.2 ⟨rfl, hpoint hspell⟩]
      simp [hwhole]

/-! ### Decimals -/

/-- Digits with at most one point, and what stands on its two sides. -/
inductive SpellsPoint : List Char → List Char → List Char → Prop where
  /-- There is no point. -/
  | absent (whole : List Char) : SpellsPoint whole whole []
  /-- A point. -/
  | point (whole fraction : List Char) : SpellsPoint (whole ++ '.' :: fraction) whole fraction

/-- An optional exponent. -/
inductive SpellsExponent : List Char → Int → Prop where
  /-- There is none. -/
  | absent : SpellsExponent [] 0
  /-- A letter and an integer. -/
  | letter {c : Char} {digits : List Char} {x : Int} (hc : c = 'e' ∨ c = 'E')
    (hdigits : SpellsInteger digits x) : SpellsExponent (c :: digits) x

namespace Decimal

variable {d : Decimal} {m whole fraction : List Char} {x : Int}

/-- An optional sign, digits with at most one point, and an optional exponent spell a
decimal. -/
inductive Spells : List Char → Decimal → Prop where
  /-- The digits on both sides of the point read as one number. -/
  | parts {sign m whole fraction e : List Char} {negative : Bool} {x : Int}
    (hsign : IsSign sign negative) (hpoint : SpellsPoint m whole fraction)
    (hdigits : IsDigits (whole ++ fraction)) (hexponent : SpellsExponent e x) :
    Spells (sign ++ m ++ e)
      ⟨negative, Nat.ofDigitChars 10 (whole ++ fraction) 0, fraction.length, x⟩

theorem splitExponent?_eq_some_iff :
    splitExponent? cs = some (m, x) ↔
      (∀ c ∈ m, c ≠ 'e' ∧ c ≠ 'E') ∧ ∃ e, cs = m ++ e ∧ SpellsExponent e x := by
  let p : Char → Bool := fun c => !decide (c = 'e' ∨ c = 'E')
  have hp : ∀ c, p c = true ↔ c ≠ 'e' ∧ c ≠ 'E' := by simp [p]
  have hstop : ∀ c, p c = false ↔ c = 'e' ∨ c = 'E' := by
    intro c
    rw [Bool.not_eq_false', decide_eq_true_eq]
  constructor
  · intro h
    unfold splitExponent? at h
    dsimp only at h
    split at h
    · rename_i hdrop
      obtain ⟨rfl, rfl⟩ := Prod.mk.inj (Option.some_inj.1 h)
      refine ⟨?_, [], (List.append_nil cs).symm, .absent⟩
      intro c hc
      exact (hp c).1 (List.dropWhile_eq_nil_iff.1 hdrop c hc)
    · rename_i c rest hdrop
      obtain ⟨z, hz, he⟩ := Option.map_eq_some_iff.1 h
      obtain ⟨rfl, rfl⟩ := Prod.mk.inj he
      obtain ⟨hcs, hm, hc⟩ := takeWhile_dropWhile_eq_iff.1 ⟨rfl, hdrop⟩
      exact ⟨fun y hy => (hp y).1 (hm y hy), c :: rest, hcs,
        .letter ((hstop c).1 hc) (integer?_eq_some_iff.1 hz)⟩
  · intro h
    obtain ⟨hm, e, rfl, he⟩ := h
    have hmark : ∀ c ∈ m, p c = true := fun c hc => (hp c).2 (hm c hc)
    unfold splitExponent?
    dsimp only
    cases he with
    | absent =>
      rw [List.append_nil, List.dropWhile_eq_nil_iff.2 hmark]
    | @letter c digits x hc hdigits =>
      obtain ⟨htake, hdrop⟩ :=
        takeWhile_dropWhile_eq_iff.2 ⟨(rfl : m ++ c :: digits = _), hmark, (hstop c).2 hc⟩
      rw [hdrop, htake]
      exact Option.map_eq_some_iff.2 ⟨x, integer?_eq_some_iff.2 hdigits, rfl⟩

theorem spellsPoint_splitPoint (m : List Char) :
    SpellsPoint m (splitPoint m).1 (splitPoint m).2 := by
  unfold splitPoint
  cases hsplit : splitAt? '.' m with
  | none => exact .absent m
  | some ab =>
    obtain ⟨whole, fraction⟩ := ab
    rw [(splitAt?_eq_some_iff.1 hsplit).1]
    exact .point whole fraction

theorem splitPoint_of_spellsPoint (h : SpellsPoint m whole fraction) (hwhole : '.' ∉ whole) :
    splitPoint m = (whole, fraction) := by
  cases h with
  | absent => rw [splitPoint, splitAt?_eq_none_iff.2 hwhole, Option.getD_none]
  | point => rw [splitPoint, splitAt?_eq_some_iff.2 ⟨rfl, hwhole⟩, Option.getD_some]

/-- **A word is read as a decimal exactly if it spells one.** -/
theorem read?_eq_some_iff : read? cs = some d ↔ Spells cs d := by
  constructor
  · intro h
    obtain ⟨⟨m, x⟩, hexponent, hrest⟩ := Option.bind_eq_some_iff.1 h
    obtain ⟨n, hn, hd⟩ := Option.bind_eq_some_iff.1 hrest
    obtain ⟨-, e, rfl, he⟩ := splitExponent?_eq_some_iff.1 hexponent
    obtain ⟨hdigits, rfl⟩ := natural?_eq_some_iff.1 hn
    obtain ⟨sign, hsign, hm⟩ := exists_sign m
    have hspells := Spells.parts hsign (spellsPoint_splitPoint (splitSign m).2) hdigits he
    rw [← hm] at hspells
    rw [← Option.some_inj.1 hd]
    exact hspells
  · intro h
    cases h with
    | @parts sign m whole fraction e negative x hsign hpoint hdigits hexponent =>
      have hne : ∀ sep : Char, sep.isDigit = false → sep ≠ '.' → sep ∉ m := by
        intro sep hsep hdot hmem
        cases hpoint with
        | absent => exact hdigits.ne (List.mem_append_left _ hmem) hsep rfl
        | point =>
          cases List.mem_append.1 hmem with
          | inl hw => exact hdigits.ne (List.mem_append_left _ hw) hsep rfl
          | inr hf =>
            cases List.mem_cons.1 hf with
            | inl he => exact hdot he
            | inr hf => exact hdigits.ne (List.mem_append_right _ hf) hsep rfl
      have hmark : ∀ c ∈ sign ++ m, c ≠ 'e' ∧ c ≠ 'E' := by
        intro c hc
        cases List.mem_append.1 hc with
        | inl hs => cases hsign.eq_or hs with
          | inl he => exact he ▸ by decide
          | inr he => exact he ▸ by decide
        | inr hm =>
          exact ⟨fun he => hne 'e' (by decide) (by decide) (he ▸ hm),
            fun he => hne 'E' (by decide) (by decide) (he ▸ hm)⟩
      have hhead : ∀ c, m.head? = some c → c ≠ '+' ∧ c ≠ '-' := by
        intro c hc
        have hm := List.mem_of_mem_head? hc
        exact ⟨fun he => hne '+' (by decide) (by decide) (he ▸ hm),
          fun he => hne '-' (by decide) (by decide) (he ▸ hm)⟩
      have hdot : '.' ∉ whole :=
        fun hmem => hdigits.ne (List.mem_append_left _ hmem) (by decide) rfl
      simp only [read?, splitExponent?_eq_some_iff.2 ⟨hmark, e, rfl, hexponent⟩,
        Option.bind_eq_bind, Option.bind_some, splitSign_append hsign hhead,
        splitPoint_of_spellsPoint hpoint hdot, natural?_eq_some_iff.2 ⟨hdigits, rfl⟩,
        Option.pure_def]

/-- The digits are taken as one number and scaled by a power of ten. -/
theorem value_eq (d : Decimal) :
    d.value = (if d.negative then -1 else 1) * (d.significand * (10 : Rat) ^ d.scale) := by
  have hmagnitude : (if 0 ≤ d.scale then ((d.significand * Nat.pow 10 d.scale.natAbs : Nat) : Rat)
      else mkRat d.significand (Nat.pow 10 d.scale.natAbs)) =
        d.significand * (10 : Rat) ^ d.scale := by
    split
    · rename_i hs
      obtain ⟨k, hk⟩ := Int.eq_ofNat_of_zero_le hs
      rw [hk, zpow_natCast, Int.natAbs_natCast]
      push_cast [Nat.pow_eq]
      rfl
    · rename_i hs
      obtain ⟨k, hk⟩ := Int.exists_eq_neg_ofNat (not_le.1 hs).le
      rw [hk, Int.natAbs_neg, Int.natAbs_natCast, zpow_neg, zpow_natCast, Rat.mkRat_eq_div,
        div_eq_mul_inv]
      push_cast [Nat.pow_eq]
      rfl
  unfold value
  dsimp only
  rw [hmagnitude]
  split
  · rw [neg_one_mul]
  · rw [one_mul]

theorem digitCount_le_iff (n k : Nat) : digitCount n ≤ k ↔ n < 10 ^ k := by
  unfold digitCount
  split
  · rename_i hn
    simp [hn]
  · rename_i hn
    cases k with
    | zero =>
      have hpos := Nat.length_toDigits_pos (b := 10) (n := n)
      omega
    | succ k => exact Nat.length_toDigits_le_iff (by decide) k.succ_pos

/-- A number close to a power of ten has as many digits as that power has zeros, or one
more. -/
theorem digitCount_of_close {s j : Nat} (hlo : (2 ^ 54 - 1) * 10 ^ j ≤ s * 2 ^ 54)
    (hhi : s * 2 ^ 53 ≤ (2 ^ 53 + 1) * 10 ^ j) : digitCount s = j ∨ digitCount s = j + 1 := by
  have hpos : 0 < 10 ^ j := Nat.pow_pos (by decide)
  have hle : digitCount s ≤ j + 1 := by
    rw [digitCount_le_iff, Nat.pow_succ]
    omega
  have hge : j ≤ digitCount s := by
    cases j with
    | zero => exact Nat.zero_le _
    | succ i =>
      rw [← not_lt, Nat.lt_succ_iff, digitCount_le_iff]
      rw [Nat.pow_succ] at hlo hpos
      omega
  omega

/-- The test of the number of digits is implied by the comparisons that follow it. -/
theorem roundsToMinusOne_iff_scaled : d.roundsToMinusOne = true ↔
    d.negative = true ∧ ∃ j : Nat, d.scale = -j ∧
      (2 ^ 54 - 1) * 10 ^ j ≤ d.significand * 2 ^ 54 ∧
      d.significand * 2 ^ 53 ≤ (2 ^ 53 + 1) * 10 ^ j := by
  unfold roundsToMinusOne
  simp only [Nat.pow_eq]
  constructor
  · intro h
    split at h
    · rename_i hguard
      obtain ⟨hneg, -, hscale⟩ := hguard
      obtain ⟨j, hj⟩ := Int.exists_eq_neg_ofNat hscale
      rw [hj, Int.natAbs_neg, Int.natAbs_natCast, Bool.and_eq_true, decide_eq_true_eq,
        decide_eq_true_eq] at h
      exact ⟨hneg, j, hj, h⟩
    · cases h
  · intro h
    obtain ⟨hneg, j, hj, hlo, hhi⟩ := h
    have hcount := digitCount_of_close hlo hhi
    rw [if_pos ⟨hneg, by omega, by omega⟩, hj, Int.natAbs_neg, Int.natAbs_natCast,
      Bool.and_eq_true, decide_eq_true_eq, decide_eq_true_eq]
    exact ⟨hlo, hhi⟩

/-- The comparisons of a significand say how far the number is from 1. -/
theorem close_to_one_iff (s j : Nat) :
    ((2 ^ 54 - 1) * 10 ^ j ≤ s * 2 ^ 54 ∧ s * 2 ^ 53 ≤ (2 ^ 53 + 1) * 10 ^ j) ↔
      (1 - 1 / 2 ^ 54 : Rat) ≤ s / 10 ^ j ∧ (s / 10 ^ j : Rat) ≤ 1 + 1 / 2 ^ 53 := by
  have hpos : (0 : Rat) < 10 ^ j := by positivity
  have hcast : ∀ a b : Nat, a * 10 ^ j ≤ s * b ↔ (a * 10 ^ j : Rat) ≤ s * b := by
    intro a b
    exact_mod_cast Iff.rfl
  have hcast' : ∀ a b : Nat, s * b ≤ a * 10 ^ j ↔ (s * b : Rat) ≤ a * 10 ^ j := by
    intro a b
    exact_mod_cast Iff.rfl
  rw [hcast, hcast', le_div_iff₀ hpos, div_le_iff₀ hpos]
  norm_num
  constructor
  · intro h
    constructor <;> linarith [h.1, h.2]
  · intro h
    constructor <;> linarith [h.1, h.2]

/-- Without places a number of tens is nothing or at least ten. -/
theorem magnitude_of_scale_pos (hscale : 0 < d.scale) :
    (d.significand : Rat) * 10 ^ d.scale = 0 ∨ 10 ≤ (d.significand : Rat) * 10 ^ d.scale := by
  have hten : (10 : Rat) ^ (1 : Int) ≤ 10 ^ d.scale := zpow_le_zpow_right₀ (by norm_num) hscale
  rw [zpow_one] at hten
  rcases Nat.eq_zero_or_pos d.significand with hzero | hpos
  · left
    rw [hzero, Nat.cast_zero, zero_mul]
  · right
    have hone : (1 : Rat) ≤ d.significand := by exact_mod_cast hpos
    calc (10 : Rat) ≤ 10 ^ d.scale := hten
      _ ≤ d.significand * 10 ^ d.scale := le_mul_of_one_le_left (by positivity) hone

/-- **A decimal rounds to -1 exactly if it lies within half a unit of -1.** The unit is
2 ^ -52 below -1 and 2 ^ -53 above. -/
theorem roundsToMinusOne_iff : d.roundsToMinusOne = true ↔
    -1 - 1 / 2 ^ 53 ≤ d.value ∧ d.value ≤ -1 + 1 / 2 ^ 54 := by
  rw [roundsToMinusOne_iff_scaled, value_eq]
  have hnonneg : 0 ≤ (d.significand : Rat) * 10 ^ d.scale := by positivity
  by_cases hneg : d.negative = true
  · rw [if_pos hneg, neg_one_mul]
    rcases le_or_gt d.scale 0 with hscale | hscale
    · obtain ⟨j, hj⟩ := Int.exists_eq_neg_ofNat hscale
      have hvalue : (d.significand : Rat) * 10 ^ d.scale = d.significand / 10 ^ j := by
        rw [hj, zpow_neg, zpow_natCast, div_eq_mul_inv]
      rw [hvalue]
      have hclose := close_to_one_iff d.significand j
      constructor
      · intro h
        obtain ⟨-, i, hi, hcompare⟩ := h
        obtain rfl : i = j := by omega
        obtain ⟨hlo, hhi⟩ := hclose.1 hcompare
        constructor <;> linarith
      · intro h
        exact ⟨hneg, j, hj, hclose.2 ⟨by linarith [h.2], by linarith [h.1]⟩⟩
    · constructor
      · intro h
        obtain ⟨-, j, hj, -⟩ := h
        omega
      · intro h
        exfalso
        cases magnitude_of_scale_pos hscale with
        | inl hzero => linarith [h.2]
        | inr hlarge => linarith [h.1]
  · rw [if_neg hneg, one_mul]
    constructor
    · intro h
      exact absurd h.1 hneg
    · intro h
      exfalso
      linarith [h.2]

theorem inRange_iff : d.inRange = true ↔
    (-2 ^ 31 ≤ d.exponent ∧ d.exponent < 2 ^ 31) ∧ d.places < 2 ^ 31 ∧
      -64 ≤ d.scale ∧ d.scale ≤ 64 := by
  simp only [inRange, fitsSigned, Nat.pow_eq, Bool.and_eq_true, decide_eq_true_eq]
  rw [maxScale]
  omega

end Decimal

theorem decimal?_eq_some_iff {x : Rat} :
    decimal? cs = some x ↔ ∃ d, Decimal.Spells cs d ∧ d.inRange = true ∧ d.value = x := by
  simp only [decimal?, Option.map_eq_some_iff, Option.filter_eq_some_iff,
    Decimal.read?_eq_some_iff, and_assoc]

/-- **Decimals are read exactly.** A word is accepted exactly if it is an optional sign, digits
with at most one point, and an optional exponent, where there are fewer than 2 ^ 31 places, the
exponent has 32 bits, and it exceeds the number of places by at most 64, or falls short of it
by at most 64. The word stands for all its digits as one number, scaled by that difference as
a power of ten, with the sign. -/
theorem decimals_are_read_exactly (word : List Char) (x : Rat) :
    decimal? word = some x ↔
      ∃ (sign mantissa whole fraction tail : List Char) (negative : Bool) (exponent : Int),
        word = sign ++ mantissa ++ tail ∧ IsSign sign negative ∧
        SpellsPoint mantissa whole fraction ∧ IsDigits (whole ++ fraction) ∧
        fraction.length < 2 ^ 31 ∧
        SpellsExponent tail exponent ∧ -2 ^ 31 ≤ exponent ∧ exponent < 2 ^ 31 ∧
        -64 ≤ exponent - fraction.length ∧ exponent - fraction.length ≤ 64 ∧
        x = (if negative then -1 else 1) *
          (Nat.ofDigitChars 10 (whole ++ fraction) 0 *
            (10 : Rat) ^ (exponent - fraction.length)) := by
  rw [decimal?_eq_some_iff]
  constructor
  · intro h
    obtain ⟨d, hspells, hrange, rfl⟩ := h
    cases hspells with
    | @parts sign mantissa whole fraction tail negative exponent hsign hpoint hdigits hexponent =>
      obtain ⟨⟨hlo, hhi⟩, hplaces, hdown, hup⟩ := Decimal.inRange_iff.1 hrange
      refine ⟨sign, mantissa, whole, fraction, tail, negative, exponent, rfl, hsign, hpoint,
        hdigits, hplaces, hexponent, hlo, hhi, hdown, hup, ?_⟩
      exact Decimal.value_eq _
  · intro h
    obtain ⟨sign, mantissa, whole, fraction, tail, negative, exponent, rfl, hsign, hpoint,
      hdigits, hplaces, hexponent, hlo, hhi, hdown, hup, rfl⟩ := h
    refine ⟨_, .parts hsign hpoint hdigits hexponent,
      Decimal.inRange_iff.2 ⟨⟨hlo, hhi⟩, hplaces, hdown, hup⟩, ?_⟩
    exact Decimal.value_eq _

end StochasticGame.Text
