import StochasticGame.Json.Typed
import StochasticGame.Proofs.Json.Skipping
import StochasticGame.Proofs.Text.Layout

/-!
# StochasticGame.Proofs.Json.Typed

**Values of known types.** How truth values, natural numbers and named values are spelled, and
that their readers take each spelling for the value that it stands for. A natural number is read
over the whole range of its width: as long as it fits the width, none of its digits is dropped.
-/

namespace StochasticGame.Json

open Text (natural?_toDigits natural?_eq_some_iff)
open Reader

variable {α β : Type} {cs : List Char}

/-- The reader takes every spelling for the value, whatever spaces stand before it, and stops
right behind it. -/
def ReadsValue (reader : Reader α) (spells : List Char → Prop) (a : α) : Prop :=
  ∀ ⦃value s rest : List Char⦄, spells value → IsSpaces s → EndsValue rest →
    Reads reader (s ++ (value ++ rest)) a rest

theorem ReadsValue.map {reader : Reader α} {spells : List Char → Prop} {a : α} (f : α → β)
    (h : ReadsValue reader spells a) : ReadsValue (do let a ← reader; pure (f a)) spells (f a) :=
  fun _ _ rest hvalue hs hrest => (h hvalue hs hrest).bind (reads_pure (f a) rest)

/-! ### Truth values -/

/-- The words of truth values. -/
inductive SpellsBool : Bool → List Char → Prop where
  /-- The word for true. -/
  | isTrue : SpellsBool true ['t', 'r', 'u', 'e']
  /-- The word for false. -/
  | isFalse : SpellsBool false ['f', 'a', 'l', 's', 'e']

theorem readsValue_bool (b : Bool) : ReadsValue Reader.bool (SpellsBool b) b := by
  intro value s rest h hs _
  cases h with
  | isTrue =>
    exact (reads_peek hs (by decide)).bind
      ((reads_literal ['t', 'r', 'u', 'e'] rest).bind (reads_pure true rest))
  | isFalse =>
    exact (reads_peek hs (by decide)).bind
      ((reads_literal ['f', 'a', 'l', 's', 'e'] rest).bind (reads_pure false rest))

/-! ### Natural numbers -/

/-- Digits that read as a number, without a zero in front. -/
def SpellsNatural (n : Nat) (cs : List Char) : Prop :=
  IsWhole cs ∧ Nat.ofDigitChars 10 cs 0 = n

/-- More digits never make a number smaller. -/
theorem le_ofDigitChars (digits : List Char) (n : Nat) : n ≤ Nat.ofDigitChars 10 digits n := by
  rw [Nat.ofDigitChars_eq_ofDigitChars_zero]
  exact (Nat.le_mul_of_pos_left n (Nat.pow_pos (by decide))).trans (Nat.le_add_right _ _)

/-- Digits are appended as long as the number fits 64 bits, and it fits all along if it does at
the end. -/
theorem appendDigits_eq {digits : List Char} {n : Nat}
    (h : Nat.ofDigitChars 10 digits n < Nat.pow 2 64) :
    appendDigits n digits = (Nat.ofDigitChars 10 digits n, 0) := by
  induction digits generalizing n with
  | nil => rfl
  | cons c digits ih =>
    have hlonger : 10 * n + Text.digitValue c < Nat.pow 2 64 :=
      Nat.lt_of_le_of_lt (le_ofDigitChars digits _) h
    rw [appendDigits, if_pos hlonger]
    exact ih h

theorem SpellsNatural.value? {n : Nat} (h : SpellsNatural n cs) (hn : n < 2 ^ 64) :
    (NumberText.mk false cs [] none).value? = some (.natural n) := by
  have hdigits : appendDigits 0 cs = (n, 0) := by
    rw [← h.2]
    exact appendDigits_eq (by rw [← h.2] at hn; exact hn)
  simp [NumberText.value?, hdigits]

theorem SpellsNatural.reads_number {n : Nat} {rest : List Char} (h : SpellsNatural n cs)
    (hn : n < 2 ^ 64) (hrest : EndsValue rest) :
    Reads Reader.number (cs ++ rest) (.natural n) rest := by
  have hend : ∀ c, rest.head? = some c → c.isDigit = false ∧ c ≠ '.' :=
    fun c hc => IsExponent.absent.head_append hrest hc
  have htext : Reads (numberText .cutShort) ([] ++ (cs ++ rest)) ⟨false, cs, [], none⟩ rest :=
    reads_numberText (Or.inl rfl) h.1 (fun c hc => (hend c hc).1)
      (reads_fractionDigits .cutShort .absent hend)
      (reads_exponent_absent .cutShort fun c hc => hrest.not_isNumberPart hc)
  refine htext.bind ?_
  rw [h.value? hn]
  exact reads_pure _ rest

theorem readsValue_natural {bits n : Nat} (name : String) (hbits : bits ≤ 64)
    (hn : n < Nat.pow 2 bits) : ReadsValue (Reader.natural bits name) (SpellsNatural n) n := by
  intro value s rest h hs hrest
  have hnumber := h.reads_number
    (Nat.lt_of_lt_of_le hn (Nat.pow_le_pow_right (by decide) hbits)) hrest
  obtain ⟨d, ds, rfl⟩ := List.exists_cons_of_ne_nil h.1.1.1
  have hd : d = '-' ∨ d.isDigit = true := Or.inr (h.1.1.2 d List.mem_cons_self)
  refine (reads_peek hs (isSpace_of_numberHead hd)).bind ?_
  rw [if_pos hd]
  refine hnumber.bind ?_
  simp only [if_pos hn]
  exact reads_pure n rest

/-- No zero stands in front of the digits of a positive number. -/
theorem head?_toDigits_ne {n : Nat} (hn : 0 < n) : (Nat.toDigits 10 n).head? ≠ some '0' := by
  induction n using Nat.strongRecOn with
  | ind n ih =>
    rcases Nat.lt_or_ge n 10 with hlt | hge
    · rw [Nat.toDigits_of_lt_base hlt, List.head?_cons, ne_eq, Option.some_inj,
        Nat.digitChar_eq_zero]
      exact Nat.ne_of_gt hn
    · rw [Nat.toDigits_of_base_le (by decide) hge,
        List.head?_append_of_ne_nil _ Nat.toDigits_ne_nil]
      exact ih (n / 10) (by omega) (by omega)

/-- Every number has a spelling. -/
theorem spellsNatural_toDigits (n : Nat) : SpellsNatural n (Nat.toDigits 10 n) := by
  obtain ⟨hdigits, hvalue⟩ := natural?_eq_some_iff.1 (natural?_toDigits n)
  refine ⟨⟨hdigits, fun hzero => ?_⟩, hvalue⟩
  rcases Nat.eq_zero_or_pos n with rfl | hn
  · rfl
  · exact absurd hzero (head?_toDigits_ne hn)

/-! ### Named values -/

/-- The ways to write a named value: its name as a string, or an object with the name as only
key and null as value. -/
inductive SpellsVariant (name : String) : List Char → Prop where
  /-- The name. -/
  | string {key : List Char} (h : Spells key name.toList) :
    SpellsVariant name ('"' :: (key ++ ['"']))
  /-- The name as a key. -/
  | object {m : Member} (hs : m.Spaced) (hkey : Spells m.key name.toList)
    (hvalue : m.value = ['n', 'u', 'l', 'l']) : SpellsVariant name ('{' :: (m.text ++ ['}']))

theorem readsValue_variant {variants : List (String × α)} {name : String} {a : α}
    (ha : variants.lookup name = some a) :
    ReadsValue (Reader.variant variants) (SpellsVariant name) a := by
  intro value s rest h hs _
  have hname : ∀ text, Reads (ofName variants name) text a text := by
    intro text
    rw [ofName, ha]
    exact reads_pure a text
  cases h with
  | @string key hkey =>
    simp only [List.cons_append, List.append_assoc, List.nil_append]
    exact (reads_peek hs (by decide)).bind
      ((reads_advance '"' _).bind ((reads_string_wanted hkey).bind (hname rest)))
  | @object m hm hkey hvalue =>
    simp only [List.cons_append, List.append_assoc, List.nil_append]
    rw [m.text_append, m.toElement.text_append, hvalue]
    refine (reads_peek hs (by decide)).bind ((reads_advance '{' _).bind ?_)
    refine (reads_expect hm.1 (by decide)).bind ((reads_string_wanted hkey).bind ?_)
    refine (hname _).bind ((reads_expect hm.2.1 (by decide)).bind ?_)
    have hnull : Reads Reader.null
        (m.before ++ (['n', 'u', 'l', 'l'] ++ (m.after ++ '}' :: rest))) ()
        (m.after ++ '}' :: rest) :=
      (reads_peek hm.2.2.1 (by decide)).bind (reads_literal ['n', 'u', 'l', 'l'] _)
    exact hnull.bind ((reads_expect hm.2.2.2 (by decide)).bind (reads_pure a rest))

/-- A name without anything to escape is spelled by itself. -/
theorem spells_self (h : cs.all (IsPlain ·) = true) : Spells cs cs := by
  induction cs with
  | nil => exact .nil
  | cons c cs ih =>
    rw [List.all_cons, Bool.and_eq_true, decide_eq_true_eq] at h
    exact .plain h.1 (ih h.2)

end StochasticGame.Json
