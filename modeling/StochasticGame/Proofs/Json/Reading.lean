import Mathlib.Tactic.Ring
import StochasticGame.Json.Record
import StochasticGame.Proofs.Json.Grammar

/-!
# StochasticGame.Proofs.Json.Reading

**What the grammar derives, the readers take.** A reader that is given a text of its kind and
something after it consumes exactly the text. A number ends where the digits end, so what
follows a value must not go on with it; after a value of a JSON text there is a space, a comma
or a closing bracket, or nothing.
-/

namespace StochasticGame.Json

open Text (IsDigits IsSign digitsValue)
open Reader

variable {α β : Type} {s text rest cs : List Char} {c : Char}

/-! ### Readers one after another -/

/-- The reader takes the front off the text and yields the value. -/
def Reads (reader : Reader α) (text : List Char) (a : α) (rest : List Char) : Prop :=
  reader.run text = .ok (a, rest)

theorem Reads.bind {reader : Reader α} {next : α → Reader β} {between : List Char} {a : α} {b : β}
    (h : Reads reader text a between) (h' : Reads (next a) between b rest) :
    Reads (reader >>= next) text b rest := by
  unfold Reads at *
  rw [StateT.run_bind, h]
  exact h'

theorem reads_pure (a : α) (text : List Char) : Reads (pure a) text a text := rfl

theorem reads_next? (text : List Char) : Reads next? text text.head? text := rfl

theorem reads_advance (c : Char) (rest : List Char) : Reads advance (c :: rest) () rest := rfl

@[simp] theorem isSpaces_nil : IsSpaces [] := fun _ hc => absurd hc List.not_mem_nil

theorem IsSpaces.isSpace (hs : IsSpaces s) : ∀ c ∈ s, isSpace c = true :=
  fun c hc => decide_eq_true (hs c hc)

theorem dropWhile_isSpace (hs : IsSpaces s) (hc : isSpace c = false) :
    (s ++ c :: rest).dropWhile isSpace = c :: rest := by
  rw [List.dropWhile_append_of_pos hs.isSpace, List.dropWhile_cons_of_neg (by simp [hc])]

theorem reads_peek (hs : IsSpaces s) (hc : isSpace c = false) :
    Reads peek (s ++ c :: rest) c (c :: rest) := by
  have hspaces : Reads spaces (s ++ c :: rest) () ((s ++ c :: rest).dropWhile isSpace) := rfl
  rw [dropWhile_isSpace hs hc] at hspaces
  exact hspaces.bind ((reads_next? _).bind (reads_pure c _))

theorem reads_expect (hs : IsSpaces s) (hc : isSpace c = false) :
    Reads (expect c) (s ++ c :: rest) () rest := by
  refine (reads_peek hs hc).bind ?_
  rw [if_pos rfl]
  exact reads_advance c rest

theorem reads_literal (cs rest : List Char) : Reads (literal cs) (cs ++ rest) () rest := by
  induction cs with
  | nil => exact reads_pure () rest
  | cons c cs ih =>
    refine (reads_next? _).bind ((reads_advance c _).bind ?_)
    rw [if_pos rfl]
    exact ih

theorem readAll_eq_ok {reader : Reader α} {a : α} (h : Reads reader text a rest)
    (hrest : IsSpaces rest) : readAll reader text = .ok a := by
  have hnil : (rest.dropWhile isSpace).isEmpty = true := by
    rw [List.dropWhile_eq_nil_iff.2 hrest.isSpace]
    rfl
  rw [readAll, h]
  exact if_pos hnil

/-! ### Strings -/

theorem hexDigit?_of_isHex {n : Nat} (h : IsHex c n) : hexDigit? c = some n := by
  have hall : ∀ n < 16, hexDigit? (Nat.digitChar n) = some n ∧
      hexDigit? (Nat.digitChar n).toUpper = some n := by
    decide
  obtain ⟨hn, rfl | rfl⟩ := h
  · exact (hall n hn).1
  · exact (hall n hn).2

theorem SpellsUnit.hexUnit? {digits : List Char} {n : Nat} (h : SpellsUnit digits n) :
    ∃ a b c d, digits = [a, b, c, d] ∧ Json.hexUnit? a b c d = some n := by
  cases h with
  | @digits a b c d w x y z ha hb hc hd =>
    refine ⟨a, b, c, d, rfl, ?_⟩
    rw [Json.hexUnit?, hexDigit?_of_isHex ha, hexDigit?_of_isHex hb, hexDigit?_of_isHex hc,
      hexDigit?_of_isHex hd]
    exact congrArg some (by ring)

theorem letterEscape?_of_mem {letter : Char} (h : (letter, c) ∈ shortEscapes) :
    letter ≠ 'u' ∧ letterEscape? letter = some c := by
  have hall : ∀ e ∈ shortEscapes, e.1 ≠ 'u' ∧ letterEscape? e.1 = some e.2 := by decide
  exact hall _ h

variable {care : Care} {found : List Char}

theorem readString_plain (hc : IsPlain c) :
    readString care found (c :: rest) = readString care (c :: found) rest := by
  obtain ⟨hquote, hslash, hcontrol⟩ := hc
  rw [readString]
  · rw [if_neg (Nat.not_lt.2 hcontrol)]
  all_goals simp_all

theorem readString_short {letter : Char} (h : (letter, c) ∈ shortEscapes) :
    readString care found ('\\' :: letter :: rest) = readString care (c :: found) rest := by
  obtain ⟨hu, hletter⟩ := letterEscape?_of_mem h
  rw [readString, if_neg hu, hletter]
  intros
  exact absurd ‹letter = 'u'› hu

/-- A code point is half of no pair. -/
theorem isLeading_toNat (c : Char) : isLeading c.toNat = false ∧ isTrailing c.toNat = false := by
  have hvalid : c.toNat.isValidChar := c.valid
  unfold Nat.isValidChar at hvalid
  simp only [isLeading, isTrailing, Bool.and_eq_false_iff, decide_eq_false_iff_not]
  omega

theorem readString_unit {digits : List Char} (hd : SpellsUnit digits c.toNat) :
    readString .wanted found ('\\' :: 'u' :: (digits ++ rest)) =
      readString .wanted (c :: found) rest := by
  obtain ⟨d₁, d₂, d₃, d₄, rfl, hunit⟩ := hd.hexUnit?
  obtain ⟨hleading, htrailing⟩ := isLeading_toNat c
  simp only [List.cons_append, List.nil_append]
  rw [readString, hunit]
  simp [hleading, htrailing]

theorem readString_pair {digits digits' : List Char} {high low : Nat}
    (hhigh : SpellsUnit digits (0xD800 + high)) (hlow : SpellsUnit digits' (0xDC00 + low))
    (hh : high < 0x400) (hl : low < 0x400) (hc : c.toNat = 0x10000 + (0x400 * high + low)) :
    readString .wanted found ('\\' :: 'u' :: (digits ++ '\\' :: 'u' :: (digits' ++ rest))) =
      readString .wanted (c :: found) rest := by
  obtain ⟨d₁, d₂, d₃, d₄, rfl, hunit⟩ := hhigh.hexUnit?
  obtain ⟨e₁, e₂, e₃, e₄, rfl, hunit'⟩ := hlow.hexUnit?
  have hleading : isLeading (0xD800 + high) = true ∧ isTrailing (0xD800 + high) = false := by
    simp only [isLeading, isTrailing, Bool.and_eq_true, decide_eq_true_eq, Bool.and_eq_false_iff,
      decide_eq_false_iff_not]
    omega
  have htrailing : isTrailing (0xDC00 + low) = true := by
    simp only [isTrailing, Bool.and_eq_true, decide_eq_true_eq]
    omega
  have hjoin : joinHalves (0xD800 + high) (0xDC00 + low) = c := by
    have hsum : 0x10000 + (0xD800 + high - 0xD800) * 0x400 + (0xDC00 + low - 0xDC00) = c.toNat := by
      omega
    rw [joinHalves, hsum, Char.ofNat_toNat]
  simp only [List.cons_append, List.nil_append]
  rw [readString, hunit]
  simp [hleading, htrailing, hunit', hjoin]

/-- A wanted string is read as the characters that it spells. -/
theorem readString_wanted {body chars : List Char} (h : Spells body chars) :
    readString .wanted found (body ++ '"' :: rest) =
      .ok (String.ofList (found.reverse ++ chars), rest) := by
  -- each character moves from the text to the front of what has been found
  have hmove : ∀ (c : Char) (found chars : List Char),
      (c :: found).reverse ++ chars = found.reverse ++ c :: chars := by simp
  induction h generalizing found with
  | nil => rw [List.nil_append, readString, List.append_nil]
  | plain hc _ ih => rw [List.cons_append, readString_plain hc, ih, hmove]
  | short hc _ ih => rw [List.cons_append, List.cons_append, readString_short hc, ih, hmove]
  | unit hd _ ih =>
    rw [List.cons_append, List.cons_append, List.append_assoc, readString_unit hd, ih, hmove]
  | pair hhigh hlow hh hl hc _ ih =>
    simp only [List.cons_append, List.append_assoc]
    rw [readString_pair hhigh hlow hh hl hc, ih, hmove]

/-- A string that is skipped need only have the form of one. -/
theorem readString_skipped {body : List Char} (h : IsQuoted body) :
    ∃ text, readString .skipped found (body ++ '"' :: rest) = .ok (text, rest) := by
  induction h generalizing found with
  | nil => exact ⟨_, by rw [List.nil_append, readString]⟩
  | plain hc _ ih =>
    rw [List.cons_append, readString_plain hc]
    exact ih
  | short hc _ ih =>
    rw [List.cons_append, List.cons_append, readString_short hc]
    exact ih
  | unit hd _ ih =>
    obtain ⟨d₁, d₂, d₃, d₄, rfl, hunit⟩ := hd.hexUnit?
    simp only [List.cons_append, List.nil_append]
    rw [readString, hunit]
    exact ih

theorem reads_string_wanted {body : List Char} {name : String} (h : Spells body name.toList) :
    Reads (string .wanted) (body ++ '"' :: rest) name rest := by
  have hread : Reads (string .wanted) (body ++ '"' :: rest)
      (String.ofList ([].reverse ++ name.toList)) rest := readString_wanted h
  rwa [List.reverse_nil, List.nil_append, String.ofList_toList] at hread

theorem reads_string_skipped {body : List Char} (h : IsQuoted body) :
    ∃ text, Reads (string .skipped) (body ++ '"' :: rest) text rest :=
  readString_skipped h

/-! ### Numbers -/

/-- What may stand after a value: a space, a comma or a closing bracket, or nothing. -/
def EndsValue (rest : List Char) : Prop :=
  ∀ c, rest.head? = some c → isSpace c = true ∨ c = ',' ∨ c = ']' ∨ c = '}'

/-- Whether a character can go on with a number. -/
def isNumberPart (c : Char) : Bool := c.isDigit || c = '.' || c = 'e' || c = 'E'

theorem EndsValue.not_isNumberPart (h : EndsValue rest) (hc : rest.head? = some c) :
    isNumberPart c = false := by
  rcases h c hc with hspace | rfl | rfl | rfl
  · simp only [isSpace, decide_eq_true_eq] at hspace
    rcases hspace with rfl | rfl | rfl | rfl <;> decide
  all_goals decide

theorem reads_digits {digits : List Char} (atEnd : Failure) (hd : IsDigits digits)
    (hrest : ∀ c, rest.head? = some c → c.isDigit = false) :
    Reads (Reader.digits atEnd) (digits ++ rest) digits rest := by
  have hspan : (digits ++ rest).takeWhile Char.isDigit = digits ∧
      (digits ++ rest).dropWhile Char.isDigit = rest := by
    rw [List.takeWhile_append_of_pos hd.2, List.dropWhile_append_of_pos hd.2]
    cases rest with
    | nil => simp
    | cons c rest => simp [hrest c rfl]
  have hset : Reads (set ((digits ++ rest).dropWhile Char.isDigit)) (digits ++ rest) () rest := by
    rw [hspan.2]
    rfl
  have hget : Reads get (digits ++ rest) (digits ++ rest) (digits ++ rest) := rfl
  refine hget.bind ?_
  rw [hspan.1]
  obtain ⟨d, ds, rfl⟩ := List.exists_cons_of_ne_nil hd.1
  exact hset.bind (reads_pure _ _)

theorem reads_wholeDigits {whole : List Char} (atEnd : Failure) (hw : IsWhole whole)
    (hrest : ∀ c, rest.head? = some c → c.isDigit = false) :
    Reads (wholeDigits atEnd) (whole ++ rest) whole rest := by
  refine (reads_digits atEnd hw.1 hrest).bind ?_
  have hzero : ¬ (whole.head? = some '0' ∧ whole.length ≠ 1) := by
    rintro ⟨hhead, hlength⟩
    exact hlength (by rw [hw.2 hhead]; rfl)
  rw [if_neg hzero]
  exact reads_pure whole rest

theorem reads_fractionDigits {fraction : List Char} (atEnd : Failure) (hf : IsFraction fraction)
    (hrest : ∀ c, rest.head? = some c → c.isDigit = false ∧ c ≠ '.') :
    Reads (fractionDigits atEnd) (fraction ++ rest) fraction.tail rest := by
  refine (reads_next? _).bind ?_
  cases hf with
  | absent =>
    have hpoint : ¬ ([] ++ rest).head? = some '.' := fun h => (hrest '.' h).2 rfl
    rw [if_neg hpoint]
    exact reads_pure [] rest
  | point hd =>
    rw [List.cons_append, List.head?_cons, if_pos rfl]
    exact (reads_advance '.' _).bind (reads_digits atEnd hd fun c hc => (hrest c hc).1)

theorem reads_sign {sign digits : List Char} {negative : Bool} (hs : IsSign sign negative)
    (hd : IsDigits digits) :
    Reads Reader.sign (sign ++ (digits ++ rest)) negative (digits ++ rest) := by
  refine (reads_next? _).bind ?_
  cases hs with
  | plus => exact (reads_advance '+' _).bind (reads_pure false _)
  | minus => exact (reads_advance '-' _).bind (reads_pure true _)
  | absent =>
    obtain ⟨d, ds, rfl⟩ := List.exists_cons_of_ne_nil hd.1
    split
    · rename_i hminus
      exact absurd (Option.some_inj.1 hminus) (hd.ne List.mem_cons_self (by decide))
    · rename_i hplus
      exact absurd (Option.some_inj.1 hplus) (hd.ne List.mem_cons_self (by decide))
    · exact reads_pure false _

theorem reads_exponent_absent (atEnd : Failure)
    (hrest : ∀ c, rest.head? = some c → isNumberPart c = false) :
    Reads (Reader.exponent atEnd) rest none rest := by
  refine (reads_next? _).bind ?_
  have hletter : ¬ (rest.head? = some 'e' ∨ rest.head? = some 'E') := by
    rintro (he | he)
    · exact absurd (hrest 'e' he) (by decide)
    · exact absurd (hrest 'E' he) (by decide)
  rw [if_neg hletter]
  exact reads_pure none rest

theorem exists_reads_exponent {exponent : List Char} (atEnd : Failure) (he : IsExponent exponent)
    (hrest : ∀ c, rest.head? = some c → isNumberPart c = false) :
    ∃ x, Reads (Reader.exponent atEnd) (exponent ++ rest) x rest := by
  cases he with
  | absent => exact ⟨none, reads_exponent_absent atEnd hrest⟩
  | @letter c sign digits negative hc hsign hd =>
    have hdigit : ∀ c, rest.head? = some c → c.isDigit = false := by
      intro c hc
      have hpart := hrest c hc
      simp only [isNumberPart, Bool.or_eq_false_iff] at hpart
      exact hpart.1.1.1
    have hletter : some c = some 'e' ∨ some c = some 'E' :=
      hc.imp (congrArg some) (congrArg some)
    refine ⟨some (if negative then -(digitsValue digits : Int) else digitsValue digits),
      (reads_next? _).bind ?_⟩
    rw [List.cons_append, List.head?_cons, if_pos hletter, List.append_assoc]
    refine (reads_advance c _).bind ((reads_sign hsign hd).bind ?_)
    exact (reads_digits atEnd hd hdigit).bind (reads_pure _ _)

/-- A number is read part by part. -/
theorem reads_numberText {minus whole text between fraction : List Char} {exponent : Option Int}
    {atEnd : Failure} (hm : minus = [] ∨ minus = ['-']) (hw : IsWhole whole)
    (htext : ∀ c, text.head? = some c → c.isDigit = false)
    (hf : Reads (fractionDigits atEnd) text fraction between)
    (he : Reads (Reader.exponent atEnd) between exponent rest) :
    Reads (numberText atEnd) (minus ++ (whole ++ text))
      { negative := minus ≠ [], whole, fraction, exponent } rest := by
  have hparts : ∀ negative, Reads
      (do let whole ← wholeDigits atEnd
          let fraction ← fractionDigits atEnd
          let exponent ← Reader.exponent atEnd
          pure (NumberText.mk negative whole fraction exponent))
      (whole ++ text) (NumberText.mk negative whole fraction exponent) rest := fun _ =>
    (reads_wholeDigits atEnd hw htext).bind (hf.bind (he.bind (reads_pure _ _)))
  refine (reads_next? _).bind ?_
  rcases hm with rfl | rfl
  · obtain ⟨d, ds, rfl⟩ := List.exists_cons_of_ne_nil hw.1.1
    have hminus : ¬ ([] ++ (d :: ds ++ text)).head? = some '-' := fun h =>
      hw.1.ne List.mem_cons_self (by decide) (Option.some_inj.1 h)
    simp only [hminus, decide_false]
    exact (reads_pure _ _).bind (hparts false)
  · exact (reads_advance '-' _).bind (hparts true)

/-- Neither a digit nor a point stands where an exponent may begin. -/
theorem IsExponent.head_append {exponent : List Char} (he : IsExponent exponent)
    (hrest : EndsValue rest) (hc : (exponent ++ rest).head? = some c) :
    c.isDigit = false ∧ c ≠ '.' := by
  cases he with
  | absent =>
    have hpart := hrest.not_isNumberPart hc
    simp only [isNumberPart, Bool.or_eq_false_iff, decide_eq_false_iff_not] at hpart
    exact ⟨hpart.1.1.1, hpart.1.1.2⟩
  | letter hletter _ _ =>
    obtain rfl := Option.some_inj.1 hc
    rcases hletter with rfl | rfl <;> decide

theorem IsFraction.head_append {fraction exponent : List Char} (hf : IsFraction fraction)
    (he : IsExponent exponent) (hrest : EndsValue rest)
    (hc : (fraction ++ (exponent ++ rest)).head? = some c) : c.isDigit = false := by
  cases hf with
  | absent => exact (he.head_append hrest hc).1
  | point _ =>
    obtain rfl := Option.some_inj.1 hc
    decide

theorem exists_reads_numberText (atEnd : Failure) (h : IsNumber cs) (hrest : EndsValue rest) :
    ∃ t, Reads (numberText atEnd) (cs ++ rest) t rest := by
  cases h with
  | @parts minus whole fraction exponent hm hw hf he =>
    obtain ⟨x, hx⟩ := exists_reads_exponent atEnd he fun c hc => hrest.not_isNumberPart hc
    have hfraction : Reads (fractionDigits atEnd) (fraction ++ (exponent ++ rest)) fraction.tail
        (exponent ++ rest) :=
      reads_fractionDigits atEnd hf fun c hc => he.head_append hrest hc
    refine ⟨⟨minus ≠ [], whole, fraction.tail, x⟩, ?_⟩
    simp only [List.append_assoc]
    exact reads_numberText hm hw (fun c hc => hf.head_append he hrest hc) hfraction hx

end StochasticGame.Json
