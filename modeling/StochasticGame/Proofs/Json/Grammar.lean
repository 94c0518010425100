import StochasticGame.Proofs.Text.Spelling

/-!
# StochasticGame.Proofs.Json.Grammar

**The grammar of JSON.** Which texts are JSON values, stated without reference to a reader:
how spaces, strings, numbers, arrays and objects are put together. For strings there are two
relations. `IsQuoted` is the form alone, and `Spells` says which characters a string stands
for once its escapes are resolved; a string whose escapes leave half of a pair alone has the
form, but stands for no characters.
-/

namespace StochasticGame.Json

open Text (IsDigits IsSign)

/-- Nothing but spaces, line feeds, tabs and carriage returns, possibly none. -/
def IsSpaces (cs : List Char) : Prop := ∀ c ∈ cs, c = ' ' ∨ c = '\n' ∨ c = '\t' ∨ c = '\r'

instance (cs : List Char) : Decidable (IsSpaces cs) :=
  decidable_of_iff (cs.all fun c => c = ' ' ∨ c = '\n' ∨ c = '\t' ∨ c = '\r')
    (by simp only [List.all_eq_true, decide_eq_true_eq, IsSpaces])

/-! ### Strings -/

/-- A hexadecimal digit, in either case, and its value. -/
def IsHex (c : Char) (n : Nat) : Prop :=
  n < 16 ∧ (c = Nat.digitChar n ∨ c = (Nat.digitChar n).toUpper)

/-- Four hexadecimal digits and the code unit that they stand for. -/
inductive SpellsUnit : List Char → Nat → Prop where
  /-- The first digit counts most. -/
  | digits {a b c d : Char} {w x y z : Nat} (ha : IsHex a w) (hb : IsHex b x) (hc : IsHex c y)
    (hd : IsHex d z) : SpellsUnit [a, b, c, d] (16 ^ 3 * w + 16 ^ 2 * x + 16 * y + z)

/-- The letters of the short escapes, with the characters they stand for. -/
def shortEscapes : List (Char × Char) :=
  [('"', '"'), ('\\', '\\'), ('/', '/'), ('b', '\x08'), ('f', '\x0c'), ('n', '\n'), ('r', '\r'),
    ('t', '\t')]

/-- A character that stands for itself between quotes. -/
def IsPlain (c : Char) : Prop := c ≠ '"' ∧ c ≠ '\\' ∧ 0x20 ≤ c.toNat

instance (c : Char) : Decidable (IsPlain c) :=
  inferInstanceAs (Decidable (c ≠ '"' ∧ c ≠ '\\' ∧ 0x20 ≤ c.toNat))

/-- What may stand between the quotes of a string. -/
inductive IsQuoted : List Char → Prop where
  /-- Nothing. -/
  | nil : IsQuoted []
  /-- A character that stands for itself. -/
  | plain {c : Char} {cs : List Char} (hc : IsPlain c) (h : IsQuoted cs) : IsQuoted (c :: cs)
  /-- An escape by letter. -/
  | short {letter c : Char} {cs : List Char} (hc : (letter, c) ∈ shortEscapes)
    (h : IsQuoted cs) : IsQuoted ('\\' :: letter :: cs)
  /-- An escape by code unit. -/
  | unit {digits cs : List Char} {n : Nat} (hd : SpellsUnit digits n) (h : IsQuoted cs) :
    IsQuoted ('\\' :: 'u' :: (digits ++ cs))

/-- What stands between the quotes of a string spells these characters. -/
inductive Spells : List Char → List Char → Prop where
  /-- Nothing spells nothing. -/
  | nil : Spells [] []
  /-- A character that stands for itself. -/
  | plain {c : Char} {cs text : List Char} (hc : IsPlain c) (h : Spells cs text) :
    Spells (c :: cs) (c :: text)
  /-- An escape by letter. -/
  | short {letter c : Char} {cs text : List Char} (hc : (letter, c) ∈ shortEscapes)
    (h : Spells cs text) : Spells ('\\' :: letter :: cs) (c :: text)
  /-- An escape by code point. -/
  | unit {c : Char} {digits cs text : List Char} (hd : SpellsUnit digits c.toNat)
    (h : Spells cs text) : Spells ('\\' :: 'u' :: (digits ++ cs)) (c :: text)
  /-- Two escapes that make one character beyond the basic plane. -/
  | pair {c : Char} {digits digits' cs text : List Char} {high low : Nat}
    (hhigh : SpellsUnit digits (0xD800 + high)) (hlow : SpellsUnit digits' (0xDC00 + low))
    (hh : high < 0x400) (hl : low < 0x400) (hc : c.toNat = 0x10000 + (0x400 * high + low))
    (h : Spells cs text) :
    Spells ('\\' :: 'u' :: (digits ++ '\\' :: 'u' :: (digits' ++ cs))) (c :: text)

/-! ### Numbers -/

/-- The digits of a number before its point: no zero stands in front of others. -/
def IsWhole (cs : List Char) : Prop := IsDigits cs ∧ (cs.head? = some '0' → cs = ['0'])

/-- An optional point with digits. -/
inductive IsFraction : List Char → Prop where
  /-- There is none. -/
  | absent : IsFraction []
  /-- A point. -/
  | point {digits : List Char} (hd : IsDigits digits) : IsFraction ('.' :: digits)

/-- An optional exponent. -/
inductive IsExponent : List Char → Prop where
  /-- There is none. -/
  | absent : IsExponent []
  /-- A letter, an optional sign and digits. -/
  | letter {c : Char} {sign digits : List Char} {negative : Bool} (hc : c = 'e' ∨ c = 'E')
    (hsign : IsSign sign negative) (hd : IsDigits digits) : IsExponent (c :: (sign ++ digits))

/-- A number: an optional minus sign, digits, and optionally a fraction and an exponent. -/
inductive IsNumber : List Char → Prop where
  /-- All parts in their order. -/
  | parts {minus whole fraction exponent : List Char} (hm : minus = [] ∨ minus = ['-'])
    (hw : IsWhole whole) (hf : IsFraction fraction) (he : IsExponent exponent) :
    IsNumber (minus ++ (whole ++ (fraction ++ exponent)))

/-! ### Values -/

/-- A value between spaces, as the elements of arrays and the values of members stand. -/
structure Element where
  /-- The spaces before the value. -/
  before : List Char
  /-- The value. -/
  value : List Char
  /-- The spaces after the value. -/
  after : List Char

namespace Element

/-- The text of an element. -/
def text (e : Element) : List Char := e.before ++ (e.value ++ e.after)

/-- Spaces stand around the value. -/
def Spaced (e : Element) : Prop := IsSpaces e.before ∧ IsSpaces e.after

instance (e : Element) : Decidable e.Spaced :=
  inferInstanceAs (Decidable (IsSpaces e.before ∧ IsSpaces e.after))

end Element

/-- A member of an object: a key between spaces, a colon, and a value between spaces. -/
structure Member extends Element where
  /-- The spaces before the key. -/
  beforeKey : List Char
  /-- The key as it is spelled, without its quotes. -/
  key : List Char
  /-- The spaces after the key. -/
  afterKey : List Char

namespace Member

/-- The text of a member. -/
def text (m : Member) : List Char :=
  m.beforeKey ++ '"' :: (m.key ++ '"' :: (m.afterKey ++ ':' :: m.toElement.text))

/-- Spaces stand around the key and the value. -/
def Spaced (m : Member) : Prop :=
  IsSpaces m.beforeKey ∧ IsSpaces m.afterKey ∧ m.toElement.Spaced

instance (m : Member) : Decidable m.Spaced :=
  inferInstanceAs (Decidable (IsSpaces m.beforeKey ∧ IsSpaces m.afterKey ∧ m.toElement.Spaced))

end Member

/-- Texts separated by commas. -/
def commaSeparated (texts : List (List Char)) : List Char := [','].intercalate texts

/-- A JSON value. -/
inductive IsValue : List Char → Prop where
  /-- The null value. -/
  | null : IsValue ['n', 'u', 'l', 'l']
  /-- The true value. -/
  | isTrue : IsValue ['t', 'r', 'u', 'e']
  /-- The false value. -/
  | isFalse : IsValue ['f', 'a', 'l', 's', 'e']
  /-- A number. -/
  | number {cs : List Char} (h : IsNumber cs) : IsValue cs
  /-- A string. -/
  | string {cs : List Char} (h : IsQuoted cs) : IsValue ('"' :: (cs ++ ['"']))
  /-- An array without elements. -/
  | emptyArray {spaces : List Char} (hs : IsSpaces spaces) : IsValue ('[' :: (spaces ++ [']']))
  /-- An array. -/
  | array {elements : List Element} (hne : elements ≠ []) (hs : ∀ e ∈ elements, e.Spaced)
    (hv : ∀ e ∈ elements, IsValue e.value) :
    IsValue ('[' :: (commaSeparated (elements.map Element.text) ++ [']']))
  /-- An object without members. -/
  | emptyObject {spaces : List Char} (hs : IsSpaces spaces) : IsValue ('{' :: (spaces ++ ['}']))
  /-- An object. -/
  | object {members : List Member} (hne : members ≠ []) (hs : ∀ m ∈ members, m.Spaced)
    (hk : ∀ m ∈ members, IsQuoted m.key) (hv : ∀ m ∈ members, IsValue m.value) :
    IsValue ('{' :: (commaSeparated (members.map Member.text) ++ ['}']))

end StochasticGame.Json
