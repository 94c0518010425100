import StochasticGame.Json.Reader

/-!
# StochasticGame.Json.Text

**JSON strings.** A string that is wanted must be well formed: characters beyond
the basic plane that are written as two escapes need both halves. A string that
is skipped is only checked for the form of its escapes.

An escape by code point has four hexadecimal digits. The text has ended if fewer
than four bytes are left where they should stand.
-/

namespace StochasticGame.Json

/-- Whether a string is wanted or skipped. -/
inductive Care where
  /-- The characters are needed. -/
  | wanted
  /-- Only the form is checked. -/
  | skipped
  deriving DecidableEq

/-- The value of a hexadecimal digit. -/
def hexDigit? (c : Char) : Option Nat :=
  if c.isDigit then some (c.toNat - '0'.toNat)
  else if 'a' ≤ c ∧ c ≤ 'f' then some (c.toNat - 'a'.toNat + 10)
  else if 'A' ≤ c ∧ c ≤ 'F' then some (c.toNat - 'A'.toNat + 10)
  else none

/-- The value of four hexadecimal digits. -/
def hexUnit? (a b c d : Char) : Option Nat := do
  let a ← hexDigit? a
  let b ← hexDigit? b
  let c ← hexDigit? c
  let d ← hexDigit? d
  pure (((a * 16 + b) * 16 + c) * 16 + d)

/-- Why there are no four hexadecimal digits at the front of a text. -/
def hexFailure (text : List Char) : Failure :=
  if (String.ofList (text.take 4)).utf8ByteSize < 4 then .cutShort else .malformed

/-- Whether a unit is the first half of a pair. -/
def isLeading (unit : Nat) : Bool := 0xD800 ≤ unit && unit ≤ 0xDBFF

/-- Whether a unit is the second half of a pair. -/
def isTrailing (unit : Nat) : Bool := 0xDC00 ≤ unit && unit ≤ 0xDFFF

/-- The character that two halves make. -/
def joinHalves (leading trailing : Nat) : Char :=
  Char.ofNat (0x10000 + (leading - 0xD800) * 0x400 + (trailing - 0xDC00))

/-- Why the second half of a pair is missing at the front of a text. -/
def pairFailure : List Char → Failure
  | [] => .cutShort
  | ['\\'] => .cutShort
  | '\\' :: 'u' :: rest => hexFailure rest
  | _ => .malformed

/-- The character of an escape by letter. -/
def letterEscape? : Char → Option Char
  | '"' => some '"'
  | '\\' => some '\\'
  | '/' => some '/'
  | 'b' => some '\x08'
  | 'f' => some '\x0c'
  | 'n' => some '\n'
  | 'r' => some '\r'
  | 't' => some '\t'
  | _ => none

/-- Read a string after its opening quote. The second argument holds the
characters read so far in reverse. -/
def readString (care : Care) : List Char → List Char → Except Failure (String × List Char)
  | _, [] => .error .cutShort
  | found, '"' :: rest => .ok (String.ofList found.reverse, rest)
  | _, ['\\'] => .error .cutShort
  | found, '\\' :: 'u' :: a :: b :: c :: d :: rest =>
    match hexUnit? a b c d with
    | none => .error (hexFailure [a, b, c, d])
    | some unit =>
      if care = .skipped then readString care found rest
      else if isTrailing unit then .error .malformed
      else if isLeading unit then
        match rest with
        | '\\' :: 'u' :: a' :: b' :: c' :: d' :: rest' =>
          match hexUnit? a' b' c' d' with
          | none => .error (hexFailure [a', b', c', d'])
          | some second =>
            if isTrailing second then readString care (joinHalves unit second :: found) rest'
            else .error .malformed
        | _ => .error (pairFailure rest)
      else readString care (Char.ofNat unit :: found) rest
  | found, '\\' :: c :: rest =>
    if c = 'u' then .error (hexFailure rest)
    else
      match letterEscape? c with
      | some e => readString care (e :: found) rest
      | none => .error .malformed
  | found, c :: rest =>
    if c.toNat < 0x20 then .error .malformed else readString care (c :: found) rest

/-- Take a string after its opening quote. -/
def Reader.string (care : Care) : Reader String := fun text => readString care [] text

end StochasticGame.Json
