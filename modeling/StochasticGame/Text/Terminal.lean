/-!
# StochasticGame.Text.Terminal

**Text without control sequences.** A terminal takes some characters as commands
and shows the others. `shown` keeps of a text what a terminal shows: visible
characters and the breaks tab, line feed, form feed and carriage return.

An escape character starts a sequence. What follows it says where the sequence
ends:

* a *designation* (escape, then intermediate characters from the space to `/`)
  and a *control sequence* (escape, `[`) end with a character that closes them;
* an *operating system command* (escape, `]`) ends with the bell;
* a *device string* (escape, `P`) has a head of parameters and intermediate
  characters before its text;
* the text of a device string, and that after escape and `X`, `^` or `_`, ends
  with the byte 9C.

The characters 18 and 1A cancel a sequence, and another escape starts a new one.
-/

namespace StochasticGame.Text

/-- Where a terminal stands in a sequence. -/
inductive TerminalPhase where
  /-- Outside of sequences. -/
  | ground
  /-- After the escape character. -/
  | escape
  /-- In a designation. -/
  | designation
  /-- In a control sequence. -/
  | control
  /-- In an operating system command. -/
  | command
  /-- At the start of the head of a device string. -/
  | deviceHead
  /-- In the parameters of a device string. -/
  | deviceParameters
  /-- In the intermediate characters of a device string. -/
  | deviceIntermediates
  /-- In a text that is not shown. -/
  | text
  deriving DecidableEq

/-- Whether a character breaks a line or separates words. -/
def isBreak (c : Char) : Bool := c = '\t' ∨ c = '\n' ∨ c = '\x0c' ∨ c = '\r'

/-- Whether a character is shown outside of sequences. -/
def isShown (c : Char) : Bool := isBreak c ∨ (0x20 ≤ c.toNat ∧ c.toNat ≠ 0x7f)

/-- Whether a character's code point lies in a range, both ends included. -/
def isBetween (lo hi : Nat) (c : Char) : Bool := lo ≤ c.toNat ∧ c.toNat ≤ hi

/-- Whether a character may stand before the one that closes a sequence. -/
def isIntermediate (c : Char) : Bool := isBetween 0x20 0x2f c

/-- Whether a character is part of a parameter. -/
def isParameter (c : Char) : Bool := isBetween 0x30 0x3b c

/-- Whether a character marks a private sequence. -/
def isPrivateMark (c : Char) : Bool := isBetween 0x3c 0x3f c

/-- Whether a character closes a control sequence or the head of a device
string. -/
def isFinal (c : Char) : Bool := isBetween 0x40 0x7e c

/-- Whether a character ends a text that is not shown. -/
def endsText (c : Char) : Bool := (String.utf8EncodeChar c).contains 0x9c

namespace TerminalPhase

/-- Whether breaks are shown in a phase. -/
def showsBreaks : TerminalPhase → Bool
  | ground => true
  | escape => true
  | designation => true
  | control => true
  | _ => false

/-- The phase after a character that is not shown and neither cancels nor starts
a sequence. -/
def advance (p : TerminalPhase) (c : Char) : TerminalPhase :=
  match p with
  | ground => ground
  | escape =>
    if isIntermediate c then designation
    else if c = '[' then control
    else if c = ']' then command
    else if c = 'P' then deviceHead
    else if c = 'X' ∨ c = '^' ∨ c = '_' then text
    else if isBetween 0x30 0x7e c then ground
    else escape
  | designation => if isBetween 0x30 0x7e c then ground else designation
  | control => if isFinal c then ground else control
  | command => if c = '\x07' then ground else command
  | deviceHead =>
    if isIntermediate c then deviceIntermediates
    else if isParameter c ∨ isPrivateMark c then deviceParameters
    else if isFinal c then text
    else deviceHead
  | deviceParameters =>
    if isIntermediate c then deviceIntermediates
    else if isPrivateMark c ∨ isFinal c then text
    else deviceParameters
  | deviceIntermediates =>
    if isParameter c ∨ isPrivateMark c ∨ isFinal c then text else deviceIntermediates
  | text => if endsText c then ground else text

/-- The phase after a character that is not shown. -/
def next (p : TerminalPhase) (c : Char) : TerminalPhase :=
  if c = '\x18' ∨ c = '\x1a' then ground
  else if c = '\x1b' then escape
  else p.advance c

end TerminalPhase

/-- The state of a terminal. -/
structure Terminal where
  /-- Where it stands in a sequence. -/
  phase : TerminalPhase := .ground
  /-- Whether it shows what comes up to the next command. A break inside a
  sequence starts that without ending the sequence. -/
  showing : Bool := false

namespace Terminal

/-- Whether a terminal shows a character. -/
def shows (t : Terminal) (c : Char) : Bool :=
  if t.showing ∨ t.phase = .ground then isShown c else isBreak c && t.phase.showsBreaks

/-- The state after a character. One beyond ASCII, if shown, ends any sequence. -/
def next (t : Terminal) (c : Char) : Terminal :=
  if t.shows c then { phase := if c.toNat < 0x80 then t.phase else .ground, showing := true }
  else { phase := t.phase.next c, showing := false }

/-- The characters that a terminal shows. -/
def filter : Terminal → List Char → List Char
  | _, [] => []
  | t, c :: rest => if t.shows c then c :: (t.next c).filter rest else (t.next c).filter rest

end Terminal

/-- What a terminal shows of a text. -/
def shown (s : String) : String := String.ofList (Terminal.filter {} s.toList)

end StochasticGame.Text
