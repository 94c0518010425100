/-!
# StochasticGame.Report.Document

**Documents and their indented text.** A document is written over several lines
with two spaces of indentation per level; an empty list or record stays on one
line. Texts and names hold no character that would need an escape.
-/

namespace StochasticGame.Report

/-- A structured document. -/
inductive Document where
  /-- A truth value. -/
  | bool (b : Bool)
  /-- A number. -/
  | number (n : Nat)
  /-- A text. -/
  | text (s : String)
  /-- A list. -/
  | list (items : List Document)
  /-- Named parts in order. -/
  | record (parts : List (String × Document))

/-- The start of a line at a level of indentation. -/
def newline (level : Nat) : String := "\n" ++ String.join (List.replicate level "  ")

mutual

/-- The text of a document that starts at a level of indentation. -/
def Document.render (level : Nat) : Document → String
  | .bool b => toString b
  | .number n => toString n
  | .text s => "\"" ++ s ++ "\""
  | .list [] => "[]"
  | .list (item :: rest) =>
    "[" ++ newline (level + 1) ++ item.render (level + 1) ++ renderItems level rest ++
      newline level ++ "]"
  | .record [] => "\x7b\x7d"
  | .record ((name, part) :: rest) =>
    "\x7b" ++ newline (level + 1) ++ "\"" ++ name ++ "\": " ++ part.render (level + 1) ++
      renderParts level rest ++ newline level ++ "\x7d"

/-- The text of the items after the first one. -/
def renderItems (level : Nat) : List Document → String
  | [] => ""
  | item :: rest =>
    "," ++ newline (level + 1) ++ item.render (level + 1) ++ renderItems level rest

/-- The text of the parts after the first one. -/
def renderParts (level : Nat) : List (String × Document) → String
  | [] => ""
  | (name, part) :: rest =>
    "," ++ newline (level + 1) ++ "\"" ++ name ++ "\": " ++ part.render (level + 1) ++
      renderParts level rest

end

/-- The text of a document with a final line feed. -/
def Document.pretty (d : Document) : String := d.render 0 ++ "\n"

end StochasticGame.Report
