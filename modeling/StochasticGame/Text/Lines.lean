/-!
# StochasticGame.Text.Lines

**Lines of a file.** A line ends at a line feed, and one carriage return right
before it belongs to the ending. Bytes after the last line feed form a line of
their own, if there are any, and keep a carriage return.

A file is split before it is decoded: a line that is not UTF-8 spoils itself and
no other line.
-/

namespace StochasticGame.Text

/-- The bytes of a line, given in reverse, without a carriage return at the
end. -/
def dropReturn : List UInt8 → List UInt8
  | 13 :: line => line
  | line => line

/-- Split bytes into lines. The first two arguments hold the lines found so far
and the bytes of the current one, both in reverse. -/
def splitLines : List (List UInt8) → List UInt8 → List UInt8 → List (List UInt8)
  | found, [], [] => found.reverse
  | found, line, [] => (line.reverse :: found).reverse
  | found, line, byte :: rest =>
    if byte = 10 then splitLines ((dropReturn line).reverse :: found) [] rest
    else splitLines found (byte :: line) rest

/-- The lines of a file. -/
def lines (bytes : ByteArray) : List (List UInt8) := splitLines [] [] bytes.toList

/-- The characters of a line, if it is UTF-8. -/
def decode? (line : List UInt8) : Option (List Char) :=
  (String.fromUTF8? ⟨line.toArray⟩).map String.toList

end StochasticGame.Text
