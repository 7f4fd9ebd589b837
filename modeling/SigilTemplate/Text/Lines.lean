/-!
The lines of a text. A line ends at a line feed, and a carriage return right
before the line feed belongs to the line end. What follows the last line feed
is a line unless it is empty, and keeps its carriage return.
-/

namespace SigilTemplate.Text

/-- A line that a line feed ended, from its characters in reverse. -/
def endedLine : List Char → List Char
  | '\r' :: line => line.reverse
  | line => line.reverse

/-- The lines of a text, the first of them after characters that are given in reverse. -/
def linesFrom (line : List Char) : List Char → List (List Char)
  | [] => if line.isEmpty then [] else [line.reverse]
  | c :: rest => if c = '\n' then endedLine line :: linesFrom [] rest else linesFrom (c :: line) rest

def lines (text : List Char) : List (List Char) := linesFrom [] text

end SigilTemplate.Text
