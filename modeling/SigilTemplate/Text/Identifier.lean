import SigilTemplate.Text.Span

/-!
Identifiers are ASCII: a letter or underscore, then letters, digits and
underscores.
-/

namespace SigilTemplate.Text

def isIdentStart (c : Char) : Bool := c.isAlpha || c == '_'

def isIdentPart (c : Char) : Bool := c.isAlphanum || c == '_'

/-- The identifier at the start of the text; empty if there is none. -/
def identHead : List Char → List Char
  | [] => []
  | c :: rest => if isIdentStart c then c :: rest.takeWhile isIdentPart else []

/-- The whole text is one identifier, or empty. -/
def isIdentOrEmpty (text : List Char) : Bool := (identHead text).length == text.length

end SigilTemplate.Text
