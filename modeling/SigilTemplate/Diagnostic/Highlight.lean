import SigilTemplate.Markup.Marks
import SigilTemplate.Text.Alphanumeric

/-!
Colours for a line of a template. The line falls into pieces, some of them
painted: comments, sigils with the word after them, component tags up to the
end of their name, and quoted strings. The line is read on its own, so what
began on an earlier line is not known here.
-/

namespace SigilTemplate

open Text

inductive Paint where
  | tag
  | sigil
  | string
  | comment
deriving DecidableEq

structure Piece where
  paint : Option Paint
  text : List Char
deriving DecidableEq

namespace Highlight

def isWordPart (ch : Char) : Bool := isAlphanumeric ch || ch == '_'

def isTagPart (ch : Char) : Bool := isWordPart ch || ch == '.'

/-- The characters of a comment after its opening mark: up to and with its close, or all of them. -/
def commentLength : List Char → Nat
  | [] => 0
  | '*' :: '@' :: _ => 2
  | _ :: rest => commentLength rest + 1

/-- The characters of a string after its opening quote: up to and with the closing one, or all of
them. A backslash takes the next character along. -/
def stringLength : List Char → Nat
  | [] => 0
  | '"' :: _ => 1
  | '\\' :: _ :: rest => stringLength rest + 2
  | _ :: rest => stringLength rest + 1

/-- The characters after a sigil that belong to it: marks for raw output and borrows, then a word. -/
def sigilLength (rest : List Char) : Nat :=
  let marks := rest.takeWhile fun ch => ch == '#' || ch == '&'
  marks.length + ((rest.drop marks.length).takeWhile isWordPart).length

/-- How a piece is painted that starts with `ch`, and how many of the characters after it belong to
the piece. -/
def lead (ch : Char) (rest : List Char) : Option Paint × Nat :=
  if ch = '@' then
    match rest with
    | '@' :: _ => (none, 1)
    | '*' :: rest => (some .comment, commentLength rest + 1)
    | _ => (some .sigil, sigilLength rest)
  else if ch = '<' ∧ opensTag rest then (some .tag, (rest.takeWhile isTagPart).length)
  else if ch = '<' ∧ closesTag rest then
    (some .tag, ((rest.drop 1).takeWhile isTagPart).length + 1)
  else if ch = '"' then (some .string, stringLength rest)
  else (none, 0)

/-- The pieces of a line, in order. -/
def pieces (line : List Char) : List Piece :=
  match line with
  | [] => []
  | ch :: rest =>
    let (paint, size) := lead ch rest
    ⟨paint, ch :: rest.take size⟩ :: pieces (rest.drop size)
termination_by line.length
decreasing_by simp only [List.length_drop, List.length_cons]; omega

/-- Nothing of a line is lost. -/
theorem flatMap_pieces (line : List Char) : (pieces line).flatMap (·.text) = line := by
  fun_induction pieces line with
  | case1 => rfl
  | case2 ch rest paint size same ih => simp [ih]

end Highlight

/-- The terminal code that starts a colour. -/
def Paint.code : Paint → List Char
  | tag => "\x1b[38;5;180m".toList
  | sigil => "\x1b[38;5;173m".toList
  | string => "\x1b[38;5;72m".toList
  | comment => "\x1b[38;5;243m".toList

/-- The terminal code that ends all colours. -/
def Paint.reset : List Char := "\x1b[0m".toList

def Piece.painted (piece : Piece) : List Char :=
  match piece.paint with
  | none => piece.text
  | some paint => paint.code ++ piece.text ++ Paint.reset

/-- A line with its colours. -/
def highlight (line : List Char) : List Char := (Highlight.pieces line).flatMap Piece.painted

end SigilTemplate
