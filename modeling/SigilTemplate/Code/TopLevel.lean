import SigilTemplate.Code.Enclosed

/-!
Delimiters of code that is not itself enclosed: the `{` after the head of a
statement, the `=>` after the pattern of a match arm, the commas between
arguments. Each counts only at bracket depth zero and outside literals. Unlike
in `enclosed`, the depth is one number for all kinds of brackets and never
falls below zero.
-/

namespace SigilTemplate.Code

/-- The first character outside brackets and literals at which `stops` holds. -/
def seek (stops : Cursor → Bool) (c : Cursor) : Option Cursor :=
  scan
    (fun (depth : Nat) ch place =>
      if depth = 0 && stops place then .inl (some place)
      else if isOpener ch then .inr (depth + 1)
      else if isCloser ch then .inr (depth - 1)
      else .inr depth)
    (fun _ _ => none) 0 c

/-- Where the head of a statement ends. -/
inductive HeadEnd where
  /-- At the `{` that opens the body. -/
  | block (brace : Cursor)
  /-- At an `@`, at a `}` that closes nothing, or at the end of the text. -/
  | stopped (place : Cursor)

def headEnd (c : Cursor) : HeadEnd :=
  match seek (fun place => place.peek ∈ [some '{', some '}', some '@']) c with
  | some place => if place.peek = some '{' then .block place else .stopped place
  | none => .stopped c.finish

/-- Where the pattern of a match arm ends. -/
inductive PatternEnd where
  /-- At the `=>`. -/
  | arrow (place : Cursor)
  /-- At a `}` that closes nothing, or at the end of the text. -/
  | stopped (place : Cursor)

def atArrow (c : Cursor) : Bool := c.startsWith ['=', '>']

def patternEnd (c : Cursor) : PatternEnd :=
  match seek (fun place => place.peek = some '}' || atArrow place) c with
  | some place => if atArrow place then .arrow place else .stopped place
  | none => .stopped c.finish

/-- The first `}` that closes nothing opened since `c`. -/
def unmatchedBrace? (c : Cursor) : Option Cursor := seek (fun place => place.peek = some '}') c

/-- The parts of a text between top-level separators. Angle brackets nest here, as in types. A
bracket or quote never separates. -/
def split (separator : Char) (c : Cursor) : List Cursor :=
  scan
    (fun ((depth, start, parts) : Nat × Cursor × List Cursor) ch place =>
      if isOpener ch || ch == '<' then .inr (depth + 1, start, parts)
      else if isCloser ch || ch == '>' then .inr (depth - 1, start, parts)
      else if depth = 0 && ch == separator && ch != '\x27' then
        .inr (0, place.next, start.upTo place :: parts)
      else .inr (depth, start, parts))
    (fun (_, start, parts) _ => (start :: parts).reverse) (0, c, []) c

end SigilTemplate.Code
