import SigilTemplate.Text.Lines
import SigilTemplate.Text.Position

/-!
Snippets: the line of a source where a span starts, and where under that line
the span is to be marked. Both ends of the span are moved back to a character
boundary first, so every span has a place; only the place behind the last line
end has no line.
-/

namespace SigilTemplate

open Text

structure Snippet where
  /-- The number of the line, from one. -/
  number : Nat
  line : List Char
  /-- The characters of the line before the mark. -/
  column : Nat
  /-- The characters under the mark, at least one. -/
  width : Nat
deriving DecidableEq

namespace Snippet

/-- The width of a mark. A span that goes on behind its first line is marked up to the line's end. -/
def markWidth (start stop : Position) (line : List Char) : Nat :=
  if stop.line = start.line then max (stop.column - start.column) 1
  else max (line.length - start.column) 1

def of? (source : List Char) (span : Span) : Option Snippet :=
  let start := Position.locate source span.start
  let stop := Position.locate source span.stop
  (lines source)[start.line]?.map fun line =>
    ⟨start.line + 1, line, start.column, markWidth start stop line⟩

end Snippet

end SigilTemplate
