import SigilTemplate.Markup.Run

/-!
Reading by hand. A reader holds a source, an offset and the state of the text
that it has read. The offset may be moved anywhere, also into a character or
past the end; there the reader has no place and nothing can be read.
-/

namespace SigilTemplate

open Text

structure Reader where
  source : List Char
  pos : Nat := 0
  state : TextState := {}

namespace Reader

/-- The place of a reader, if a character starts at its offset or the source ends there. -/
def place? (reader : Reader) : Option Cursor := Cursor.ofOffset? reader.source reader.pos

def atEnd (reader : Reader) : Bool := byteLength reader.source ≤ reader.pos

def moveTo (offset : Nat) (reader : Reader) : Reader := { reader with pos := offset }

/-- Moves on by some bytes, to the end at most. -/
def moveBy (bytes : Nat) (reader : Reader) : Reader :=
  reader.moveTo (min (reader.pos + bytes) (byteLength reader.source))

def spanFrom (start : Nat) (reader : Reader) : Span := ⟨start, reader.pos⟩

/-- Looks at the characters from the place on, without moving. -/
def look? {α : Type} (view : Cursor → α) (reader : Reader) : Option α := reader.place?.map view

/-- Moves to where `read` leads, and gives the text on the way. -/
def read? (read : Cursor → Cursor) (reader : Reader) : Option (List Char × Reader) :=
  reader.place?.map fun place =>
    let after := read place
    (place.textTo after, reader.moveTo after.pos)

/-- Moves behind what `read` accepts; where it refuses, the reader stays. -/
def accept? (read : Cursor → Option Cursor) (reader : Reader) : Option (Bool × Reader) :=
  reader.place?.map fun place =>
    match read place with
    | some after => (true, reader.moveTo after.pos)
    | none => (false, reader)

/-- Reads a comment whose two opening bytes start at the offset, and gives the span of its content.
A comment that is not closed leaves the reader where it is. -/
def comment? (reader : Reader) : Option (Option Span × Reader) :=
  let inside := reader.moveTo (reader.pos + 2)
  if inside.atEnd then some (none, reader)
  else
    inside.place?.map fun start =>
      match start.commentClose? with
      | some close => (some (start.spanTo close), reader.moveTo (close.pos + 2))
      | none => (none, reader)

/-- Reads a run of text, and gives its content and span unless it is empty. -/
def text? (mode : TextMode) (reader : Reader) : Option (Option (List Char × Span) × Reader) :=
  reader.place?.map fun place =>
    let run := textRun mode reader.state place
    (if run.after.pos = place.pos then none else some (run.content, place.spanTo run.after),
      { reader with pos := run.after.pos, state := run.state })

end Reader

end SigilTemplate
