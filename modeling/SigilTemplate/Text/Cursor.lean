import SigilTemplate.Text.Blank
import SigilTemplate.Text.Identifier
import SigilTemplate.Text.Span

/-!
A cursor is a place in a text together with the characters that can be read
from there. Going back is using an earlier cursor again, and a cursor whose
characters end early reads one part of a text at the offsets of the whole.

`Cursor.Reads` says that one cursor follows another after certain characters;
each operation comes with the statement of what it reads.
-/

namespace SigilTemplate

open Text

structure Cursor where
  pos : Nat
  rest : List Char

namespace Cursor

/-- Reading `text` moves the cursor from `c` to `d`. -/
structure Reads (c : Cursor) (text : List Char) (d : Cursor) : Prop where
  rest_eq : c.rest = text ++ d.rest
  pos_eq : d.pos = c.pos + byteLength text

theorem Reads.refl (c : Cursor) : c.Reads [] c := ⟨rfl, by simp⟩

theorem Reads.trans {c d e : Cursor} {s t : List Char} (first : c.Reads s d) (second : d.Reads t e) :
    c.Reads (s ++ t) e :=
  ⟨by rw [first.rest_eq, second.rest_eq, List.append_assoc],
    by rw [second.pos_eq, first.pos_eq, byteLength_append]; omega⟩

theorem Reads.length_le {c d : Cursor} {text : List Char} (h : c.Reads text d) :
    d.rest.length ≤ c.rest.length := by
  rw [h.rest_eq, List.length_append]; omega

theorem Reads.length_lt {c d : Cursor} {text : List Char} (h : c.Reads text d) (nonempty : text ≠ []) :
    d.rest.length < c.rest.length := by
  have := List.length_pos_iff.mpr nonempty
  rw [h.rest_eq, List.length_append]; omega

def ofText (text : List Char) : Cursor := ⟨0, text⟩

/-- The place at an offset, if a character starts there or the text ends there. -/
def ofOffset? (text : List Char) (offset : Nat) : Option Cursor :=
  (dropBytes? offset text).map (⟨offset, ·⟩)

/-- The first place at or after an offset; the end for one past it. -/
def fromOffset (text : List Char) (offset : Nat) : Cursor :=
  go 0 text
where
  go (pos : Nat) : List Char → Cursor
    | [] => ⟨pos, []⟩
    | ch :: rest => if pos < offset then go (pos + ch.utf8Size) rest else ⟨pos, ch :: rest⟩

def atEnd (c : Cursor) : Bool := c.rest.isEmpty

def peek (c : Cursor) : Option Char := c.rest.head?

/-- The character `n` characters further on. -/
def peekAt (c : Cursor) (n : Nat) : Option Char := c.rest[n]?

/-- The place after the next character; at the end, the place itself. -/
def next (c : Cursor) : Cursor :=
  match c.rest with
  | [] => c
  | ch :: rest => ⟨c.pos + ch.utf8Size, rest⟩

theorem reads_next {c : Cursor} {ch : Char} {rest : List Char} (h : c.rest = ch :: rest) :
    c.Reads [ch] c.next := by
  constructor <;> simp [next, h]

/-- The place after the next `n` characters. -/
def skip : Nat → Cursor → Cursor
  | 0, c => c
  | n + 1, c => skip n c.next

/-- The place of the end. -/
def finish (c : Cursor) : Cursor := ⟨c.pos + byteLength c.rest, []⟩

theorem reads_finish (c : Cursor) : c.Reads c.rest c.finish := ⟨by simp [finish], rfl⟩

/-- Reads one given character. -/
def eat? (ch : Char) (c : Cursor) : Option Cursor :=
  if c.peek = some ch then some c.next else none

/-- Reads a given text. -/
def eatText? : List Char → Cursor → Option Cursor
  | [], c => some c
  | ch :: text, c => (c.eat? ch).bind (eatText? text)

def startsWith (text : List Char) (c : Cursor) : Bool := text.isPrefixOf c.rest

/-- Moves on while the characters satisfy `p`. -/
def skipWhile (p : Char → Bool) (c : Cursor) : Cursor :=
  go c.pos c.rest
where
  go (pos : Nat) : List Char → Cursor
    | [] => ⟨pos, []⟩
    | ch :: rest => if p ch then go (pos + ch.utf8Size) rest else ⟨pos, ch :: rest⟩

theorem reads_skipWhile_go (p : Char → Bool) (pos : Nat) (text : List Char) :
    Reads ⟨pos, text⟩ (text.takeWhile p) (skipWhile.go p pos text) := by
  induction text generalizing pos with
  | nil => exact ⟨rfl, by simp [skipWhile.go]⟩
  | cons ch rest ih =>
    simp only [skipWhile.go, List.takeWhile_cons]
    split
    · exact Reads.trans (s := [ch]) ⟨rfl, by simp⟩ (ih _)
    · exact Reads.refl _

theorem reads_skipWhile (p : Char → Bool) (c : Cursor) :
    c.Reads (c.rest.takeWhile p) (c.skipWhile p) :=
  reads_skipWhile_go p c.pos c.rest

def skipBlank (c : Cursor) : Cursor := c.skipWhile isBlank

def skipInlineBlank (c : Cursor) : Cursor := c.skipWhile isInlineBlank

/-- The place after the identifier here; the place itself if there is none. -/
def skipIdent (c : Cursor) : Cursor :=
  match c.rest with
  | [] => c
  | ch :: _ => if isIdentStart ch then c.next.skipWhile isIdentPart else c

theorem reads_skipIdent (c : Cursor) : c.Reads (identHead c.rest) c.skipIdent := by
  cases h : c.rest with
  | nil => simp only [skipIdent, h, identHead]; exact Reads.refl c
  | cons ch rest =>
    simp only [skipIdent, h, identHead]
    split
    · have tail := reads_skipWhile isIdentPart c.next
      have same : c.next.rest = rest := by simp [next, h]
      rw [same] at tail
      exact Reads.trans (s := [ch]) (reads_next h) tail
    · exact Reads.refl c

/-- The text from here up to a later place. -/
def textTo (c d : Cursor) : List Char := takeBytes (d.pos - c.pos) c.rest

/-- The part of the text from here up to a later place, read at the same offsets. -/
def upTo (c d : Cursor) : Cursor := ⟨c.pos, c.textTo d⟩

def spanTo (c d : Cursor) : Span := ⟨c.pos, d.pos⟩

/-- The place after the last character before `d` that is not blank; `c` if there is none. -/
def trimmedEnd (c d : Cursor) : Cursor :=
  go c c.pos c.rest
where
  go (solid : Cursor) (pos : Nat) : List Char → Cursor
    | [] => solid
    | ch :: rest =>
      if pos < d.pos then
        let after := pos + ch.utf8Size
        go (if isBlank ch then solid else ⟨after, rest⟩) after rest
      else
        solid

end Cursor

end SigilTemplate
