/-!
Spans are half-open ranges of byte offsets into a text. A text is a list of
characters, and offsets count the bytes of its UTF-8 encoding, so not every
offset is the start of a character: slicing answers only where both ends are.
-/

namespace SigilTemplate

/-- A half-open range of byte offsets. Nothing forces `start ≤ stop`. -/
structure Span where
  start : Nat
  stop : Nat
deriving DecidableEq, Inhabited

namespace Span

/-- The empty span at an offset. -/
def point (offset : Nat) : Span := ⟨offset, offset⟩

/-- A reversed span has length zero. -/
def length (s : Span) : Nat := s.stop - s.start

def isEmpty (s : Span) : Bool := s.stop ≤ s.start

/-- The smallest span that covers both. -/
def cover (s t : Span) : Span := ⟨min s.start t.start, max s.stop t.stop⟩

def contains (s t : Span) : Bool := s.start ≤ t.start && t.stop ≤ s.stop

end Span

namespace Text

/-- The number of bytes that a text takes. -/
def byteLength (text : List Char) : Nat :=
  text.foldl (fun total c => total + c.utf8Size) 0

theorem byteLength_foldl (text : List Char) (total : Nat) :
    text.foldl (fun total c => total + c.utf8Size) total = total + byteLength text := by
  induction text generalizing total with
  | nil => rfl
  | cons c rest ih =>
    simp only [byteLength, List.foldl_cons] at ih ⊢
    rw [ih, ih (0 + c.utf8Size)]
    omega

@[simp]
theorem byteLength_nil : byteLength [] = 0 := rfl

@[simp]
theorem byteLength_cons (c : Char) (rest : List Char) :
    byteLength (c :: rest) = c.utf8Size + byteLength rest := by
  simp only [byteLength, List.foldl_cons]
  rw [byteLength_foldl]
  simp only [byteLength]
  omega

@[simp]
theorem byteLength_append (a b : List Char) :
    byteLength (a ++ b) = byteLength a + byteLength b := by
  induction a with
  | nil => simp
  | cons c rest ih => simp [ih]; omega

/-- What is left after the first `n` bytes, if a character starts there or the text ends there. -/
def dropBytes? : Nat → List Char → Option (List Char)
  | 0, text => some text
  | _ + 1, [] => none
  | n + 1, c :: rest => if c.utf8Size ≤ n + 1 then dropBytes? (n + 1 - c.utf8Size) rest else none

/-- The characters that fit into the first `n` bytes, reversed onto `taken`. -/
def takeBytesOnto (taken : List Char) : Nat → List Char → List Char
  | 0, _ => taken
  | _ + 1, [] => taken
  | n + 1, c :: rest =>
    if c.utf8Size ≤ n + 1 then takeBytesOnto (c :: taken) (n + 1 - c.utf8Size) rest else taken

/-- The longest run of leading characters that takes at most `n` bytes. -/
def takeBytes (n : Nat) (text : List Char) : List Char := (takeBytesOnto [] n text).reverse

/-- The text of a span. Refuses a reversed span, one that leaves the text and one that cuts a character. -/
def slice? (text : List Char) (span : Span) : Option (List Char) :=
  if span.start ≤ span.stop then
    (dropBytes? span.start text).bind fun rest =>
      let part := takeBytes span.length rest
      if byteLength part = span.length then some part else none
  else
    none

end Text

end SigilTemplate
