import SigilTemplate.Text.Span

/-!
Positions for people and for editors. Spans are byte offsets; a message shows
line and column, and an editor counts 16-bit units.
-/

namespace SigilTemplate.Text

/-- A place in a text: its byte offset, the line it is on and its column in characters, all from zero. -/
structure Position where
  byte : Nat
  line : Nat
  column : Nat
deriving DecidableEq

namespace Position

/-- The position one character further on. A line feed ends its line. -/
def next (p : Position) (c : Char) : Position :=
  if c = '\n' then ⟨p.byte + c.utf8Size, p.line + 1, 0⟩
  else ⟨p.byte + c.utf8Size, p.line, p.column + 1⟩

/-- Moves over whole characters while they end at or before `offset`. -/
def walkTo (offset : Nat) (p : Position) : List Char → Position
  | [] => p
  | c :: rest => if p.byte + c.utf8Size ≤ offset then walkTo offset (p.next c) rest else p

/-- The last character boundary at or before `offset`. An offset past the end counts as the end. -/
def locate (text : List Char) (offset : Nat) : Position := walkTo offset ⟨0, 0, 0⟩ text

end Position

/-- The 16-bit units that a character takes. -/
def unitsOf (c : Char) : Nat := if c.toNat < 0x10000 then 1 else 2

/-- The 16-bit units of a text. -/
def units (text : List Char) : Nat := text.foldl (fun total c => total + unitsOf c) 0

/-- The 16-bit offset of a byte offset, which must be a character boundary. One past the end counts as the end. -/
def unitOffset? (text : List Char) (offset : Nat) : Option Nat :=
  (slice? text ⟨0, min offset (byteLength text)⟩).map units

end SigilTemplate.Text
