import SigilTemplate.Text.Cursor

/-!
The marks that end literal markup. An `@` starts a construct unless another `@`
follows it; a doubled one is a literal `@`. A `<` or `</` in front of an ASCII
capital starts a component tag, and any other `<` is text.
-/

namespace SigilTemplate

open Text

/-- The characters after a `<` make it the start of an opening component tag. -/
def opensTag (rest : List Char) : Bool := rest.head?.any Char.isUpper

/-- The characters after a `<` make it the start of a closing component tag. -/
def closesTag (rest : List Char) : Bool :=
  match rest with
  | '/' :: rest => opensTag rest
  | _ => false

namespace Cursor

def atEscape (c : Cursor) : Bool := c.startsWith ['@', '@']

/-- An `@` that starts a construct. -/
def atSigil (c : Cursor) : Bool := c.peek == some '@' && !c.atEscape

def atCommentOpen (c : Cursor) : Bool := c.startsWith ['@', '*']

def atCommentClose (c : Cursor) : Bool := c.startsWith ['*', '@']

def atTagOpen (c : Cursor) : Bool := c.peek == some '<' && opensTag c.next.rest

def atTagClose (c : Cursor) : Bool := c.peek == some '<' && closesTag c.next.rest

/-- The next `*@`. -/
def commentClose? (c : Cursor) : Option Cursor :=
  go c.pos c.rest
where
  go (pos : Nat) : List Char → Option Cursor
    | [] => none
    | '*' :: '@' :: rest => some ⟨pos, '*' :: '@' :: rest⟩
    | ch :: rest => go (pos + ch.utf8Size) rest

/-- The place after a component name: words joined by single dots, each dot before an identifier. -/
def skipTagName (c : Cursor) : Cursor :=
  go c.pos c.rest
where
  go (pos : Nat) : List Char → Cursor
    | [] => ⟨pos, []⟩
    | ch :: rest =>
      if isIdentPart ch || (ch == '.' && rest.head?.any isIdentStart) then
        go (pos + ch.utf8Size) rest
      else
        ⟨pos, ch :: rest⟩

end Cursor

end SigilTemplate
