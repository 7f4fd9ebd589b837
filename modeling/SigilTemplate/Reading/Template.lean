import SigilTemplate.Reading.Region

/-!
Reading a whole template: a byte order mark, perhaps a header that declares its
parameters, and the region that is the rest.
-/

namespace SigilTemplate

open Text

structure ReadOptions where
  /-- How deep regions, statements, tags and delimiters in code may nest. -/
  maxDepth : Nat := 128
  /-- A leading `@(name: Type, …);` declares parameters. -/
  header : Bool := true
deriving DecidableEq, Inhabited

/-- The white space before a header, as a text node. -/
def leadingText (c start : Cursor) : List Node :=
  if c.pos < start.pos then [⟨.text (String.ofList (c.textTo start)), c.spanTo start⟩] else []

/-- A header, perhaps after white space: the nodes for both, and the place after it. What does not
have the exact shape of a header is left to be read as anything else. -/
def readHeader? (maxDepth : Nat) (c : Cursor) : Option (List Node × Cursor) := do
  let start := c.skipBlank
  let sigil ← start.eat? '@'
  if sigil.peek ≠ some '(' then none
  else
    match Code.enclosed maxDepth sigil with
    | .error _ => none
    | .ok fragment =>
      let parameters ← templateParameters? fragment.inner
      let after ← fragment.after.skipBlank.eat? ';'
      pure (leadingText c start ++ [⟨.parameters parameters, start.spanTo after⟩], after)

/-- The mark that may stand before everything else. -/
def byteOrderMark : Char := '\ufeff'

/-- The place where the template starts. -/
def contentCursor (source : List Char) : Cursor :=
  let c := Cursor.ofText source
  (c.eat? byteOrderMark).getD c

/-- Reads a template. -/
def Tree.trace (options : ReadOptions) (source : List Char) : Traced Tree := do
  let context : Context :=
    { size := byteLength source, maxDepth := options.maxDepth, openTags := [], braced := false }
  let start := contentCursor source
  let (leading, c) :=
    ((if options.header then readHeader? options.maxDepth start else none)).getD ([], start)
  let region ← (Level.withRoom options.maxDepth).region context .topLevel c
  pure ⟨leading ++ region.nodes, source, start.pos⟩

/-- The tree of a template, or why there is none. -/
def Tree.read (options : ReadOptions) (source : List Char) : Except Fault Tree :=
  (Tree.trace options source).outcome

end SigilTemplate
