import SigilTemplate.Markup.Run
import SigilTemplate.Reading.Traced

/-!
Levels of nesting. Constructs hold regions, and regions hold constructs; every
way from one into another enters a level, and the number of levels is bounded.
A level is the record of what can be read at it, so what reads a construct is a
plain function of the level below, and the levels are built one on the other.

Around a construct only its context matters: the component tags that are open
since the last brace, and whether there is a brace around it at all.
-/

namespace SigilTemplate

/-- What surrounds a construct. -/
structure Context where
  /-- Bytes of the whole source. -/
  size : Nat
  maxDepth : Nat
  /-- Names of the open component tags, innermost first, back to the innermost brace. -/
  openTags : List String
  /-- Some brace is open. -/
  braced : Bool

/-- Between braces, tags opened outside are out of sight. -/
def Context.insideBraces (context : Context) : Context :=
  { context with openTags := [], braced := true }

def Context.insideTag (context : Context) (name : String) : Context :=
  { context with openTags := name :: context.openTags }

/-- Where a sequence of nodes is read. -/
inductive RegionKind where
  | topLevel
  | braced
  /-- The body of a component tag, with or without a brace around the tag. -/
  | tagBody (braced : Bool)
  /-- The inline body of a match arm. -/
  | arm
deriving DecidableEq

def RegionKind.mode : RegionKind → TextMode
  | topLevel => .free
  | braced => .braced
  | tagBody inBraces => if inBraces then .braced else .free
  | arm => .arm

def RegionKind.isTagBody : RegionKind → Bool
  | tagBody _ => true
  | _ => false

/-- What ends a region. It is not part of the region. -/
inductive RegionEnd where
  | textEnd
  | closeBrace
  | closeTag
  | comma
  /-- A `}` while the text still expects another delimiter. -/
  | unbalanced (expected : Char)
deriving DecidableEq

/-- A region that has been read. -/
structure Region where
  nodes : List Node
  stop : RegionEnd
  after : Cursor

/-- A node that has been read, and the place after it. -/
abbrev ReadNode := Node × Cursor

/-- What can be read at one level. -/
structure Level where
  /-- A region of this level. -/
  region : Context → RegionKind → Cursor → Traced Region
  /-- A region one level further in. -/
  nested : Context → RegionKind → Cursor → Traced Region
  /-- What an `@` starts. -/
  sigil : Context → Cursor → Traced ReadNode
  /-- An `if` that starts at the first place and whose condition starts at the second. -/
  conditional : Context → Cursor → Cursor → Traced ReadNode

/-- The levels that are left below a construct. -/
structure Below where
  /-- How many there are. Delimiters in code may nest as deep. -/
  room : Nat
  /-- The next one, if there is one. -/
  next : Option (Unit → Level)

def tooDeep (context : Context) (pos : Nat) : Fault :=
  { cause := .recursionLimit context.maxDepth, span := .point pos }

/-- Enters the next level at a place. -/
def Below.enter (below : Below) (context : Context) (c : Cursor) : Traced Level :=
  match below.next with
  | some level => pure (level ())
  | none => .fail (tooDeep context c.pos)

/-- A region one level further in. -/
def Below.nested (below : Below) (context : Context) (kind : RegionKind) (c : Cursor) :
    Traced Region := do
  let level ← below.enter context c
  level.region context kind c

def unterminatedBlock (context : Context) (role : BlockRole) (brace : Cursor) : Fault :=
  { cause := .unterminatedBlock role
    span := .point context.size
    related := some ⟨brace.pos, brace.pos + 1⟩ }

/-- A block between braces, from its `{` to the place after its `}`. `nested` reads what is inside. -/
def readBlock (nested : Context → RegionKind → Cursor → Traced Region) (context : Context)
    (role : BlockRole) (brace : Cursor) : Traced (List Node × Cursor) := do
  let inside ← nested context.insideBraces .braced brace.next
  match inside.stop with
  | .closeBrace => pure (inside.nodes, inside.after.next)
  | _ => .fail (unterminatedBlock context role brace)

end SigilTemplate
