import SigilTemplate.Reading.Arms
import SigilTemplate.Reading.Declaration
import SigilTemplate.Reading.Tag

/-!
Constructs by their first characters, regions as sequences of constructs and
text, and the levels tied together: each level reads with what the level below
it can read.
-/

namespace SigilTemplate

open Text

/-- A component call from `start`: the name, the arguments, and the `{` of its body. Without a block
it is an expression like any other. -/
def callHead? (room : Nat) (start : Cursor) : Option (Fragment × Cursor × Cursor) :=
  let nameEnd := start.next.skipIdent
  if nameEnd.peek = some '(' then
    match Code.enclosed room nameEnd with
    | .ok arguments =>
      let brace := arguments.after.skipBlank
      if brace.peek = some '{' then some (.between start.next nameEnd, arguments.inner, brace) else none
    | .error _ => none
  else none

/-- A component call whose head has been read. Its body is one level further in than its braces. -/
def readCall (below : Below) (context : Context) (start : Cursor) (name : Fragment)
    (arguments brace : Cursor) : Traced ReadNode := do
  let level ← below.enter context brace
  let (body, after) ← readBlock level.nested context .component brace
  match callArguments? arguments with
  | some arguments =>
    pure (⟨.component ⟨name, .call, arguments, body, false⟩, start.spanTo after⟩, after)
  | none =>
    let node ← .recover (.malformedArguments name.text) (start.spanTo after) body
    pure (node, after)

/-- What a keyword starts. The place is the one after the keyword. -/
def readKeyword (below : Below) (context : Context) (keyword : Keyword) (start c : Cursor) :
    Traced ReadNode :=
  match keyword with
  | .ifBlock => readConditional below context start c
  | .elseBlock => readStrayElse below context start c
  | .forLoop | .whileLoop => readLoop below context keyword start c
  | .matchOn => readMatch below context start c
  | .continueLoop => pure (⟨.statement .continueLoop, start.spanTo c⟩, c)
  | .breakLoop => pure (⟨.statement .breakLoop, start.spanTo c⟩, c)
  | .layout => settleDirective keyword start (layoutDirective c)
  | .useFile => settleDirective keyword start (useDirective c)
  | .includeFile => settleDirective keyword start (stringDirective .includeFile c)
  | .render => settleDirective keyword start (stringDirective .render c)
  | .renderBody => settleDirective keyword start (bareDirective .renderBody c)
  | .childContent => settleDirective keyword start (bareDirective .childContent c)
  | .sectionBlock => readSection below context start c
  | .raw => readRaw context start c
  | .function => readFunction below context start c

/-- What a name after an `@` starts. -/
def readNamed (below : Below) (context : Context) (start : Cursor) (capital : Bool) :
    Traced ReadNode :=
  match Keyword.recognize? start.next.rest with
  | some keyword => readKeyword below context keyword start start.next.skipIdent
  | none =>
    match if capital then callHead? below.room start else none with
    | some (name, arguments, brace) => readCall below context start name arguments brace
    | none => readSimpleExpression below.room context false start start.next

/-- What an `@` starts, by the character after it. -/
def readSigil (below : Below) (context : Context) (start : Cursor) : Traced ReadNode :=
  match start.next.peek with
  | none => invalidSigil start start.next
  | some ch =>
    if ch = '*' then readComment context start
    else if ch = '{' then readCodeBlock below.room context start
    else if ch = '(' then readParenExpression below.room context false start start.next
    else if ch = '#' then readRawOutput below.room context start
    else if isIdentStart ch then readNamed below context start ch.isUpper
    else if ch = '&' then readSimpleExpression below.room context false start start.next
    else invalidSigil start start.next

/-- What a character ends, as far as braces, brackets and commas go. -/
def endAt? (mode : TextMode) (state : TextState) (ch : Char) : Option RegionEnd :=
  if mode = .free ∨ state.inString then none
  else if ch = '}' then
    match state.expected with
    | [] => some .closeBrace
    | expected :: _ => if expected = '}' then none else some (.unbalanced expected)
  else if ch = ',' ∧ mode = .arm ∧ state.expected.isEmpty then some .comma
  else none

/-- The nodes of a region so far, in reverse, what its text has opened, and the place after them. -/
structure RegionState where
  nodes : List Node
  text : TextState
  place : Cursor

def RegionState.stop (state : RegionState) (stop : RegionEnd) : Region :=
  ⟨state.nodes.reverse, stop, state.place⟩

def RegionState.push (state : RegionState) (read : ReadNode) : RegionState :=
  ⟨read.1 :: state.nodes, state.text, read.2⟩

/-- The next node of a region: a construct, or a run of text up to the next one. -/
def readItem (below : Below) (context : Context) (mode : TextMode) (state : RegionState) :
    Traced RegionState :=
  let c := state.place
  if c.atTagClose then do return state.push (← readStrayClose c)
  else if c.atTagOpen then do return state.push (← readTag below context c)
  else if c.atSigil then do return state.push (← readSigil below context c)
  else
    let run := textRun mode state.text c
    let node : Node := ⟨.text (String.ofList run.content), c.spanTo run.after⟩
    pure ⟨node :: state.nodes, run.state, run.after⟩

/-- The next node of a region, or its end. -/
def regionStep (below : Below) (context : Context) (kind : RegionKind) (state : RegionState) :
    Traced (RegionState ⊕ Region) :=
  match state.place.peek with
  | none => pure (.inr (state.stop .textEnd))
  | some ch =>
    match endAt? kind.mode state.text ch with
    | some stop => pure (.inr (state.stop stop))
    | none =>
      if state.place.atTagClose && kind.isTagBody then pure (.inr (state.stop .closeTag))
      else do return .inl (← readItem below context kind.mode state)

/-- The nodes from `c` up to what ends the region. -/
def readRegion (below : Below) (context : Context) (kind : RegionKind) (c : Cursor) : Traced Region :=
  .iterate context.size (·.place.pos) (regionStep below context kind) (·.stop .textEnd)
    ⟨[], {}, c⟩

/-- The level above some others. -/
def Level.above (below : Below) : Level :=
  { region := readRegion below
    nested := below.nested
    sigil := readSigil below
    conditional := readConditional below }

/-- The level with `room` further ones below it. -/
def Level.withRoom : (room : Nat) → Level
  | 0 => .above ⟨0, none⟩
  | room + 1 => .above ⟨room + 1, some fun _ => Level.withRoom room⟩

end SigilTemplate
