import SigilTemplate.Proofs.Ledger.Basic

/-!
The readers with books. Each enters and leaves levels, opens and closes braces
and puts tags aside in its own text, on every way through it; what surrounds a
construct is what the ledger shows where it starts. Readers stand on others that
read one level further in, and these on others again.
-/

namespace SigilTemplate

/-- What a reader calls one level further in. -/
structure Readers where
  region : RegionKind → Cursor → Booked Region
  sigil : Cursor → Booked ReadNode
  /-- An `if` that starts at the first place and whose condition starts at the second. -/
  conditional : Cursor → Cursor → Booked ReadNode

namespace Booked
open Text

variable (bounds : Bounds) (inner : Readers)

/-! ## Blocks and statements -/

def readBlock (role : BlockRole) (brace : Cursor) : Booked (List Node × Cursor) := do
  enter bounds brace.next
  let tags ← takeTags
  openBrace
  let inside ← inner.region .braced brace.next
  closeBrace
  restoreTags tags
  leave
  match inside.stop with
  | .closeBrace => pure (inside.nodes, inside.after.next)
  | _ => do
    let ledger ← ledger
    traced (.fail (unterminatedBlock (ledger.context bounds) role brace))

def readElse (c : Cursor) : Booked (Option (ElseClause Node) × Cursor) :=
  match c.skipBlank.eatText? ['e', 'l', 's', 'e'] with
  | none => pure (none, c)
  | some afterElse =>
    let place := afterElse.skipBlank
    if place.peek = some '{' then do
      let (body, after) ← readBlock bounds inner (.body .elseBlock) place
      pure (some (.block body), after)
    else if afterElse.pos < place.pos ∧ Keyword.recognize? place.rest = some .ifBlock then do
      let (node, after) ← inner.conditional place (place.skip 2)
      pure (some (.chained node), after)
    else
      pure (none, c)

def readConditional (start c : Cursor) : Booked ReadNode := do
  enter bounds c
  let node ← (match statementHead c with
    | .missing stop => traced (missingBlock .ifBlock start stop)
    | .ready condition brace => do
      let (body, after) ← readBlock bounds inner (.body .ifBlock) brace
      let (otherwise, after) ← readElse bounds inner after
      traced (settleStatement .ifBlock condition (.conditional condition body otherwise) start after))
  leave
  pure node

def readLoop (keyword : Keyword) (start c : Cursor) : Booked ReadNode := do
  enter bounds c
  let node ← (match statementHead c with
    | .missing stop => traced (missingBlock keyword start stop)
    | .ready header brace => do
      let (body, after) ← readBlock bounds inner (.body keyword) brace
      traced (settleStatement keyword header (loopStatement keyword header body) start after))
  leave
  pure node

/-- An `else` with no `if` before it; the `if` after it enters its level itself. -/
def readStrayElse (start c : Cursor) : Booked ReadNode := do
  let place := c.skipBlank
  let (children, after) ←
    if place.peek = some '{' then readBlock bounds inner (.body .elseBlock) place
    else if Keyword.recognize? place.rest = some .ifBlock then do
      let (node, after) ← readConditional bounds inner place (place.skip 2)
      pure ([node], after)
    else pure ([], c)
  let node ← traced (.recover .unexpectedElse (start.spanTo after) children)
  pure (node, after)

/-! ## Matches -/

def readInlineArm (brace : Cursor) (arrowEnd : Nat) (c : Cursor) : Booked (ArmBody Node × Nat × Cursor) := do
  enter bounds c
  let region ← inner.region .arm c
  leave
  match region.stop with
  | .textEnd => do
    let ledger ← ledger
    traced (.fail (unterminatedBlock (ledger.context bounds) (.body .matchOn) brace))
  | .unbalanced expected => do
    let node ← traced (.recover (.unbalanced expected '}') (c.spanTo region.after) region.nodes)
    pure (.inline [node], region.after.pos, region.after)
  | _ =>
    let nodes := trimTail region.nodes
    pure (.inline nodes, (nodes.getLast?.map (·.span.stop)).getD arrowEnd, region.after)

def readArm (brace c arrow : Cursor) : Booked (Arm Node × Cursor) := do
  let pattern := Fragment.trimmed (c.upTo arrow)
  let arrowEnd := arrow.skip 2
  let start := arrowEnd.skipBlank
  let (body, stop, after) ←
    if start.peek = some '{' then do
      let (nodes, after) ← readBlock bounds inner .arm start
      pure (ArmBody.block nodes, after.pos, after)
    else readInlineArm bounds inner brace arrowEnd.pos start
  pure (⟨pattern, body, ⟨c.pos, stop⟩⟩, (after.skipBlank.eat? ',').getD after)

/-- After a malformed arm the match is skipped up to its end. -/
def skipArms (brace c : Cursor) (arms : List (Arm Node)) : Booked (ArmsState ⊕ ArmsEnd) :=
  match Code.unmatchedBrace? c with
  | some close => pure (.inr (.malformed (armNodes arms) close.next))
  | none => do
    let ledger ← ledger
    traced (.fail (unterminatedBlock (ledger.context bounds) (.body .matchOn) brace))

def armsStep (brace : Cursor) (state : ArmsState) : Booked (ArmsState ⊕ ArmsEnd) :=
  let c := state.place.skipBlank
  match c.peek with
  | none => do
    let ledger ← ledger
    traced (.fail (unterminatedBlock (ledger.context bounds) (.body .matchOn) brace))
  | some ch =>
    if ch = '}' then pure (.inr (.closed state.arms.reverse c.next))
    else
      match Code.patternEnd c with
      | .arrow arrow =>
        if (c.textTo arrow).all isBlank then skipArms bounds brace c state.arms.reverse
        else do
          let (arm, after) ← readArm bounds inner brace c arrow
          pure (.inl ⟨arm :: state.arms, after⟩)
      | .stopped _ => skipArms bounds brace c state.arms.reverse

def readArms (brace : Cursor) : Booked ArmsEnd :=
  iterate bounds.size (·.place.pos) (armsStep bounds inner brace)
    (fun state => .closed state.arms.reverse state.place) ⟨[], brace.next⟩

def readMatch (start c : Cursor) : Booked ReadNode := do
  enter bounds c
  let node ← (match statementHead c with
    | .missing stop => traced (missingBlock .matchOn start stop)
    | .ready subject brace => do
      let tags ← takeTags
      openBrace
      let arms ← readArms bounds inner brace
      closeBrace
      restoreTags tags
      match arms with
      | .closed arms after => traced (settleStatement .matchOn subject (.matchOn subject arms) start after)
      | .malformed nodes after => do
        let node ← traced (.recover .malformedArm (start.spanTo after) nodes)
        pure (node, after))
  leave
  pure node

/-! ## Tags -/

def readAttributeValue (c : Cursor) : Booked (Except Cursor (ArgumentValue Node × Cursor)) :=
  match c.peek with
  | none => pure (.error c)
  | some ch =>
    if ch = '"' ∨ ch = '\x27' then
      pure ((stringLiteral c).map fun (text, after) => (.string text, after))
    else if ch = '{' then do
      let (body, after) ← readBlock bounds inner .argument c
      pure (.ok (.block body, after))
    else if c.atSigil then do
      let (node, after) ← inner.sigil c
      pure (.ok (.expression node, after))
    else
      let after := c.skipWhile isWordPart
      match constantValue? (c.textTo after) with
      | some value => pure (.ok (value, after))
      | none => pure (.error after)

def readAttribute (c : Cursor) : Booked (Except Cursor (Argument Node × Cursor)) :=
  let nameEnd := c.skipWhile isAttributePart
  let name := Fragment.between c nameEnd
  match nameEnd.skipBlank.eat? '=' with
  | none => pure (.ok (⟨name, .flag, c.spanTo nameEnd⟩, nameEnd))
  | some equals => do
    let value ← readAttributeValue bounds inner equals.skipBlank
    pure (value.map fun (value, after) => (⟨name, value, c.spanTo after⟩, after))

def tagHeadStep (state : TagHeadState) : Booked (TagHeadState ⊕ TagHead) :=
  let c := state.place.skipBlank
  let malformed (stop : Cursor) : Booked (TagHeadState ⊕ TagHead) :=
    pure (.inr (.malformed (argumentNodes state.arguments.reverse) stop))
  match c.eat? '>' with
  | some after => pure (.inr (.closed state.arguments.reverse false after))
  | none =>
    match c.eatText? ['/', '>'] with
    | some after => pure (.inr (.closed state.arguments.reverse true after))
    | none =>
      if state.place.pos < c.pos ∧ c.peek.any isIdentStart then do
        match ← readAttribute bounds inner c with
        | .ok (argument, after) => pure (.inl ⟨argument :: state.arguments, after⟩)
        | .error stop => malformed stop
      else malformed c

def readTagHead (c : Cursor) : Booked TagHead :=
  iterate bounds.size (·.place.pos) (tagHeadStep bounds inner)
    (fun state => .malformed (argumentNodes state.arguments.reverse) state.place) ⟨[], c⟩

/-- A tag leaves its level in three places, as its opening tag ends. -/
def readTag (start : Cursor) : Booked ReadNode := do
  let nameEnd := start.next.skipTagName
  let name := Fragment.between start.next nameEnd
  enter bounds nameEnd
  match ← readTagHead bounds inner nameEnd with
  | .malformed nodes stop => do
    leave
    traced (brokenTag (.malformedHead name.text) start (skipBrokenHead stop) [] nodes)
  | .closed arguments true after => do
    leave
    pure (⟨.component ⟨name, .tag, arguments, [], true⟩, start.spanTo after⟩, after)
  | .closed arguments false after => do
    pushTag name.text
    let around ← ledger
    let body ← inner.region (.tagBody (decide (0 < around.braces))) after
    popTag
    leave
    match body.stop with
    | .closeTag => do
      let ledger ← ledger
      traced (settleTag (ledger.context bounds) start name arguments body)
    | _ => traced (brokenTag (.unclosedTag name.text) start body.after arguments body.nodes)

/-! ## What an `@` starts -/

/-- The body of a call is two levels further in: the call enters one, and its block another. -/
def readCall (start : Cursor) (name : Fragment) (arguments brace : Cursor) : Booked ReadNode := do
  enter bounds brace
  let (body, after) ← readBlock bounds inner .component brace
  leave
  match callArguments? arguments with
  | some arguments =>
    pure (⟨.component ⟨name, .call, arguments, body, false⟩, start.spanTo after⟩, after)
  | none => do
    let node ← traced (.recover (.malformedArguments name.text) (start.spanTo after) body)
    pure (node, after)

def readFunction (start c : Cursor) : Booked ReadNode := do
  let ledger ← ledger
  match functionHead (ledger.room bounds) c with
  | .ok ((name, parameters), brace) => do
    let (body, after) ← readBlock bounds inner (.body .function) brace
    traced (settleDirective .function start (.ok (.function name parameters body, after)))
  | .error stop => traced (malformedDirective .function start stop)

def readSection (start c : Cursor) : Booked ReadNode := do
  let ledger ← ledger
  if c.peek = some '(' then
    traced (readSectionValue (ledger.room bounds) (ledger.context bounds) start c)
  else
    match sectionHead c with
    | .ok (name, brace) => do
      let (body, after) ← readBlock bounds inner (.body .sectionBlock) brace
      traced (settleDirective .sectionBlock start (.ok (.sectionBlock name body, after)))
    | .error stop => traced (malformedDirective .sectionBlock start stop)

def readKeyword (keyword : Keyword) (start c : Cursor) : Booked ReadNode := do
  let ledger ← ledger
  match keyword with
  | .ifBlock => readConditional bounds inner start c
  | .elseBlock => readStrayElse bounds inner start c
  | .forLoop | .whileLoop => readLoop bounds inner keyword start c
  | .matchOn => readMatch bounds inner start c
  | .continueLoop => pure (⟨.statement .continueLoop, start.spanTo c⟩, c)
  | .breakLoop => pure (⟨.statement .breakLoop, start.spanTo c⟩, c)
  | .layout => traced (settleDirective keyword start (layoutDirective c))
  | .useFile => traced (settleDirective keyword start (useDirective c))
  | .includeFile => traced (settleDirective keyword start (stringDirective .includeFile c))
  | .render => traced (settleDirective keyword start (stringDirective .render c))
  | .renderBody => traced (settleDirective keyword start (bareDirective .renderBody c))
  | .childContent => traced (settleDirective keyword start (bareDirective .childContent c))
  | .sectionBlock => readSection bounds inner start c
  | .raw => traced (readRaw (ledger.context bounds) start c)
  | .function => readFunction bounds inner start c

def readNamed (start : Cursor) (capital : Bool) : Booked ReadNode := do
  let ledger ← ledger
  match Keyword.recognize? start.next.rest with
  | some keyword => readKeyword bounds inner keyword start start.next.skipIdent
  | none =>
    match if capital then callHead? (ledger.room bounds) start else none with
    | some (name, arguments, brace) => readCall bounds inner start name arguments brace
    | none => traced (readSimpleExpression (ledger.room bounds) (ledger.context bounds) false start start.next)

def readSigil (start : Cursor) : Booked ReadNode := do
  let ledger ← ledger
  let room := ledger.room bounds
  let context := ledger.context bounds
  match start.next.peek with
  | none => traced (invalidSigil start start.next)
  | some ch =>
    if ch = '*' then traced (readComment context start)
    else if ch = '{' then traced (readCodeBlock room context start)
    else if ch = '(' then traced (readParenExpression room context false start start.next)
    else if ch = '#' then traced (readRawOutput room context start)
    else if isIdentStart ch then readNamed bounds inner start ch.isUpper
    else if ch = '&' then traced (readSimpleExpression room context false start start.next)
    else traced (invalidSigil start start.next)

/-! ## Regions -/

def readItem (mode : TextMode) (state : RegionState) : Booked RegionState :=
  let c := state.place
  if c.atTagClose then do return state.push (← traced (readStrayClose c))
  else if c.atTagOpen then do return state.push (← readTag bounds inner c)
  else if c.atSigil then do return state.push (← readSigil bounds inner c)
  else
    let run := textRun mode state.text c
    let node : Node := ⟨.text (String.ofList run.content), c.spanTo run.after⟩
    pure ⟨node :: state.nodes, run.state, run.after⟩

def regionStep (kind : RegionKind) (state : RegionState) : Booked (RegionState ⊕ Region) :=
  match state.place.peek with
  | none => pure (.inr (state.stop .textEnd))
  | some ch =>
    match endAt? kind.mode state.text ch with
    | some stop => pure (.inr (state.stop stop))
    | none =>
      if state.place.atTagClose && kind.isTagBody then pure (.inr (state.stop .closeTag))
      else do return .inl (← readItem bounds inner kind.mode state)

def readRegion (kind : RegionKind) (c : Cursor) : Booked Region :=
  iterate bounds.size (·.place.pos) (regionStep bounds inner kind) (·.stop .textEnd) ⟨[], {}, c⟩

end Booked

/-! ## The recursion -/

/-- The readers that stand on some others. -/
def Readers.above (bounds : Bounds) (inner : Readers) : Readers :=
  { region := Booked.readRegion bounds inner
    sigil := Booked.readSigil bounds inner
    conditional := Booked.readConditional bounds inner }

/-- So many layers of readers one on the other, and some others below them all. -/
def Readers.stacked (bounds : Bounds) (base : Readers) : Nat → Readers
  | 0 => base
  | layers + 1 => .above bounds (base.stacked bounds layers)

def Bounds.ofSource (options : ReadOptions) (source : List Char) : Bounds := ⟨Text.byteLength source, options.maxDepth⟩

/-- A whole template. -/
def Booked.trace (options : ReadOptions) (source : List Char) (inner : Readers) : Booked Tree := do
  let start := contentCursor source
  let (leading, c) :=
    ((if options.header then readHeader? options.maxDepth start else none)).getD ([], start)
  let region ← readRegion (.ofSource options source) inner .topLevel c
  pure ⟨leading ++ region.nodes, source, start.pos⟩

end SigilTemplate
