import SigilTemplate.Reading.Argument
import SigilTemplate.Reading.Level
import SigilTemplate.Tree.Fold

/-!
Component tags. An opening tag has a name and attributes, and either closes
itself or has a body up to its closing tag. A closing tag with another name
ends the body too: if it belongs to a tag further out it is left there for it,
otherwise it is taken along.
-/

namespace SigilTemplate

open Text

def isAttributePart (ch : Char) : Bool := ch.isAlphanum || ch == '-' || ch == '_'

/-- A character of an unquoted attribute value. -/
def isWordPart (ch : Char) : Bool := ch.isAlphanum || ch == '.' || ch == '-' || ch == '_'

/-- A constant without quotes: a truth value or a number. -/
def constantValue? (word : List Char) : Option (ArgumentValue Node) :=
  let text := String.ofList word
  if text = "true" then some (.bool true)
  else if text = "false" then some (.bool false)
  else if isNumber word then some (.number text)
  else none

/-- The value of an attribute, from the place after its `=`. -/
def readAttributeValue (level : Level) (context : Context) (c : Cursor) :
    Traced (Except Cursor (ArgumentValue Node × Cursor)) :=
  match c.peek with
  | none => pure (.error c)
  | some ch =>
    if ch = '"' ∨ ch = '\x27' then
      pure ((stringLiteral c).map fun (text, after) => (.string text, after))
    else if ch = '{' then do
      let (body, after) ← readBlock level.nested context .argument c
      pure (.ok (.block body, after))
    else if c.atSigil then do
      let (node, after) ← level.sigil context c
      pure (.ok (.expression node, after))
    else
      let after := c.skipWhile isWordPart
      match constantValue? (c.textTo after) with
      | some value => pure (.ok (value, after))
      | none => pure (.error after)

/-- An attribute: a name, and perhaps `=` and a value. -/
def readAttribute (level : Level) (context : Context) (c : Cursor) :
    Traced (Except Cursor (Argument Node × Cursor)) :=
  let nameEnd := c.skipWhile isAttributePart
  let name := Fragment.between c nameEnd
  match nameEnd.skipBlank.eat? '=' with
  | none => pure (.ok (⟨name, .flag, c.spanTo nameEnd⟩, nameEnd))
  | some equals => do
    let value ← readAttributeValue level context equals.skipBlank
    pure (value.map fun (value, after) => (⟨name, value, c.spanTo after⟩, after))

/-- How an opening tag ends. -/
inductive TagHead where
  | closed (arguments : List (Argument Node)) (selfClosing : Bool) (after : Cursor)
  /-- Something is no attribute; these are the nodes in the attributes before it. -/
  | malformed (nodes : List Node) (stop : Cursor)

/-- The attributes read so far, in reverse, and the place after them. -/
structure TagHeadState where
  arguments : List (Argument Node)
  place : Cursor

/-- The next attribute, or the end of the opening tag. White space stands before each attribute. -/
def tagHeadStep (level : Level) (context : Context) (state : TagHeadState) :
    Traced (TagHeadState ⊕ TagHead) :=
  let c := state.place.skipBlank
  let malformed (stop : Cursor) : Traced (TagHeadState ⊕ TagHead) :=
    pure (.inr (.malformed (argumentNodes state.arguments.reverse) stop))
  match c.eat? '>' with
  | some after => pure (.inr (.closed state.arguments.reverse false after))
  | none =>
    match c.eatText? ['/', '>'] with
    | some after => pure (.inr (.closed state.arguments.reverse true after))
    | none =>
      if state.place.pos < c.pos ∧ c.peek.any isIdentStart then do
        match ← readAttribute level context c with
        | .ok (argument, after) => pure (.inl ⟨argument :: state.arguments, after⟩)
        | .error stop => malformed stop
      else malformed c

/-- The attributes up to the end of the opening tag. -/
def readTagHead (level : Level) (context : Context) (c : Cursor) : Traced TagHead :=
  .iterate context.size (·.place.pos) (tagHeadStep level context)
    (fun state => .malformed (argumentNodes state.arguments.reverse) state.place) ⟨[], c⟩

/-- The end of a malformed opening tag: after its `>`, or before what starts other markup or code. -/
def skipBrokenHead (c : Cursor) : Cursor :=
  let place := c.skipWhile fun ch => !(['>', '<', '@', '{', '}', '\n'].contains ch)
  (place.eat? '>').getD place

/-- A closing tag; it is complete if it has its `>`. -/
structure CloseTag where
  name : String
  complete : Bool
  after : Cursor

/-- The closing tag from its `</`. -/
def readCloseTag (c : Cursor) : CloseTag :=
  let name := c.skip 2
  let nameEnd := name.skipTagName
  let text := String.ofList (name.textTo nameEnd)
  match nameEnd.skipBlank.eat? '>' with
  | some after => ⟨text, true, after⟩
  | none => ⟨text, false, nameEnd.skipBlank⟩

/-- A closing tag with no open tag in its region. -/
def readStrayClose (c : Cursor) : Traced ReadNode := do
  let close := readCloseTag c
  let node ←
    .recover (.strayClose (if close.complete then close.name else "")) (c.spanTo close.after) []
  pure (node, close.after)

/-- Gives up a tag, with everything that was read inside it. -/
def brokenTag (cause : Malformation) (start stop : Cursor) (arguments : List (Argument Node))
    (body : List Node) : Traced ReadNode := do
  let node ← .recover cause (start.spanTo stop) (argumentNodes arguments ++ body)
  pure (node, stop)

/-- The end of a tag whose body ends at a closing tag. -/
def settleTag (context : Context) (start : Cursor) (name : Fragment) (arguments : List (Argument Node))
    (body : Region) : Traced ReadNode :=
  let close := readCloseTag body.after
  if close.name = name.text then
    if close.complete then
      pure
        (⟨.component ⟨name, .tag, arguments, body.nodes, false⟩, start.spanTo close.after⟩, close.after)
    else brokenTag (.malformedClose name.text) start close.after arguments body.nodes
  else
    let stop := if context.openTags.contains close.name then body.after else close.after
    brokenTag (.crossedTags name.text close.name) start stop arguments body.nodes

/-- A component tag from its `<`. -/
def readTag (below : Below) (context : Context) (start : Cursor) : Traced ReadNode := do
  let nameEnd := start.next.skipTagName
  let name := Fragment.between start.next nameEnd
  let level ← below.enter context nameEnd
  match ← readTagHead level context nameEnd with
  | .malformed nodes stop => brokenTag (.malformedHead name.text) start (skipBrokenHead stop) [] nodes
  | .closed arguments true after =>
    pure (⟨.component ⟨name, .tag, arguments, [], true⟩, start.spanTo after⟩, after)
  | .closed arguments false after =>
    let body ← level.region (context.insideTag name.text) (.tagBody context.braced) after
    match body.stop with
    | .closeTag => settleTag context start name arguments body
    | _ => brokenTag (.unclosedTag name.text) start body.after arguments body.nodes

end SigilTemplate
