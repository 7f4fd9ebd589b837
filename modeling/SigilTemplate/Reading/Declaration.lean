import SigilTemplate.Reading.Argument
import SigilTemplate.Reading.Inline

/-!
Directives: what a template declares about its layout, the files it uses, its
sections and its helpers. A directive whose arguments do not fit becomes an
error node over what was taken of it, less the white space at the end.
-/

namespace SigilTemplate

/-- Gives up a directive of which everything up to `stop` was taken. -/
def malformedDirective (keyword : Keyword) (start stop : Cursor) : Traced ReadNode := do
  let last := start.trimmedEnd stop
  let node ← .recover (.malformedDirective keyword) (start.spanTo last) []
  pure (node, last)

/-- The directive that an attempt gives, or the error node in its place. -/
def settleDirective (keyword : Keyword) (start : Cursor) :
    Except Cursor (Directive Node × Cursor) → Traced ReadNode
  | .ok (directive, after) => pure (⟨.directive directive, start.spanTo after⟩, after)
  | .error stop => malformedDirective keyword start stop

/-- No arguments, empty parentheses, or the path of the layout between them. -/
def layoutDirective (c : Cursor) : Except Cursor (Directive Node × Cursor) :=
  match c.eat? '(' with
  | none => .ok (.layout none, c)
  | some inside =>
    match inside.skipBlank.eat? ')' with
    | some after => .ok (.layout none, after)
    | none => do
      let (path, after) ← stringLiteral inside.skipBlank
      let after ← expect ')' after.skipBlank
      pure (.layout (some path), after)

/-- The name under which a file is used, after `as`. Without an `as` and white space there is none. -/
def componentName (afterPath : Cursor) : Except Cursor (Option Fragment × Cursor) :=
  match afterPath.skipInlineBlank.eatText? ['a', 's'] with
  | some after =>
    if after.peek.any Text.isBlank then do
      let (name, after) ← identifier after.skipInlineBlank
      pure (some name, after)
    else .ok (none, afterPath)
  | none => .ok (none, afterPath)

/-- A path, perhaps a name for it, and perhaps a semicolon, all on one line. -/
def useDirective (c : Cursor) : Except Cursor (Directive Node × Cursor) := do
  let (path, afterPath) ← stringLiteral c.skipInlineBlank
  let (component, after) ← componentName afterPath
  let after := (after.skipInlineBlank.eat? ';').getD after
  pure (.useFile path component, after)

/-- A directive whose only argument is a string. -/
def stringDirective (directive : Fragment → Directive Node) (c : Cursor) :
    Except Cursor (Directive Node × Cursor) := do
  let (value, after) ← parenthesizedString c
  pure (directive value, after)

/-- A directive that is complete on its own; empty parentheses may follow. -/
def bareDirective (directive : Directive Node) (c : Cursor) :
    Except Cursor (Directive Node × Cursor) :=
  .ok (directive, (c.eatText? ['(', ')']).getD c)

/-- The `}` that brings the count of open braces to zero. -/
def rawClose? (depth : Nat) (pos : Nat) : List Char → Option Cursor
  | [] => none
  | ch :: rest =>
    if ch = '{' then rawClose? (depth + 1) (pos + ch.utf8Size) rest
    else if ch = '}' then
      if depth ≤ 1 then some ⟨pos, ch :: rest⟩ else rawClose? (depth - 1) (pos + ch.utf8Size) rest
    else rawClose? depth (pos + ch.utf8Size) rest

/-- A block that is not read as a template; only its braces count. -/
def readRaw (context : Context) (start c : Cursor) : Traced ReadNode :=
  let brace := c.skipBlank
  if brace.peek = some '{' then
    match rawClose? 1 brace.next.pos brace.next.rest with
    | some close =>
      settleDirective .raw start (.ok (.raw (.between brace.next close), close.next))
    | none =>
      .fail
        { cause := .unterminatedRawBlock
          span := .point context.size
          related := some ⟨brace.pos, brace.pos + 1⟩ }
  else malformedDirective .raw start brace

/-- The name and the parameters of a helper, up to the `{` of its body. -/
def functionHead (room : Nat) (c : Cursor) : Except Cursor ((Fragment × Fragment) × Cursor) := do
  let (name, after) ← identifier c.skipInlineBlank
  let opener := after.skipInlineBlank
  if opener.peek = some '(' then
    match Code.enclosed room opener with
    | .ok parameters =>
      let brace := parameters.after.skipBlank
      if brace.peek = some '{' then .ok ((name, .trimmed parameters.inner), brace)
      else .error parameters.after
    | .error _ => .error opener
  else .error opener

def readFunction (below : Below) (context : Context) (start c : Cursor) : Traced ReadNode :=
  match functionHead below.room c with
  | .ok ((name, parameters), brace) => do
    let (body, after) ← readBlock below.nested context (.body .function) brace
    settleDirective .function start (.ok (.function name parameters body, after))
  | .error stop => malformedDirective .function start stop

/-- A section with its name and its value between parentheses. -/
def readSectionValue (room : Nat) (context : Context) (start opener : Cursor) : Traced ReadNode :=
  match Code.enclosed room opener with
  | .ok arguments =>
    match sectionValue? arguments.inner with
    | some directive => settleDirective .sectionBlock start (.ok (directive, arguments.after))
    | none => malformedDirective .sectionBlock start arguments.after
  | .error refusal => refusedFragment context start refusal

/-- The name of a section, up to the `{` of its body. -/
def sectionHead (c : Cursor) : Except Cursor (Fragment × Cursor) := do
  let (name, after) ← identifier c.skipInlineBlank
  let brace := after.skipBlank
  if brace.peek = some '{' then .ok (name, brace) else .error brace

def readSection (below : Below) (context : Context) (start c : Cursor) : Traced ReadNode :=
  if c.peek = some '(' then readSectionValue below.room context start c
  else
    match sectionHead c with
    | .ok (name, brace) => do
      let (body, after) ← readBlock below.nested context (.body .sectionBlock) brace
      settleDirective .sectionBlock start (.ok (.sectionBlock name body, after))
    | .error stop => malformedDirective .sectionBlock start stop

end SigilTemplate
