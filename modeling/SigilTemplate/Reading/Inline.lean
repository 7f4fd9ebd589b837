import SigilTemplate.Code.Chain
import SigilTemplate.Reading.Level

/-!
Constructs without a region in them: comments, blocks of code and expressions.
A delimiter of the wrong kind gives the fragment up right before it, so that a
`}` which closes the block around an expression still does.
-/

namespace SigilTemplate

def invalidSigil (start stop : Cursor) : Traced ReadNode := do
  let node ← .recover .invalidSigil (start.spanTo stop) []
  pure (node, stop)

/-- What becomes of a construct whose fragment of code has no end. -/
def refusedFragment (context : Context) (start : Cursor) : Code.Refusal → Traced ReadNode
  | .mismatched place found innermost => do
    let node ← .recover (.unbalanced (Code.closerOf innermost.ch) found) (start.spanTo place) []
    pure (node, place)
  | .unterminated opener =>
    .fail
      { cause := .unbalancedDelimiter opener.ch
        span := .point context.size
        related := some ⟨opener.pos, opener.pos + 1⟩ }
  | .tooDeep pos => .fail (tooDeep context pos)

/-- From `@*` to the first `*@`. Comments do not nest. -/
def readComment (context : Context) (start : Cursor) : Traced ReadNode :=
  let inside := start.skip 2
  match inside.commentClose? with
  | some close =>
    let after := close.skip 2
    pure (⟨.comment (String.ofList (inside.textTo close)), start.spanTo after⟩, after)
  | none =>
    .fail
      { cause := .unterminatedComment
        span := .point context.size
        related := some ⟨start.pos, start.pos + 2⟩ }

/-- A construct that is one delimited fragment, which opens at `opener`. -/
def readEnclosed (room : Nat) (context : Context) (form : String → Form Node) (start opener : Cursor) :
    Traced ReadNode :=
  match Code.enclosed room opener with
  | .ok fragment =>
    pure (⟨form (String.ofList fragment.inner.rest), start.spanTo fragment.after⟩, fragment.after)
  | .error refusal => refusedFragment context start refusal

/-- Statements of code between braces, after the sigil. -/
def readCodeBlock (room : Nat) (context : Context) (start : Cursor) : Traced ReadNode :=
  readEnclosed room context .codeBlock start start.next

/-- An expression between parentheses. -/
def readParenExpression (room : Nat) (context : Context) (raw : Bool) (start opener : Cursor) :
    Traced ReadNode :=
  readEnclosed room context (fun code => .expression ⟨.paren, code, raw⟩) start opener

/-- A chain, which starts at `name`. -/
def readSimpleExpression (room : Nat) (context : Context) (raw : Bool) (start name : Cursor) :
    Traced ReadNode :=
  match Code.chain? room name with
  | .ok (some chain) =>
    let code := String.ofList (name.textTo chain.after)
    pure (⟨.expression ⟨.simple chain.refs chain.segments, code, raw⟩, start.spanTo chain.after⟩,
      chain.after)
  | .ok none => invalidSigil start name
  | .error refusal => refusedFragment context start refusal

/-- An expression whose value is not escaped, after `@#`. -/
def readRawOutput (room : Nat) (context : Context) (start : Cursor) : Traced ReadNode :=
  let after := start.skip 2
  match after.peek with
  | some ch =>
    if ch = '(' then readParenExpression room context true start after
    else if Text.isIdentStart ch || ch == '&' then readSimpleExpression room context true start after
    else invalidSigil start after
  | none => invalidSigil start after

end SigilTemplate
