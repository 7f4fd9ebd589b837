import SigilTemplate.Proofs.Bytes.Chain
import SigilTemplate.Proofs.Bytes.Run
import SigilTemplate.Proofs.Reading.Construct

/-!
Constructs without a region in them, read by offsets. Wherever the reader moves
to, it takes up the source from there; what a construct holds is cut out between
two offsets.
-/

namespace SigilTemplate.Bytes
open Text

section

variable (source : List Char)

def invalidSigil (start stop : Cursor) : Run ReadNode := do
  let stop ← moveTo source stop.pos
  SigilTemplate.invalidSigil start stop

/-- From `@*` to the first `*@`. -/
def readComment (context : Context) (start : Cursor) : Run ReadNode := do
  let inside ← moveTo source (start.pos + 2)
  match inside.commentClose? with
  | some close =>
    let content ← piece source inside.pos close.pos
    let after ← moveTo source (close.pos + 2)
    pure (⟨.comment (String.ofList content), start.spanTo after⟩, after)
  | none =>
    Traced.fail
      { cause := .unterminatedComment
        span := .point context.size
        related := some ⟨start.pos, start.pos + 2⟩ }

/-- A construct that is one delimited fragment, which opens at `opener`. -/
def readEnclosed (room : Nat) (context : Context) (form : String → Form Node) (start opener : Cursor) : Run ReadNode := do
  match ← enclosed source room opener with
  | .ok fragment =>
    pure (⟨form (String.ofList fragment.inner.rest), start.spanTo fragment.after⟩, fragment.after)
  | .error refusal => refusedFragment context start refusal

/-- An expression between parentheses. -/
def readParenExpression (room : Nat) (context : Context) (raw : Bool) (start opener : Cursor) : Run ReadNode :=
  readEnclosed source room context (fun code => .expression ⟨.paren, code, raw⟩) start opener

/-- A chain, which starts at `name`. -/
def readSimpleExpression (room : Nat) (context : Context) (raw : Bool) (start name : Cursor) : Run ReadNode := do
  match ← chain source room name with
  | .ok (some chain) =>
    let after ← moveTo source chain.after.pos
    let code ← piece source name.pos after.pos
    pure (⟨.expression ⟨.simple chain.refs chain.segments, String.ofList code, raw⟩, start.spanTo after⟩, after)
  | .ok none => invalidSigil source start name
  | .error refusal => refusedFragment context start refusal

/-- An expression whose value is not escaped, after `@#`. -/
def readRawOutput (room : Nat) (context : Context) (start : Cursor) : Run ReadNode := do
  let after ← moveTo source (start.pos + 2)
  match after.peek with
  | some ch =>
    if ch = '(' then readParenExpression source room context true start after
    else if isIdentStart ch || ch == '&' then readSimpleExpression source room context true start after
    else invalidSigil source start after
  | none => invalidSigil source start after

end

variable {source : List Char} {context : Context} {start : Cursor}

theorem Follows.moveTo {α : Type} {c : Cursor} {offset : Nat} {f : Cursor → Run α} {reading : Traced α}
    (place : Cursor.ofText source ≤ c) (pos : c.pos = offset) (next : Follows context (f c) reading) :
    Follows context ((liftM (Bytes.moveTo source offset) : Run Cursor) >>= f) reading := by
  rw [← pos]
  exact .check (moveTo_eq place) next

theorem pos_skip_two {c : Cursor} {first second : Char} (head : c.peek = some first) (then_ : c.next.peek = some second)
    (narrow : first.toNat < 0x80) (narrow' : second.toNat < 0x80) : (c.skip 2).pos = c.pos + 2 := by
  have one := pos_next_of_peek head narrow
  have two := pos_next_of_peek then_ narrow'
  change c.next.next.pos = _
  omega

theorem invalidSigil_follows {stop : Cursor} (place : Cursor.ofText source ≤ stop) :
    Follows context (invalidSigil source start stop) (SigilTemplate.invalidSigil start stop) :=
  .moveTo place rfl (.traced _)

theorem readComment_follows (place : Cursor.ofText source ≤ start) (sigil : start.peek = some '@')
    (star : start.next.peek = some '*') :
    Follows context (readComment source context start) (SigilTemplate.readComment context start) := by
  have two : (start.skip 2).pos = start.pos + 2 := pos_skip_two sigil star (by decide) (by decide)
  have inside := place.trans (Cursor.le_skip 2 start)
  apply Follows.moveTo inside two
  simp only [SigilTemplate.readComment]
  cases found : (start.skip 2).commentClose? with
  | none => exact .traced _
  | some close =>
    have le := Cursor.le_of_commentClose? found
    obtain ⟨rest, closes⟩ := Cursor.startsWith_of_commentClose? found
    have last : (close.skip 2).pos = close.pos + 2 := (Cursor.reads_skip closes).pos_eq
    apply Follows.check (piece_eq inside le)
    exact .moveTo ((inside.trans le).trans (Cursor.le_skip 2 close)) last (.pure _)

theorem readEnclosed_follows {room : Nat} {form : String → Form Node} {opener : Cursor} {ch : Char}
    (place : Cursor.ofText source ≤ opener) (head : opener.peek = some ch) (opens : Code.isOpener ch = true) :
    Follows context (readEnclosed source room context form start opener)
      (SigilTemplate.readEnclosed room context form start opener) := by
  apply Follows.check (enclosed_eq room place head opens)
  rw [SigilTemplate.readEnclosed]
  cases Code.enclosed room opener with
  | ok fragment => exact .pure _
  | error refusal => exact .traced _

theorem readSimpleExpression_follows {room : Nat} {raw : Bool} {name : Cursor} (place : Cursor.ofText source ≤ name) :
    Follows context (readSimpleExpression source room context raw start name)
      (SigilTemplate.readSimpleExpression room context raw start name) := by
  apply Follows.check (chain_eq room place)
  rw [SigilTemplate.readSimpleExpression]
  match found : Code.chain? room name with
  | .ok (some chain) =>
    have le := (Code.chain?_ok found).le
    exact .moveTo (place.trans le) rfl (.check (piece_eq place le) (.pure _))
  | .ok none => exact invalidSigil_follows place
  | .error refusal => exact .traced _

theorem readRawOutput_follows {room : Nat} (place : Cursor.ofText source ≤ start) (sigil : start.peek = some '@')
    (mark : start.next.peek = some '#') :
    Follows context (readRawOutput source room context start) (SigilTemplate.readRawOutput room context start) := by
  have two : (start.skip 2).pos = start.pos + 2 := pos_skip_two sigil mark (by decide) (by decide)
  have after := place.trans (Cursor.le_skip 2 start)
  apply Follows.moveTo after two
  simp only [SigilTemplate.readRawOutput]
  cases head : (start.skip 2).peek with
  | none => exact invalidSigil_follows after
  | some ch =>
    simp only
    by_cases paren : ch = '('
    · rw [if_pos paren, if_pos paren]
      subst paren
      exact readEnclosed_follows after head rfl
    rw [if_neg paren, if_neg paren]
    split
    · exact readSimpleExpression_follows after
    · exact invalidSigil_follows after

end SigilTemplate.Bytes
