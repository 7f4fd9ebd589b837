import SigilTemplate.Code.TopLevel
import SigilTemplate.Reading.Level
import SigilTemplate.Tree.Fold

/-!
Statements with a head and a block: conditions and loops. The head is code up
to the `{` of the block. An `else` belongs to the `if` right before it.
-/

namespace SigilTemplate

/-- The head of a statement. -/
inductive Head where
  /-- The code of the head, and the `{` of the block. -/
  | ready (code : Fragment) (brace : Cursor)
  /-- There is no block; the head ends, less white space, at a place. -/
  | missing (stop : Cursor)

def statementHead (c : Cursor) : Head :=
  match Code.headEnd c with
  | .block brace => .ready (.trimmed (c.upTo brace)) brace
  | .stopped place => .missing (c.trimmedEnd place)

/-- Gives up a statement without a block. -/
def missingBlock (keyword : Keyword) (start stop : Cursor) : Traced ReadNode := do
  let node ← .recover (.missingBlock keyword) (start.spanTo stop) []
  pure (node, stop)

/-- A statement, or where its head is blank the error node in its place. -/
def settleStatement (keyword : Keyword) (head : Fragment) (statement : Statement Node)
    (start after : Cursor) : Traced ReadNode :=
  if head.isEmpty then do
    let node ← .recover (.emptyHead keyword) (start.spanTo after) statement.children
    pure (node, after)
  else
    pure (⟨.statement statement, start.spanTo after⟩, after)

/-- What follows the body of an `if`: an `else` with a block, or with white space and another `if`.
Anything else, the word `else` included, is left to the region around the `if`. -/
def readElse (level : Level) (context : Context) (c : Cursor) :
    Traced (Option (ElseClause Node) × Cursor) :=
  match c.skipBlank.eatText? ['e', 'l', 's', 'e'] with
  | none => pure (none, c)
  | some afterElse =>
    let place := afterElse.skipBlank
    if place.peek = some '{' then do
      let (body, after) ← readBlock level.nested context (.body .elseBlock) place
      pure (some (.block body), after)
    else if afterElse.pos < place.pos ∧ Keyword.recognize? place.rest = some .ifBlock then do
      let (node, after) ← level.conditional context place (place.skip 2)
      pure (some (.chained node), after)
    else
      pure (none, c)

/-- An `if` from `start`, whose condition starts at `c`. -/
def readConditional (below : Below) (context : Context) (start c : Cursor) : Traced ReadNode := do
  let level ← below.enter context c
  match statementHead c with
  | .missing stop => missingBlock .ifBlock start stop
  | .ready condition brace =>
    let (body, after) ← readBlock level.nested context (.body .ifBlock) brace
    let (otherwise, after) ← readElse level context after
    settleStatement .ifBlock condition (.conditional condition body otherwise) start after

/-- The statement of a loop. -/
def loopStatement (keyword : Keyword) (header : Fragment) (body : List Node) : Statement Node :=
  if keyword = .forLoop then .forLoop header body else .whileLoop header body

/-- A loop from `start`, whose header starts at `c`. -/
def readLoop (below : Below) (context : Context) (keyword : Keyword) (start c : Cursor) :
    Traced ReadNode := do
  let level ← below.enter context c
  match statementHead c with
  | .missing stop => missingBlock keyword start stop
  | .ready header brace =>
    let (body, after) ← readBlock level.nested context (.body keyword) brace
    settleStatement keyword header (loopStatement keyword header body) start after

/-- An `else` with no `if` before it. What would follow an `if` is read, and stands inside the error
node. -/
def readStrayElse (below : Below) (context : Context) (start c : Cursor) : Traced ReadNode := do
  let place := c.skipBlank
  let (children, after) ←
    if place.peek = some '{' then readBlock below.nested context (.body .elseBlock) place
    else if Keyword.recognize? place.rest = some .ifBlock then do
      let (node, after) ← readConditional below context place (place.skip 2)
      pure ([node], after)
    else pure ([], c)
  let node ← .recover .unexpectedElse (start.spanTo after) children
  pure (node, after)

end SigilTemplate
