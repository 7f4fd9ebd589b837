import SigilTemplate.Proofs.Bytes.Declaration
import SigilTemplate.Proofs.Bytes.Statement

/-!
Levels of nesting, read by offsets. A level follows another one if everything
that it reads of the source follows what the other one reads; blocks and
statements follow if the level below them does. Where the reader goes back, it
moves to the place where it was before.
-/

namespace SigilTemplate.Bytes
open Text

/-- What can be read at one level. -/
structure Level where
  region : Context → RegionKind → Cursor → Run Region
  nested : Context → RegionKind → Cursor → Run Region
  sigil : Context → Cursor → Run ReadNode
  conditional : Context → Cursor → Cursor → Run ReadNode

/-- The levels that are left below a construct. -/
structure Below where
  room : Nat
  next : Option Level

/-- Enters the next level at a place. -/
def Below.enter (below : Below) (context : Context) (c : Cursor) : Run Level :=
  match below.next with
  | some level => pure level
  | none => liftM (Traced.fail (tooDeep context c.pos) : Traced Level)

/-- A region one level further in. -/
def Below.nested (below : Below) (context : Context) (kind : RegionKind) (c : Cursor) : Run Region := do
  let level ← below.enter context c
  level.region context kind c

/-- A block between braces. -/
def readBlock (nested : Context → RegionKind → Cursor → Run Region) (context : Context) (role : BlockRole)
    (brace : Cursor) : Run (List Node × Cursor) := do
  let inside ← (nested context.insideBraces .braced brace.next).insideBraces
  match inside.stop with
  | .closeBrace => pure (inside.nodes, inside.after.next)
  | _ => Traced.fail (unterminatedBlock context role brace)

/-- Two ways to read the regions of a source, of which one follows the other. -/
def RegionsAlike (source : List Char) (run : Context → RegionKind → Cursor → Run Region)
    (read : Context → RegionKind → Cursor → Traced Region) : Prop :=
  ∀ context kind c, context.size = byteLength source → Cursor.ofText source ≤ c →
    Follows context (run context kind c) (read context kind c)

/-- A level that reads by the rules, and one that follows it. -/
structure LevelsAlike (source : List Char) (level : Level) (model : SigilTemplate.Level) : Prop where
  sound : model.Sound source
  region : RegionsAlike source level.region model.region
  nested : RegionsAlike source level.nested model.nested
  sigil : ∀ context c, context.size = byteLength source → Cursor.ofText source ≤ c → c.atSigil = true →
    Follows context (level.sigil context c) (model.sigil context c)
  conditional : ∀ context start c, context.size = byteLength source → Cursor.ofText source ≤ start →
    Opens .ifBlock start c → Follows context (level.conditional context start c) (model.conditional context start c)

/-- The same number of levels is left, and the next one follows. -/
structure BelowAlike (source : List Char) (below : Below) (model : SigilTemplate.Below) : Prop where
  room : below.room = model.room
  next : Option.Rel (fun level next => LevelsAlike source level (next ())) below.next model.next

section

variable (source : List Char)

/-- What follows the body of an `if`. Anything but an `else` or a further `if` is left, and the reader goes back. -/
def readElse (level : Level) (context : Context) (c : Cursor) : Run (Option (ElseClause Node) × Cursor) := do
  match ← eatText source ['e', 'l', 's', 'e'] c.skipBlank with
  | none =>
    let back ← moveTo source c.pos
    pure (none, back)
  | some afterElse =>
    let place := afterElse.skipBlank
    if place.peek = some '{' then
      let (body, after) ← readBlock level.nested context (.body .elseBlock) place
      pure (some (.block body), after)
    else
      match ← if afterElse.pos < place.pos then skipIf source place else pure none with
      | some condition =>
        let (node, after) ← level.conditional context place condition
        pure (some (.chained node), after)
      | none =>
        let back ← moveTo source c.pos
        pure (none, back)

/-- An `if` from `start`, whose condition starts at `c`. -/
def readConditional (below : Below) (context : Context) (start c : Cursor) : Run ReadNode := do
  let level ← below.enter context c
  match ← statementHead source c with
  | .missing stop => missingBlock .ifBlock start stop
  | .ready condition brace =>
    let (body, after) ← readBlock level.nested context (.body .ifBlock) brace
    let (otherwise, after) ← readElse source level context after
    settleStatement .ifBlock condition (.conditional condition body otherwise) start after

/-- A loop from `start`, whose header starts at `c`. -/
def readLoop (below : Below) (context : Context) (keyword : Keyword) (start c : Cursor) : Run ReadNode := do
  let level ← below.enter context c
  match ← statementHead source c with
  | .missing stop => missingBlock keyword start stop
  | .ready header brace =>
    let (body, after) ← readBlock level.nested context (.body keyword) brace
    settleStatement keyword header (loopStatement keyword header body) start after

/-- An `else` with no `if` before it. -/
def readStrayElse (below : Below) (context : Context) (start c : Cursor) : Run ReadNode := do
  let place := c.skipBlank
  let (children, after) ←
    if place.peek = some '{' then readBlock below.nested context (.body .elseBlock) place
    else
      match ← skipIf source place with
      | some condition =>
        let (node, after) ← readConditional source below context place condition
        pure ([node], after)
      | none =>
        let back ← moveTo source c.pos
        pure ([], back)
  let node ← Traced.recover .unexpectedElse (start.spanTo after) children
  pure (node, after)

end

variable {source : List Char} {context : Context} {below : Below} {model : SigilTemplate.Below}

theorem BelowAlike.sound (alike : BelowAlike source below model) : model.Sound source := by
  intro level here
  have next := alike.next
  generalize below.next = other at next
  rw [Option.mem_def.mp here] at next
  cases next with
  | some levels => exact levels.sound

theorem BelowAlike.enter {α : Type} {f : Level → Run α} {g : SigilTemplate.Level → Traced α} {c : Cursor}
    (alike : BelowAlike source below model)
    (next : ∀ level other, LevelsAlike source level other → Follows context (f level) (g other)) :
    Follows context (below.enter context c >>= f) (model.enter context c >>= g) := by
  obtain ⟨room, level⟩ := below
  obtain ⟨_, other⟩ := model
  obtain ⟨_, levels⟩ := alike
  simp only at levels
  cases levels with
  | some levels => exact .bind (.pure _) fun _ _ => next _ _ levels
  | none => exact .traced _

theorem BelowAlike.nested (alike : BelowAlike source below model) : RegionsAlike source below.nested model.nested :=
  fun context kind c size place => alike.enter fun _ _ levels => levels.region context kind c size place

/-! ## Blocks -/

theorem readBlock_follows {nested : Context → RegionKind → Cursor → Run Region}
    {other : Context → RegionKind → Cursor → Traced Region} {role : BlockRole} {brace : Cursor}
    (alike : RegionsAlike source nested other) (size : context.size = byteLength source)
    (place : Cursor.ofText source ≤ brace) :
    Follows context (readBlock nested context role brace) (SigilTemplate.readBlock other context role brace) := by
  have inside := alike context.insideBraces .braced brace.next size (place.trans (Cursor.le_next brace))
  apply Follows.bind (.insideBraces inside)
  rintro ⟨nodes, stop, after⟩ _
  cases stop with
  | closeBrace => exact .pure _
  | textEnd => exact .traced _
  | closeTag => exact .traced _
  | comma => exact .traced _
  | unbalanced expected => exact .traced _

/-! ## Statements -/

theorem readElse_follows {level : Level} {other : SigilTemplate.Level} {c : Cursor} (alike : LevelsAlike source level other)
    (size : context.size = byteLength source) (place : Cursor.ofText source ≤ c) :
    Follows context (readElse source level context c) (SigilTemplate.readElse other context c) := by
  have blank := place.trans (Cursor.le_skipBlank c)
  have back : Follows context (do
      let back ← liftM (moveTo source c.pos)
      pure ((none : Option (ElseClause Node)), back)) (pure (none, c)) :=
    .check (moveTo_eq place) (.pure _)
  apply Follows.check (eatText_eq blank)
  unfold SigilTemplate.readElse
  cases word : c.skipBlank.eatText? ['e', 'l', 's', 'e'] with
  | none => exact back
  | some afterElse =>
    have onto := (blank.trans (Cursor.le_of_reads (Cursor.reads_eatText? word))).trans (Cursor.le_skipBlank afterElse)
    simp only
    by_cases brace : afterElse.skipBlank.peek = some '{'
    · rw [if_pos brace, if_pos brace]
      exact .bind (readBlock_follows alike.nested size onto) fun _ _ => .pure _
    rw [if_neg brace, if_neg brace]
    by_cases gap : afterElse.pos < afterElse.skipBlank.pos
    · rw [if_pos gap]
      apply Follows.check (skipIf_eq onto)
      by_cases found : Keyword.recognize? afterElse.skipBlank.rest = some .ifBlock
      · rw [if_pos found, if_pos ⟨gap, found⟩]
        exact .bind (alike.conditional context _ _ size onto (.chained found)) fun _ _ => .pure _
      · rw [if_neg found, if_neg (fun both => found both.2)]
        exact back
    · rw [if_neg gap, if_neg (fun both => gap both.1)]
      exact .given back

theorem readConditional_follows {start c : Cursor} (alike : BelowAlike source below model)
    (size : context.size = byteLength source) (place : Cursor.ofText source ≤ start) (opens : Opens .ifBlock start c) :
    Follows context (readConditional source below context start c) (SigilTemplate.readConditional model context start c) := by
  have head := place.trans opens.lt.le
  refine alike.enter fun level other levels => ?_
  apply Follows.check (statementHead_eq head)
  match ends : SigilTemplate.statementHead c with
  | .missing stop => exact .traced _
  | .ready condition brace =>
    obtain ⟨later, brace_, _⟩ := statementHead_ready ends
    apply Follows.bind (readBlock_follows levels.nested size (head.trans later))
    rintro ⟨body, middle⟩ outcome
    have block := (readBlock_yields levels.sound.nested size (head.trans later) brace_).of_outcome outcome
    have reached := (head.trans later).trans block.1.inOrder.1.le
    exact .bind (readElse_follows levels size reached) fun _ _ => .traced _

theorem readLoop_follows {keyword : Keyword} {start c : Cursor} (alike : BelowAlike source below model)
    (size : context.size = byteLength source) (head : Cursor.ofText source ≤ c) :
    Follows context (readLoop source below context keyword start c)
      (SigilTemplate.readLoop model context keyword start c) := by
  refine alike.enter fun level other levels => ?_
  apply Follows.check (statementHead_eq head)
  match ends : SigilTemplate.statementHead c with
  | .missing stop => exact .traced _
  | .ready header brace =>
    obtain ⟨later, _, _⟩ := statementHead_ready ends
    exact .bind (readBlock_follows levels.nested size (head.trans later)) fun _ _ => .traced _

theorem readStrayElse_follows {start c : Cursor} (alike : BelowAlike source below model)
    (size : context.size = byteLength source) (place : Cursor.ofText source ≤ c) :
    Follows context (readStrayElse source below context start c) (SigilTemplate.readStrayElse model context start c) := by
  have blank := place.trans (Cursor.le_skipBlank c)
  have givenUp (read : List Node × Cursor) : Follows context (do
      let node ← liftM (Traced.recover .unexpectedElse (start.spanTo read.2) read.1)
      pure (node, read.2)) (do
      let node ← Traced.recover .unexpectedElse (start.spanTo read.2) read.1
      pure (node, read.2)) :=
    .bind (.traced _) fun _ _ => .pure _
  simp only [readStrayElse, SigilTemplate.readStrayElse]
  by_cases brace : c.skipBlank.peek = some '{'
  · rw [if_pos brace, if_pos brace]
    exact .bind (readBlock_follows alike.nested size blank) fun read _ => givenUp read
  rw [if_neg brace, if_neg brace]
  apply Follows.check (skipIf_eq blank)
  by_cases found : Keyword.recognize? c.skipBlank.rest = some .ifBlock
  · rw [if_pos found, if_pos found]
    apply Follows.bind (readConditional_follows alike size blank (.chained found))
    rintro ⟨node, after⟩ _
    exact givenUp ([node], after)
  · rw [if_neg found, if_neg found]
    exact .check (moveTo_eq place) (givenUp ([], c))

end SigilTemplate.Bytes
