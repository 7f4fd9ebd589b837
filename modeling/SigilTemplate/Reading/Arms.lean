import SigilTemplate.Reading.Flow

/-!
Match statements. The arms stand between braces, each a pattern, `=>` and a
body: a block, or markup up to a comma or to the closing brace. Without `=>`,
or with nothing before it, an arm is malformed and takes the rest of the
statement with it.
-/

namespace SigilTemplate

open Text

/-- The body of an inline arm without the white space in front of its comma or brace. -/
def trimTail (nodes : List Node) : List Node :=
  match nodes.getLast? with
  | some ⟨.text content, span⟩ =>
    let kept := trimEnd content.toList
    if kept.isEmpty then nodes.dropLast
    else
      let cut := byteLength content.toList - byteLength kept
      nodes.dropLast ++ [⟨.text (String.ofList kept), ⟨span.start, span.stop - cut⟩⟩]
  | _ => nodes

/-- How the arms of a match end. -/
inductive ArmsEnd where
  | closed (arms : List (Arm Node)) (after : Cursor)
  /-- An arm is malformed; these are the nodes of the arms before it. -/
  | malformed (nodes : List Node) (after : Cursor)

/-- The arms read so far, in reverse, and the place after them. -/
structure ArmsState where
  arms : List (Arm Node)
  place : Cursor

/-- An inline body from `c`, after an arrow that ends at `arrowEnd`: the body, the offset where the arm
ends and the place after it. -/
def readInlineArm (level : Level) (context : Context) (brace : Cursor) (arrowEnd : Nat) (c : Cursor) :
    Traced (ArmBody Node × Nat × Cursor) := do
  let region ← level.nested context .arm c
  match region.stop with
  | .textEnd => .fail (unterminatedBlock context (.body .matchOn) brace)
  | .unbalanced expected =>
    let node ← .recover (.unbalanced expected '}') (c.spanTo region.after) region.nodes
    pure (.inline [node], region.after.pos, region.after)
  | _ =>
    let nodes := trimTail region.nodes
    pure (.inline nodes, (nodes.getLast?.map (·.span.stop)).getD arrowEnd, region.after)

/-- The arm from `c`, whose arrow is at `arrow`, and the place after it and its comma. -/
def readArm (level : Level) (context : Context) (brace c arrow : Cursor) :
    Traced (Arm Node × Cursor) := do
  let pattern := Fragment.trimmed (c.upTo arrow)
  let arrowEnd := arrow.skip 2
  let start := arrowEnd.skipBlank
  let (body, stop, after) ←
    if start.peek = some '{' then do
      let (nodes, after) ← readBlock level.nested context .arm start
      pure (ArmBody.block nodes, after.pos, after)
    else readInlineArm level context brace arrowEnd.pos start
  pure (⟨pattern, body, ⟨c.pos, stop⟩⟩, (after.skipBlank.eat? ',').getD after)

/-- The next arm, or the end of the arms. -/
def armsStep (level : Level) (context : Context) (brace : Cursor) (state : ArmsState) :
    Traced (ArmsState ⊕ ArmsEnd) :=
  let c := state.place.skipBlank
  match c.peek with
  | none => .fail (unterminatedBlock context (.body .matchOn) brace)
  | some ch =>
    if ch = '}' then pure (.inr (.closed state.arms.reverse c.next))
    else
      let arrow? :=
        match Code.patternEnd c with
        | .arrow arrow => if (c.textTo arrow).all isBlank then none else some arrow
        | .stopped _ => none
      match arrow? with
      | some arrow => do
        let (arm, after) ← readArm level context brace c arrow
        pure (.inl ⟨arm :: state.arms, after⟩)
      | none =>
        match Code.unmatchedBrace? c with
        | some close => pure (.inr (.malformed (armNodes state.arms.reverse) close.next))
        | none => .fail (unterminatedBlock context (.body .matchOn) brace)

/-- All arms between braces, from the `{` to the place after the `}`. -/
def readArms (level : Level) (context : Context) (brace : Cursor) : Traced ArmsEnd :=
  .iterate context.size (·.place.pos) (armsStep level context.insideBraces brace)
    (fun state => .closed state.arms.reverse state.place) ⟨[], brace.next⟩

/-- A match from `start`, whose subject starts at `c`. -/
def readMatch (below : Below) (context : Context) (start c : Cursor) : Traced ReadNode := do
  let level ← below.enter context c
  match statementHead c with
  | .missing stop => missingBlock .matchOn start stop
  | .ready subject brace =>
    match ← readArms level context brace with
    | .closed arms after => settleStatement .matchOn subject (.matchOn subject arms) start after
    | .malformed nodes after =>
      let node ← .recover .malformedArm (start.spanTo after) nodes
      pure (node, after)

end SigilTemplate
