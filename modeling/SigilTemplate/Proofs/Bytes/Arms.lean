import SigilTemplate.Proofs.Bytes.Level

/-!
Matches by offsets. Each round over the arms takes up the source where the last
one ended, and moves on behind its arrow by two bytes. Between the braces one
more is counted as open.
-/

namespace SigilTemplate.Bytes
open Text

section

variable (source : List Char)

/-- The arrow of the arm at a place, if something stands before it. -/
def arrowFrom (c : Cursor) : Checked (Option Cursor) := do
  match ← patternAt (encode source) c.pos with
  | .found arrow =>
    let pattern ← piece source c.pos arrow
    let place ← moveTo source arrow
    pure (if pattern.all isBlank then none else some place)
  | .stopped _ => pure none

/-- An inline body from `c`, after an arrow that ends at `arrowEnd`. -/
def readInlineArm (level : Level) (context : Context) (brace : Cursor) (arrowEnd : Nat) (c : Cursor) :
    Run (ArmBody Node × Nat × Cursor) := do
  let region ← level.nested context .arm c
  match region.stop with
  | .textEnd => Traced.fail (unterminatedBlock context (.body .matchOn) brace)
  | .unbalanced expected =>
    let node ← Traced.recover (.unbalanced expected '}') (c.spanTo region.after) region.nodes
    pure (.inline [node], region.after.pos, region.after)
  | _ =>
    let nodes ← trimTail region.nodes
    pure (.inline nodes, (nodes.getLast?.map (·.span.stop)).getD arrowEnd, region.after)

/-- The arm from `c`, whose arrow is at `arrow`, and the place after it and its comma. -/
def readArm (level : Level) (context : Context) (brace c arrow : Cursor) : Run (Arm Node × Cursor) := do
  let pattern ← trimmed source c.pos arrow.pos
  let arrowEnd ← moveTo source (arrow.pos + 2)
  let start := arrowEnd.skipBlank
  let (body, stop, after) ←
    if start.peek = some '{' then do
      let (nodes, after) ← readBlock level.nested context .arm start
      pure (ArmBody.block nodes, after.pos, after)
    else readInlineArm level context brace arrowEnd.pos start
  let next ← moveTo source ((after.skipBlank.eat? ',').getD after).pos
  pure (⟨pattern, body, ⟨c.pos, stop⟩⟩, next)

/-- Goes on behind the match after a malformed arm at `c`. -/
def skipArms (context : Context) (brace : Cursor) (arms : List (Arm Node)) (c : Cursor) : Run (ArmsState ⊕ ArmsEnd) := do
  match ← matchRest (encode source) c.pos with
  | some stop =>
    let after ← moveTo source stop
    pure (.inr (.malformed (armNodes arms) after))
  | none => Traced.fail (unterminatedBlock context (.body .matchOn) brace)

/-- The next arm, or the end of the arms. -/
def armsStep (level : Level) (context : Context) (brace : Cursor) (state : ArmsState) : Run (ArmsState ⊕ ArmsEnd) := do
  let place ← moveTo source state.place.pos
  let c := place.skipBlank
  match c.peek with
  | none => Traced.fail (unterminatedBlock context (.body .matchOn) brace)
  | some ch =>
    if ch = '}' then pure (.inr (.closed state.arms.reverse c.next))
    else
      match ← arrowFrom source c with
      | some arrow =>
        let (arm, after) ← readArm source level context brace c arrow
        pure (.inl ⟨arm :: state.arms, after⟩)
      | none => skipArms source context brace state.arms.reverse c

/-- All arms between braces. -/
def readArms (level : Level) (context : Context) (brace : Cursor) : Run ArmsEnd :=
  (Run.iterate context.size (·.place.pos) (armsStep source level context.insideBraces brace) ⟨[], brace.next⟩).insideBraces

/-- A match from `start`, whose subject starts at `c`. -/
def readMatch (below : Below) (context : Context) (start c : Cursor) : Run ReadNode := do
  let level ← below.enter context c
  match ← statementHead source c with
  | .missing stop => missingBlock .matchOn start stop
  | .ready subject brace =>
    match ← readArms source level context brace with
    | .closed arms after => settleStatement .matchOn subject (.matchOn subject arms) start after
    | .malformed nodes after =>
      let node ← Traced.recover .malformedArm (start.spanTo after) nodes
      pure (node, after)

end

variable {source : List Char} {context : Context} {level : Level} {other : SigilTemplate.Level} {brace : Cursor}

theorem arrowFrom_eq {c : Cursor} (place : Cursor.ofText source ≤ c) :
    arrowFrom source c = .ok (match Code.patternEnd c with
      | .arrow arrow => if (c.textTo arrow).all isBlank then none else some arrow
      | .stopped _ => none) := by
  rw [arrowFrom, patternAt_eq place, ok_bind]
  cases ends : Code.patternEnd c with
  | stopped stop => rfl
  | arrow arrow =>
    have later := (Code.patternEnd_arrow ends).1
    simp only
    rw [piece_eq place later, ok_bind, moveTo_eq (place.trans later)]
    rfl

theorem readInlineArm_follows {arrowEnd : Nat} {c : Cursor} (alike : LevelsAlike source level other)
    (size : context.size = byteLength source) (place : Cursor.ofText source ≤ c) :
    Follows context (readInlineArm level context brace arrowEnd c)
      (SigilTemplate.readInlineArm other context brace arrowEnd c) := by
  apply Follows.bind (alike.nested context .arm c size place)
  rintro ⟨nodes, stop, after⟩ outcome
  have grown := ((alike.sound.nested context .arm c size place).of_outcome outcome).grown
  have tail : Follows context (do
      let nodes ← liftM (trimTail nodes)
      pure (ArmBody.inline nodes, (nodes.getLast?.map (·.span.stop)).getD arrowEnd, after))
      (pure (.inline (SigilTemplate.trimTail nodes),
        ((SigilTemplate.trimTail nodes).getLast?.map (·.span.stop)).getD arrowEnd, after)) :=
    .check (trimTail_eq grown) (.pure _)
  cases stop with
  | textEnd => exact .traced _
  | unbalanced expected => exact .bind (.traced _) fun _ _ => .pure _
  | closeBrace => exact tail
  | closeTag => exact tail
  | comma => exact tail

theorem readArm_follows {c arrow : Cursor} (alike : LevelsAlike source level other)
    (size : context.size = byteLength source) (opener : Cursor.ofText source ≤ brace) (opens : brace.peek = some '{')
    (place : Cursor.ofText source ≤ c) (arrowAt : ArrowAt c arrow) :
    Follows context (readArm source level context brace c arrow) (SigilTemplate.readArm other context brace c arrow) := by
  have start := place.trans arrowAt.lt_afterArrow.le
  have pattern := trimmed_eq ((Cursor.upTo_partOf arrowAt.le).trans (Cursor.partOf_of_le place))
  rw [pos_finish_upTo arrowAt.le] at pattern
  have comma (body : ArmBody Node) (stop : Nat) {after : Cursor} (here : Cursor.ofText source ≤ after) :
      Follows context (do
        let next ← liftM (moveTo source ((after.skipBlank.eat? ',').getD after).pos)
        pure ((⟨.trimmed (c.upTo arrow), body, ⟨c.pos, stop⟩⟩ : Arm Node), next))
        (pure (⟨.trimmed (c.upTo arrow), body, ⟨c.pos, stop⟩⟩, (after.skipBlank.eat? ',').getD after)) :=
    .check (moveTo_eq (here.trans (Cursor.le_getD_skipBlank_eat? ',' after))) (.pure _)
  apply Follows.check pattern
  apply Follows.moveTo (place.trans (arrowAt.le.trans arrowAt.lt.le)) arrowAt.reads.pos_eq
  simp only [SigilTemplate.readArm]
  by_cases block : (arrow.skip 2).skipBlank.peek = some '{'
  · rw [if_pos block, if_pos block]
    apply Follows.bind (readBlock_follows alike.nested size start)
    rintro ⟨nodes, after⟩ outcome
    have read := (readBlock_yields alike.sound.nested size start block).of_outcome outcome
    exact .given (comma _ _ (start.trans read.1.inOrder.1.le))
  · rw [if_neg block, if_neg block]
    apply Follows.bind (readInlineArm_follows alike size start)
    rintro ⟨body, stop, after⟩ outcome
    have read := (readInlineArm_yields alike.sound size opener opens place arrowAt).of_outcome outcome
    exact comma _ _ (place.trans read.1.inOrder.1.le)

theorem skipArms_follows {arms : List (Arm Node)} {c : Cursor} (place : Cursor.ofText source ≤ c) :
    Follows context (skipArms source context brace arms c) (match Code.unmatchedBrace? c with
      | some close => pure (.inr (.malformed (armNodes arms) close.next))
      | none => Traced.fail (unterminatedBlock context (.body .matchOn) brace)) := by
  apply Follows.check (matchRest_eq place)
  cases rest : Code.unmatchedBrace? c with
  | none => exact .traced _
  | some close =>
    have later := (Code.unmatchedBrace?_spec rest).1
    exact .moveTo ((place.trans later).trans (Cursor.le_next close)) rfl (.pure _)

theorem armsStep_follows {state : ArmsState} (alike : LevelsAlike source level other)
    (size : context.size = byteLength source) (opener : Cursor.ofText source ≤ brace) (opens : brace.peek = some '{')
    (grown : state.Grown source brace) :
    Follows context (armsStep source level context brace state) (SigilTemplate.armsStep other context brace state) := by
  have place := opener.trans grown.1.inOrder.le
  have here := place.trans (Cursor.le_skipBlank state.place)
  apply Follows.check (moveTo_eq place)
  simp only [SigilTemplate.armsStep]
  cases head : state.place.skipBlank.peek with
  | none => exact .traced _
  | some ch =>
    simp only
    by_cases closes : ch = '}'
    · rw [if_pos closes, if_pos closes]
      exact .pure _
    rw [if_neg closes, if_neg closes]
    apply Follows.check (arrowFrom_eq here)
    cases ends : Code.patternEnd state.place.skipBlank with
    | stopped stop => exact skipArms_follows here
    | arrow arrow =>
      simp only
      by_cases blank : (state.place.skipBlank.textTo arrow).all isBlank = true
      · rw [if_pos blank]
        exact skipArms_follows here
      · rw [if_neg blank]
        have arrowAt : ArrowAt state.place.skipBlank arrow := ⟨ends, by simpa using blank⟩
        exact .bind (readArm_follows alike size opener opens here arrowAt) fun _ _ => .pure _

theorem readArms_follows (alike : LevelsAlike source level other) (size : context.size = byteLength source)
    (opener : Cursor.ofText source ≤ brace) (opens : brace.peek = some '{') :
    Follows context (readArms source level context brace) (SigilTemplate.readArms other context brace) := by
  have inside : context.insideBraces.size = byteLength source := size
  refine .insideBraces (.iterate (armsStep_advances alike.sound inside opener opens) ?_ ⟨.start, by simp [armNodes]⟩)
  intro state grown
  exact armsStep_follows alike inside opener opens grown

theorem readMatch_follows {below : Below} {model : SigilTemplate.Below} {start c : Cursor}
    (alike : BelowAlike source below model) (size : context.size = byteLength source) (head : Cursor.ofText source ≤ c) :
    Follows context (readMatch source below context start c) (SigilTemplate.readMatch model context start c) := by
  refine alike.enter fun level other levels => ?_
  apply Follows.check (statementHead_eq head)
  match ends : SigilTemplate.statementHead c with
  | .missing stop => exact .traced _
  | .ready subject brace =>
    obtain ⟨later, brace_, _⟩ := statementHead_ready ends
    apply Follows.bind (readArms_follows levels size (head.trans later) brace_)
    intro read _
    cases read with
    | closed arms after => exact .traced _
    | malformed nodes after => exact .bind (.traced _) fun _ _ => .pure _

end SigilTemplate.Bytes
