import SigilTemplate.Proofs.Bytes.Level

/-!
Component tags by offsets. Names and constants are cut out of the source, a
closing tag starts two bytes before its name, and whether the body stands
between braces is what the count of open braces says.
-/

namespace SigilTemplate.Bytes
open Text

section

variable (source : List Char)

/-- The value of an attribute, from the place after its `=`. -/
def readAttributeValue (level : Level) (context : Context) (c : Cursor) :
    Run (Except Cursor (ArgumentValue Node × Cursor)) :=
  match c.peek with
  | none => pure (.error c)
  | some ch =>
    if ch = '"' ∨ ch = '\x27' then do
      let read ← stringLiteral source c
      pure (read.map fun (text, after) => (.string text, after))
    else if ch = '{' then do
      let (body, after) ← readBlock level.nested context .argument c
      pure (.ok (.block body, after))
    else if c.atSigil then do
      let (node, after) ← level.sigil context c
      pure (.ok (.expression node, after))
    else do
      let after := c.skipWhile isWordPart
      let word ← piece source c.pos after.pos
      match constantValue? word with
      | some value => pure (.ok (value, after))
      | none => pure (.error after)

/-- An attribute. Without a value the reader goes back behind the name. -/
def readAttribute (level : Level) (context : Context) (c : Cursor) : Run (Except Cursor (Argument Node × Cursor)) := do
  let nameEnd := c.skipWhile isAttributePart
  let name ← between source c nameEnd
  match nameEnd.skipBlank.eat? '=' with
  | none =>
    let back ← moveTo source nameEnd.pos
    pure (.ok (⟨name, .flag, c.spanTo back⟩, back))
  | some equals =>
    let value ← readAttributeValue source level context equals.skipBlank
    pure (value.map fun (value, after) => (⟨name, value, c.spanTo after⟩, after))

/-- The next attribute, or the end of the opening tag. -/
def tagHeadStep (level : Level) (context : Context) (state : TagHeadState) : Run (TagHeadState ⊕ TagHead) := do
  let place ← moveTo source state.place.pos
  let c := place.skipBlank
  match c.eat? '>' with
  | some after => pure (.inr (.closed state.arguments.reverse false after))
  | none =>
    match ← eatText source ['/', '>'] c with
    | some after => pure (.inr (.closed state.arguments.reverse true after))
    | none =>
      if place.pos < c.pos ∧ c.peek.any isIdentStart then
        match ← readAttribute source level context c with
        | .ok (argument, after) => pure (.inl ⟨argument :: state.arguments, after⟩)
        | .error stop => pure (.inr (.malformed (argumentNodes state.arguments.reverse) stop))
      else pure (.inr (.malformed (argumentNodes state.arguments.reverse) c))

/-- The attributes up to the end of the opening tag. -/
def readTagHead (level : Level) (context : Context) (c : Cursor) : Run TagHead :=
  .iterate context.size (·.place.pos) (tagHeadStep source level context) ⟨[], c⟩

/-- The closing tag from its `</`. -/
def readCloseTag (c : Cursor) : Checked CloseTag := do
  let name ← moveBy source c 2
  let nameEnd := name.skipTagName
  let text ← piece source name.pos nameEnd.pos
  match nameEnd.skipBlank.eat? '>' with
  | some after => pure ⟨String.ofList text, true, after⟩
  | none => pure ⟨String.ofList text, false, nameEnd.skipBlank⟩

/-- A closing tag with no open tag in its region. -/
def readStrayClose (c : Cursor) : Run ReadNode := do
  let close ← readCloseTag source c
  let node ← Traced.recover (.strayClose (if close.complete then close.name else "")) (c.spanTo close.after) []
  pure (node, close.after)

/-- The end of a tag whose body ends at a closing tag. -/
def settleTag (context : Context) (start : Cursor) (name : Fragment) (arguments : List (Argument Node)) (body : Region) :
    Run ReadNode := do
  let close ← readCloseTag source body.after
  if close.name = name.text then
    if close.complete then
      pure (⟨.component ⟨name, .tag, arguments, body.nodes, false⟩, start.spanTo close.after⟩, close.after)
    else brokenTag (.malformedClose name.text) start close.after arguments body.nodes
  else
    let stop := if context.openTags.contains close.name then body.after else close.after
    let stop ← moveTo source stop.pos
    brokenTag (.crossedTags name.text close.name) start stop arguments body.nodes

/-- A component tag from its `<`. -/
def readTag (below : Below) (context : Context) (start : Cursor) : Run ReadNode := do
  let nameEnd := start.next.skipTagName
  let name ← between source start.next nameEnd
  let level ← below.enter context nameEnd
  match ← readTagHead source level context nameEnd with
  | .malformed nodes stop => brokenTag (.malformedHead name.text) start (skipBrokenHead stop) [] nodes
  | .closed arguments true after =>
    pure (⟨.component ⟨name, .tag, arguments, [], true⟩, start.spanTo after⟩, after)
  | .closed arguments false after =>
    let braced ← Run.isBraced
    let body ← level.region (context.insideTag name.text) (.tagBody braced) after
    match body.stop with
    | .closeTag => settleTag source context start name arguments body
    | _ => brokenTag (.unclosedTag name.text) start body.after arguments body.nodes

end

variable {source : List Char} {context : Context} {level : Level} {other : SigilTemplate.Level}

theorem readAttributeValue_follows {c : Cursor} (alike : LevelsAlike source level other)
    (size : context.size = byteLength source) (place : Cursor.ofText source ≤ c) :
    Follows context (readAttributeValue source level context c) (SigilTemplate.readAttributeValue other context c) := by
  unfold readAttributeValue SigilTemplate.readAttributeValue
  cases head : c.peek with
  | none => exact .pure _
  | some ch =>
    simp only
    by_cases quote : ch = '"' ∨ ch = '\x27'
    · rw [if_pos quote, if_pos quote]
      exact .check (stringLiteral_eq place) (.pure _)
    rw [if_neg quote, if_neg quote]
    by_cases brace : ch = '{'
    · rw [if_pos brace, if_pos brace]
      exact .bind (readBlock_follows alike.nested size place) fun _ _ => .pure _
    rw [if_neg brace, if_neg brace]
    by_cases sigil : c.atSigil = true
    · rw [if_pos sigil, if_pos sigil]
      exact .bind (alike.sigil context c size place sigil) fun _ _ => .pure _
    rw [if_neg sigil, if_neg sigil]
    apply Follows.check (piece_eq place (Cursor.le_skipWhile isWordPart c))
    cases constantValue? (c.textTo (c.skipWhile isWordPart)) with
    | none => exact .pure _
    | some value => exact .pure _

theorem readAttribute_follows {c : Cursor} (alike : LevelsAlike source level other)
    (size : context.size = byteLength source) (place : Cursor.ofText source ≤ c) :
    Follows context (readAttribute source level context c) (SigilTemplate.readAttribute other context c) := by
  have name := place.trans (Cursor.le_skipWhile isAttributePart c)
  apply Follows.check (between_eq place (Cursor.le_skipWhile isAttributePart c))
  simp only [SigilTemplate.readAttribute]
  cases sign : (c.skipWhile isAttributePart).skipBlank.eat? '=' with
  | none => exact .check (moveTo_eq name) (.pure _)
  | some equals =>
    have start := (name.trans (Cursor.le_skipBlank _)).trans
      ((Cursor.lt_of_eat? sign).le.trans (Cursor.le_skipBlank equals))
    exact .bind (readAttributeValue_follows alike size start) fun _ _ => .pure _

theorem tagHeadStep_follows {c : Cursor} {state : TagHeadState} (alike : LevelsAlike source level other)
    (size : context.size = byteLength source) (place : Cursor.ofText source ≤ c) (grown : state.Grown source c) :
    Follows context (tagHeadStep source level context state) (SigilTemplate.tagHeadStep other context state) := by
  have here := place.trans grown.1.inOrder.le
  have blank := here.trans (Cursor.le_skipBlank state.place)
  apply Follows.check (moveTo_eq here)
  simp only [SigilTemplate.tagHeadStep]
  cases closes : state.place.skipBlank.eat? '>' with
  | some after => exact .pure _
  | none =>
    apply Follows.check (eatText_eq blank)
    cases ends : state.place.skipBlank.eatText? ['/', '>'] with
    | some after => exact .pure _
    | none =>
      simp only
      by_cases gap : state.place.pos < state.place.skipBlank.pos ∧ state.place.skipBlank.peek.any isIdentStart = true
      · rw [if_pos gap, if_pos gap]
        apply Follows.bind (readAttribute_follows alike size blank)
        rintro (stop | ⟨argument, after⟩) _
        · exact .pure _
        · exact .pure _
      · rw [if_neg gap, if_neg gap]
        exact .pure _

theorem readTagHead_follows {c : Cursor} (alike : LevelsAlike source level other)
    (size : context.size = byteLength source) (place : Cursor.ofText source ≤ c) :
    Follows context (readTagHead source level context c) (SigilTemplate.readTagHead other context c) :=
  .iterate (tagHeadStep_advances alike.sound size place)
    (fun _ grown => tagHeadStep_follows alike size place grown) ⟨.start, by simp [argumentNodes]⟩

theorem reads_of_atTagClose {c : Cursor} (closes : c.atTagClose = true) : c.Reads ['<', '/'] (c.skip 2) := by
  have first := Cursor.reads_next_of_peek (Cursor.peek_of_atTagClose closes)
  simp only [Cursor.atTagClose, Bool.and_eq_true] at closes
  have second : c.next.peek = some '/' := by
    have slash := closes.2
    unfold closesTag at slash
    split at slash
    · next rest starts => exact Cursor.peek_eq_some.mpr ⟨rest, starts⟩
    · simp at slash
  exact first.trans (Cursor.reads_next_of_peek second)

theorem readCloseTag_eq {c : Cursor} (place : Cursor.ofText source ≤ c) (closes : c.atTagClose = true) :
    readCloseTag source c = .ok (SigilTemplate.readCloseTag c) := by
  have moved : moveBy source c 2 = .ok (c.skip 2) := moveBy_eq place (reads_of_atTagClose closes)
  have name := place.trans (Cursor.le_skip 2 c)
  rw [readCloseTag, moved, ok_bind]
  simp only
  rw [piece_eq name (Cursor.le_skipTagName _), ok_bind]
  simp only [SigilTemplate.readCloseTag]
  cases (c.skip 2).skipTagName.skipBlank.eat? '>' <;> rfl

theorem readStrayClose_follows {c : Cursor} (place : Cursor.ofText source ≤ c) (closes : c.atTagClose = true) :
    Follows context (readStrayClose source c) (SigilTemplate.readStrayClose c) :=
  .check (readCloseTag_eq place closes) (.bind (.traced _) fun _ _ => .pure _)

theorem settleTag_follows {start : Cursor} {name : Fragment} {arguments : List (Argument Node)} {body : Region}
    (place : Cursor.ofText source ≤ body.after) (closes : body.after.atTagClose = true) :
    Follows context (settleTag source context start name arguments body)
      (SigilTemplate.settleTag context start name arguments body) := by
  have last := place.trans (lt_readCloseTag closes).le
  apply Follows.check (readCloseTag_eq place closes)
  simp only [SigilTemplate.settleTag]
  by_cases same : (SigilTemplate.readCloseTag body.after).name = name.text
  · rw [if_pos same, if_pos same]
    by_cases complete : (SigilTemplate.readCloseTag body.after).complete = true
    · rw [if_pos complete, if_pos complete]
      exact .pure _
    · rw [if_neg complete, if_neg complete]
      exact .traced _
  · rw [if_neg same, if_neg same]
    split
    · exact .check (moveTo_eq place) (.traced _)
    · exact .check (moveTo_eq last) (.traced _)

theorem readTag_follows {below : Below} {model : SigilTemplate.Below} {start : Cursor}
    (alike : BelowAlike source below model) (size : context.size = byteLength source)
    (here : Cursor.ofText source ≤ start) : Follows context (readTag source below context start)
      (SigilTemplate.readTag model context start) := by
  have opener := here.trans (Cursor.le_next start)
  have reached := opener.trans (Cursor.le_skipTagName start.next)
  apply Follows.check (between_eq opener (Cursor.le_skipTagName start.next))
  refine alike.enter fun level other levels => ?_
  apply Follows.bind (readTagHead_follows levels size reached)
  intro head outcome
  have read := (readTagHead_yields levels.sound size reached).of_outcome outcome
  cases head with
  | malformed nodes stop => exact .traced _
  | closed arguments selfClosing after =>
    cases selfClosing with
    | true => exact .pure _
    | false =>
      obtain ⟨place, attributes, ends, _⟩ := read
      have inside : Cursor.ofText source ≤ after :=
        (reached.trans (attributes.inOrder.le.trans (Cursor.le_skipBlank place))).trans (Cursor.lt_of_eat? ends).le
      let within := context.insideTag (Fragment.between start.next start.next.skipTagName).text
      have region := levels.region within (.tagBody context.braced) after size inside
      refine .isBraced (.bind region ?_)
      intro body outcome
      have grown := (levels.sound.region within (.tagBody context.braced) after size inside).of_outcome outcome
      obtain ⟨state, items, stops⟩ := grown.items
      obtain ⟨nodes, stop, last⟩ := body
      cases stop with
      | closeTag => exact settleTag_follows (inside.trans items.inOrder.le) stops.isTagBody.2
      | textEnd => exact .traced _
      | closeBrace => exact .traced _
      | comma => exact .traced _
      | unbalanced expected => exact .traced _

end SigilTemplate.Bytes
