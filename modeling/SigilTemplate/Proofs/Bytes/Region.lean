import SigilTemplate.Proofs.Bytes.Arms
import SigilTemplate.Proofs.Bytes.Tag

/-!
Constructs by their first characters and regions, read by offsets. What comes
after an `@` is one byte behind it; each round over a region takes up the source
where the last one ended. As every level follows its model, by induction over
the levels all of them do.
-/

namespace SigilTemplate.Bytes
open Text

section

variable (source : List Char)

/-- A component call from `start`: the name, the arguments, and the `{` of its body. -/
def callHead (room : Nat) (start : Cursor) : Checked (Option (Fragment × Option (List (Argument Node)) × Cursor)) := do
  let name ← moveTo source (start.pos + 1)
  let nameEnd := name.skipIdent
  if (encode source)[nameEnd.pos]?.map asChar = some '(' then
    match ← enclosed source room nameEnd with
    | .ok fragment =>
      let brace := fragment.after.skipBlank
      if brace.peek = some '{' then
        let text ← between source name nameEnd
        let stop ← minus fragment.after.pos 1
        let arguments ← callArguments source (nameEnd.pos + 1) stop
        pure (some (text, arguments, brace))
      else pure none
    | .error _ => pure none
  else pure none

/-- A component call whose head has been read. -/
def readCall (below : Below) (context : Context) (start : Cursor) (name : Fragment)
    (arguments : Option (List (Argument Node))) (brace : Cursor) : Run ReadNode := do
  let level ← below.enter context brace
  let (body, after) ← readBlock level.nested context .component brace
  match arguments with
  | some arguments =>
    pure (⟨.component ⟨name, .call, arguments, body, false⟩, start.spanTo after⟩, after)
  | none =>
    let node ← Traced.recover (.malformedArguments name.text) (start.spanTo after) body
    pure (node, after)

/-- A helper with its body. -/
def readFunction (below : Below) (context : Context) (start c : Cursor) : Run ReadNode := do
  match ← (functionHead source below.room c).run with
  | .ok ((name, parameters), brace) =>
    let (body, after) ← readBlock below.nested context (.body .function) brace
    pure (⟨.directive (.function name parameters body), start.spanTo after⟩, after)
  | .error stop => malformedDirective source .function start stop

/-- A section with a value or with a body. -/
def readSection (below : Below) (context : Context) (start c : Cursor) : Run ReadNode :=
  if c.peek = some '(' then readSectionValue source below.room context start c
  else do
    match ← (sectionHead source c).run with
    | .ok (name, brace) =>
      let (body, after) ← readBlock below.nested context (.body .sectionBlock) brace
      pure (⟨.directive (.sectionBlock name body), start.spanTo after⟩, after)
    | .error stop => malformedDirective source .sectionBlock start stop

/-- What a keyword starts. -/
def readKeyword (below : Below) (context : Context) (keyword : Keyword) (start c : Cursor) : Run ReadNode :=
  match keyword with
  | .ifBlock => readConditional source below context start c
  | .elseBlock => readStrayElse source below context start c
  | .forLoop | .whileLoop => readLoop source below context keyword start c
  | .matchOn => readMatch source below context start c
  | .continueLoop => pure (⟨.statement .continueLoop, start.spanTo c⟩, c)
  | .breakLoop => pure (⟨.statement .breakLoop, start.spanTo c⟩, c)
  | .layout => settleDirective source keyword start (layoutDirective source c)
  | .useFile => settleDirective source keyword start (useDirective source c)
  | .includeFile => settleDirective source keyword start (stringDirective source .includeFile c)
  | .render => settleDirective source keyword start (stringDirective source .render c)
  | .renderBody => settleDirective source keyword start (bareDirective source .renderBody c)
  | .childContent => settleDirective source keyword start (bareDirective source .childContent c)
  | .sectionBlock => readSection source below context start c
  | .raw => readRaw source context start c
  | .function => readFunction source below context start c

/-- What a name after an `@` starts. -/
def readNamed (below : Below) (context : Context) (start : Cursor) (capital : Bool) : Run ReadNode := do
  let name ← moveTo source (start.pos + 1)
  match ← recognize name.rest with
  | some (keyword, length) =>
    let after ← moveTo source (start.pos + 1 + length)
    readKeyword source below context keyword start after
  | none =>
    match ← if capital then callHead source below.room start else pure none with
    | some (name, arguments, brace) => readCall below context start name arguments brace
    | none => readSimpleExpression source below.room context false start name

/-- What an `@` starts. -/
def readSigil (below : Below) (context : Context) (start : Cursor) : Run ReadNode := do
  let opener ← moveTo source (start.pos + 1)
  match opener.peek with
  | none => invalidSigil source start opener
  | some ch =>
    if ch = '*' then readComment source context start
    else if ch = '{' then readEnclosed source below.room context .codeBlock start opener
    else if ch = '(' then readParenExpression source below.room context false start opener
    else if ch = '#' then readRawOutput source below.room context start
    else if isIdentStart ch then readNamed source below context start ch.isUpper
    else if ch = '&' then readSimpleExpression source below.room context false start opener
    else invalidSigil source start opener

/-- The next node of a region. -/
def readItem (below : Below) (context : Context) (mode : TextMode) (state : RegionState) : Run RegionState :=
  let c := state.place
  if c.atTagClose then do return state.push (← readStrayClose source c)
  else if c.atTagOpen then do return state.push (← readTag source below context c)
  else if c.atSigil then do return state.push (← readSigil source below context c)
  else do
    let run ← textRun source mode state.text c
    let node : Node := ⟨.text (String.ofList run.content), c.spanTo run.after⟩
    pure ⟨node :: state.nodes, run.state, run.after⟩

/-- The next node of a region, or its end. -/
def regionStep (below : Below) (context : Context) (kind : RegionKind) (state : RegionState) :
    Run (RegionState ⊕ Region) := do
  let place ← moveTo source state.place.pos
  let state : RegionState := ⟨state.nodes, state.text, place⟩
  match place.peek with
  | none => pure (.inr (state.stop .textEnd))
  | some ch =>
    match endAt? kind.mode state.text ch with
    | some stop => pure (.inr (state.stop stop))
    | none =>
      if place.atTagClose && kind.isTagBody then pure (.inr (state.stop .closeTag))
      else return .inl (← readItem source below context kind.mode state)

/-- The nodes from `c` up to what ends the region. -/
def readRegion (below : Below) (context : Context) (kind : RegionKind) (c : Cursor) : Run Region :=
  .iterate context.size (·.place.pos) (regionStep source below context kind) ⟨[], {}, c⟩

/-- The level above some others. -/
def Level.above (below : Below) : Level :=
  { region := readRegion source below
    nested := below.nested
    sigil := readSigil source below
    conditional := readConditional source below }

/-- The level with `room` further ones below it. -/
def Level.withRoom : (room : Nat) → Level
  | 0 => .above source ⟨0, none⟩
  | room + 1 => .above source ⟨room + 1, some (Level.withRoom room)⟩

end

variable {source : List Char} {context : Context} {below : Below} {model : SigilTemplate.Below} {start : Cursor}

/-! ## Constructs by their first characters -/

theorem callHead_eq (room : Nat) (place : Cursor.ofText source ≤ start) (sigil : start.peek = some '@') :
    callHead source room start = .ok ((callHead? room start).map fun (name, arguments, brace) =>
      (name, callArguments? arguments, brace)) := by
  have one := pos_next_of_peek sigil (by decide)
  have name := place.trans (Cursor.le_next start)
  have nameEnd := name.trans (Cursor.le_skipIdent start.next)
  have paren : (encode source)[start.next.skipIdent.pos]?.map asChar = some '(' ↔ start.next.skipIdent.peek = some '(' :=
    (Aligned.of_place nameEnd).map_asChar_iff (by decide)
  rw [callHead, ← one, moveTo_eq name, ok_bind]
  simp only [callHead?, paren]
  by_cases opens : start.next.skipIdent.peek = some '('
  · rw [if_pos opens, if_pos opens, enclosed_eq room nameEnd opens rfl, ok_bind]
    match ok : Code.enclosed room start.next.skipIdent with
    | .error _ => rfl
    | .ok fragment =>
      simp only
      by_cases brace : fragment.after.skipBlank.peek = some '{'
      · obtain ⟨first, last⟩ := offsets_of_enclosed opens rfl ok
        have arguments := callArguments_eq (inner_partOf_source nameEnd opens rfl ok)
        rw [if_pos brace, if_pos brace, between_eq name (Cursor.le_skipIdent start.next), ok_bind, last, ok_bind, ← first,
          arguments]
        rfl
      · rw [if_neg brace, if_neg brace]
        rfl
  · rw [if_neg opens, if_neg opens]
    rfl

theorem readCall_follows {name : Fragment} {arguments brace : Cursor} (alike : BelowAlike source below model)
    (size : context.size = byteLength source) (place : Cursor.ofText source ≤ brace) :
    Follows context (readCall below context start name (callArguments? arguments) brace)
      (SigilTemplate.readCall model context start name arguments brace) := by
  refine alike.enter fun level other levels => ?_
  apply Follows.bind (readBlock_follows levels.nested size place)
  rintro ⟨body, after⟩ _
  cases callArguments? arguments with
  | some arguments => exact .pure _
  | none => exact .bind (.traced _) fun _ _ => .pure _

theorem readFunction_follows {c : Cursor} (alike : BelowAlike source below model) (size : context.size = byteLength source)
    (place : Cursor.ofText source ≤ start) (le : start ≤ c) :
    Follows context (readFunction source below context start c) (SigilTemplate.readFunction model context start c) := by
  have onward := onward_functionHead model.room c
  apply Follows.check (functionHead_tries (place.trans le))
  rw [alike.room]
  unfold SigilTemplate.readFunction
  match head : SigilTemplate.functionHead model.room c with
  | .ok ((name, parameters), brace) =>
    obtain ⟨later, _⟩ := onward.of_ok head
    exact .bind (readBlock_follows alike.nested size (place.trans (le.trans later))) fun _ _ => .pure _
  | .error stop =>
    rw [head] at onward
    exact malformedDirective_follows place (le.trans onward)

theorem readSection_follows {c : Cursor} (alike : BelowAlike source below model) (size : context.size = byteLength source)
    (place : Cursor.ofText source ≤ start) (lt : start < c) :
    Follows context (readSection source below context start c) (SigilTemplate.readSection model context start c) := by
  unfold readSection SigilTemplate.readSection
  by_cases paren : c.peek = some '('
  · rw [if_pos paren, if_pos paren, alike.room]
    exact readSectionValue_follows place lt paren
  rw [if_neg paren, if_neg paren]
  have onward := onward_sectionHead c
  apply Follows.check (sectionHead_tries (place.trans lt.le))
  match head : SigilTemplate.sectionHead c with
  | .ok (name, brace) =>
    obtain ⟨later, _⟩ := onward.of_ok head
    exact .bind (readBlock_follows alike.nested size (place.trans (lt.le.trans later))) fun _ _ => .pure _
  | .error stop =>
    rw [head] at onward
    exact malformedDirective_follows place (lt.le.trans onward)

theorem readKeyword_follows {keyword : Keyword} {c : Cursor} (alike : BelowAlike source below model)
    (size : context.size = byteLength source) (place : Cursor.ofText source ≤ start) (opens : Opens keyword start c) :
    Follows context (readKeyword source below context keyword start c)
      (SigilTemplate.readKeyword model context keyword start c) := by
  have le := opens.lt.le
  have here := place.trans le
  cases keyword with
  | ifBlock => exact readConditional_follows alike size place opens
  | elseBlock => exact readStrayElse_follows alike size here
  | forLoop => exact readLoop_follows alike size here
  | whileLoop => exact readLoop_follows alike size here
  | matchOn => exact readMatch_follows alike size here
  | continueLoop => exact .pure _
  | breakLoop => exact .pure _
  | layout => exact settleDirective_follows place le (onward_layoutDirective c) (layoutDirective_tries here)
  | useFile => exact settleDirective_follows place le (onward_useDirective c) (useDirective_tries here)
  | includeFile => exact settleDirective_follows place le (onward_includeFile c) (stringDirective_tries here)
  | render => exact settleDirective_follows place le (onward_render c) (stringDirective_tries here)
  | renderBody => exact settleDirective_follows place le (onward_renderBody c) (bareDirective_tries here)
  | childContent => exact settleDirective_follows place le (onward_childContent c) (bareDirective_tries here)
  | sectionBlock => exact readSection_follows alike size place opens.lt
  | raw => exact readRaw_follows place le
  | function => exact readFunction_follows alike size place le

theorem readNamed_follows {capital : Bool} (alike : BelowAlike source below model) (size : context.size = byteLength source)
    (place : Cursor.ofText source ≤ start) (sigil : start.atSigil = true) :
    Follows context (readNamed source below context start capital)
      (SigilTemplate.readNamed model context start capital) := by
  have head := Cursor.peek_of_atSigil sigil
  have one := pos_next_of_peek head (by decide)
  have name := place.trans (Cursor.le_next start)
  refine .moveTo name one (.check (recognize_eq _) ?_)
  unfold SigilTemplate.readNamed
  match word : Keyword.recognize? start.next.rest with
  | some keyword =>
    have after : start.next.skipIdent.pos = start.pos + 1 + byteLength (identHead start.next.rest) := by
      rw [(Cursor.reads_skipIdent start.next).pos_eq, one]
    apply Follows.moveTo (name.trans (Cursor.le_skipIdent start.next)) after
    exact readKeyword_follows alike size place (.sigil sigil word)
  | none =>
    have simple : Follows context (readSimpleExpression source model.room context false start start.next)
        (SigilTemplate.readSimpleExpression model.room context false start start.next) := readSimpleExpression_follows name
    rw [alike.room]
    cases capital with
    | false => exact .given simple
    | true =>
      apply Follows.check (callHead_eq model.room place head)
      match call : callHead? model.room start with
      | none => exact simple
      | some (text, arguments, brace) =>
        exact readCall_follows alike size (name.trans (lt_of_callHead? call).le)

theorem readSigil_follows (alike : BelowAlike source below model) (size : context.size = byteLength source)
    (place : Cursor.ofText source ≤ start) (sigil : start.atSigil = true) :
    Follows context (readSigil source below context start) (SigilTemplate.readSigil model context start) := by
  have head := Cursor.peek_of_atSigil sigil
  have opener := place.trans (Cursor.le_next start)
  apply Follows.moveTo opener (pos_next_of_peek head (by decide))
  unfold SigilTemplate.readSigil
  cases mark : start.next.peek with
  | none => exact invalidSigil_follows opener
  | some ch =>
    simp only [alike.room]
    by_cases star : ch = '*'
    · rw [if_pos star, if_pos star]
      exact readComment_follows place head (star ▸ mark)
    rw [if_neg star, if_neg star]
    by_cases brace : ch = '{'
    · rw [if_pos brace, if_pos brace]
      exact readEnclosed_follows opener (brace ▸ mark) rfl
    rw [if_neg brace, if_neg brace]
    by_cases paren : ch = '('
    · rw [if_pos paren, if_pos paren]
      exact readEnclosed_follows opener (paren ▸ mark) rfl
    rw [if_neg paren, if_neg paren]
    by_cases hash : ch = '#'
    · rw [if_pos hash, if_pos hash]
      exact readRawOutput_follows place head (hash ▸ mark)
    rw [if_neg hash, if_neg hash]
    by_cases letter : isIdentStart ch = true
    · rw [if_pos letter, if_pos letter]
      exact readNamed_follows alike size place sigil
    rw [if_neg letter, if_neg letter]
    split
    · exact readSimpleExpression_follows opener
    · exact invalidSigil_follows opener

/-! ## Regions and levels -/

theorem readItem_follows {mode : TextMode} {state : RegionState} (alike : BelowAlike source below model)
    (size : context.size = byteLength source) (place : Cursor.ofText source ≤ state.place) :
    Follows context (readItem source below context mode state) (SigilTemplate.readItem model context mode state) := by
  simp only [readItem, SigilTemplate.readItem]
  by_cases closes : state.place.atTagClose = true
  · rw [if_pos closes, if_pos closes]
    exact .bind (readStrayClose_follows place closes) fun _ _ => .pure _
  rw [if_neg closes, if_neg closes]
  by_cases opens : state.place.atTagOpen = true
  · rw [if_pos opens, if_pos opens]
    exact .bind (readTag_follows alike size place) fun _ _ => .pure _
  rw [if_neg opens, if_neg opens]
  by_cases sigil : state.place.atSigil = true
  · rw [if_pos sigil, if_pos sigil]
    exact .bind (readSigil_follows alike size place sigil) fun _ _ => .pure _
  rw [if_neg sigil, if_neg sigil]
  exact .check (textRun_eq place) (.pure _)

theorem regionStep_follows {kind : RegionKind} {c : Cursor} {state : RegionState} (alike : BelowAlike source below model)
    (size : context.size = byteLength source) (place : Cursor.ofText source ≤ c) (grown : state.Grown source kind.mode c) :
    Follows context (regionStep source below context kind state) (SigilTemplate.regionStep model context kind state) := by
  have here := place.trans grown.1.inOrder.le
  apply Follows.check (moveTo_eq here)
  unfold SigilTemplate.regionStep
  cases head : state.place.peek with
  | none => exact .pure _
  | some ch =>
    simp only
    cases endAt? kind.mode state.text ch with
    | some stop => exact .pure _
    | none =>
      simp only
      by_cases closes : (state.place.atTagClose && kind.isTagBody) = true
      · rw [if_pos closes, if_pos closes]
        exact .pure _
      · rw [if_neg closes, if_neg closes]
        exact .bind (readItem_follows alike size here) fun _ _ => .pure _

theorem readRegion_follows (alike : BelowAlike source below model) :
    RegionsAlike source (readRegion source below) (SigilTemplate.readRegion model) := by
  intro context kind c size place
  refine .iterate (regionStep_advances alike.sound size place) ?_ ⟨.start, by simp⟩
  intro state grown
  exact regionStep_follows alike size place grown

theorem above_alike (alike : BelowAlike source below model) :
    LevelsAlike source (.above source below) (.above model) where
  sound := alike.sound.above
  region := readRegion_follows alike
  nested := alike.nested
  sigil _ _ size place sigil := readSigil_follows alike size place sigil
  conditional _ _ _ size place opens := readConditional_follows alike size place opens

theorem withRoom_alike (source : List Char) (room : Nat) :
    LevelsAlike source (.withRoom source room) (.withRoom room) := by
  induction room with
  | zero => exact above_alike ⟨rfl, .none⟩
  | succ room ih => exact above_alike ⟨rfl, .some ih⟩

end SigilTemplate.Bytes
