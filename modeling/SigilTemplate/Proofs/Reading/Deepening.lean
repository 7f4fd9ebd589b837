import SigilTemplate.Proofs.Code.Deepening
import SigilTemplate.Proofs.Reading.Deepens
import SigilTemplate.Proofs.Reading.Progress

/-!
Every construct is read in the same way under a higher limit. Of the readers
that look at the limit most end the reading where it does not suffice; a call
becomes an expression there, which then ends the reading in its turn, and only
a helper is cut.
-/

namespace SigilTemplate
open Text

section

variable {source : List Char} {limit : Nat} {context : Context} {below deep : Below} {level further : Level}

theorem Below.Deepens.enter_bind {α : Type} {c : Cursor} {f g : Level → Traced α} (deepens : below.Deepens source limit deep)
    (sound : below.Sound source)
    (same : ∀ level further, level.Sound source → level.Deepens source limit further →
      (f level).Deepens source (g further)) :
    (below.enter context c >>= f).Deepens source (deep.enter (context.withLimit limit) c >>= g) := by
  unfold Below.enter
  cases here : below.next with
  | none => exact .inl ⟨_, _, rfl, rfl⟩
  | some level =>
    obtain ⟨further, there, levels⟩ := deepens.next level here
    rw [Option.mem_def.mp there]
    exact same (level ()) (further ()) (sound level here) levels

theorem Below.Deepens.nested (deepens : below.Deepens source limit deep) (sound : below.Sound source) :
    RegionsDeepen source limit below.nested deep.nested := by
  intro context kind c size place
  exact deepens.enter_bind sound fun level further _ levels => levels.region context kind c size place

/-! ## Blocks and statements -/

theorem readBlock_deepens {nested deeper : Context → RegionKind → Cursor → Traced Region} {role : BlockRole} {brace : Cursor}
    (regions : RegionsDeepen source limit nested deeper) (sound : ReadsRegions source nested)
    (size : context.size = byteLength source) (place : Cursor.ofText source ≤ brace) :
    (readBlock nested context role brace).Deepens source (readBlock deeper (context.withLimit limit) role brace) := by
  have inside := place.trans (Cursor.le_next brace)
  apply Traced.Deepens.bind (regions context.insideBraces .braced brace.next size inside)
    (sound context.insideBraces .braced brace.next size inside)
  intro region _
  exact .refl _

theorem readElse_deepens {c : Cursor} (levels : level.Deepens source limit further) (sound : level.Sound source)
    (size : context.size = byteLength source) (place : Cursor.ofText source ≤ c) :
    (readElse level context c).Deepens source (readElse further (context.withLimit limit) c) := by
  unfold readElse
  split
  · exact .refl _
  · next afterElse word =>
    have start : c ≤ afterElse := (Cursor.le_skipBlank c).trans (Cursor.le_of_reads (Cursor.reads_eatText? word))
    have onward : Cursor.ofText source ≤ afterElse.skipBlank :=
      place.trans (start.trans (Cursor.le_skipBlank afterElse))
    simp only
    split
    · next opens =>
      exact .bind (readBlock_deepens levels.nested sound.nested size onward)
        (readBlock_yields sound.nested size onward opens) fun _ _ => .refl _
    · split
      · next next_ =>
        exact .bind (levels.conditional context _ _ size onward (.chained next_.2))
          (sound.conditional context _ _ size onward (.chained next_.2)) fun _ _ => .refl _
      · exact .refl _

theorem readConditional_deepens {start c : Cursor} (deepens : below.Deepens source limit deep) (sound : below.Sound source)
    (size : context.size = byteLength source) (place : Cursor.ofText source ≤ start) (opens : Opens .ifBlock start c) :
    (readConditional below context start c).Deepens source (readConditional deep (context.withLimit limit) start c) := by
  apply deepens.enter_bind sound
  intro level further holds levels
  cases head : statementHead c with
  | missing stop => exact .refl _
  | ready condition brace =>
    obtain ⟨later, brace_, _⟩ := statementHead_ready head
    have reached : Cursor.ofText source ≤ brace := place.trans (opens.lt.le.trans later)
    apply Traced.Deepens.bind (readBlock_deepens levels.nested holds.nested size reached)
      (readBlock_yields holds.nested size reached brace_)
    rintro ⟨body, middle⟩ ⟨block, _⟩
    have inside : Cursor.ofText source ≤ middle := reached.trans block.inOrder.1.le
    exact .bind (readElse_deepens levels holds size inside) (readElse_yields holds size inside) fun _ _ => .refl _

theorem readLoop_deepens {keyword : Keyword} {start c : Cursor} (deepens : below.Deepens source limit deep)
    (sound : below.Sound source) (size : context.size = byteLength source) (place : Cursor.ofText source ≤ start)
    (opens : Opens keyword start c) :
    (readLoop below context keyword start c).Deepens source
      (readLoop deep (context.withLimit limit) keyword start c) := by
  apply deepens.enter_bind sound
  intro level further holds levels
  cases head : statementHead c with
  | missing stop => exact .refl _
  | ready header brace =>
    obtain ⟨later, brace_, _⟩ := statementHead_ready head
    have reached : Cursor.ofText source ≤ brace := place.trans (opens.lt.le.trans later)
    exact .bind (readBlock_deepens levels.nested holds.nested size reached)
      (readBlock_yields holds.nested size reached brace_) fun _ _ => .refl _

theorem readStrayElse_deepens {start c : Cursor} (deepens : below.Deepens source limit deep) (sound : below.Sound source)
    (size : context.size = byteLength source) (place : Cursor.ofText source ≤ start) (lt : start < c) :
    (readStrayElse below context start c).Deepens source (readStrayElse deep (context.withLimit limit) start c) := by
  have onward : Cursor.ofText source ≤ c.skipBlank := place.trans (lt.le.trans (Cursor.le_skipBlank c))
  simp only [readStrayElse]
  split
  · next opens =>
    exact .bind (readBlock_deepens (deepens.nested sound) sound.nested size onward)
      (readBlock_yields sound.nested size onward opens) fun _ _ => .refl _
  · split
    · next word =>
      exact .bind (readConditional_deepens deepens sound size onward (.chained word))
        (readConditional_yields sound size onward (.chained word)) fun _ _ => .refl _
    · exact .refl _

/-! ## Arms -/

theorem readInlineArm_deepens {brace start : Cursor} {arrowEnd : Nat} (levels : level.Deepens source limit further)
    (sound : level.Sound source) (size : context.size = byteLength source) (place : Cursor.ofText source ≤ start) :
    (readInlineArm level context brace arrowEnd start).Deepens source
      (readInlineArm further (context.withLimit limit) brace arrowEnd start) :=
  .bind (levels.nested context .arm start size place) (sound.nested context .arm start size place) fun _ _ => .refl _

theorem readArm_deepens {brace c arrow : Cursor} (levels : level.Deepens source limit further) (sound : level.Sound source)
    (size : context.size = byteLength source) (place : Cursor.ofText source ≤ c) (opener : Cursor.ofText source ≤ brace)
    (opens : brace.peek = some '{') (pattern : ArrowAt c arrow) :
    (readArm level context brace c arrow).Deepens source
      (readArm further (context.withLimit limit) brace c arrow) := by
  have start : Cursor.ofText source ≤ (arrow.skip 2).skipBlank := place.trans pattern.lt_afterArrow.le
  unfold readArm
  simp only
  split
  · next block =>
    exact .bind (readBlock_deepens levels.nested sound.nested size start)
      (readBlock_yields sound.nested size start block) fun _ _ => .refl _
  · exact .bind (readInlineArm_deepens levels sound size start)
      (readInlineArm_yields sound size opener opens place pattern) fun _ _ => .refl _

theorem armsStep_deepens {brace : Cursor} {state : ArmsState} (levels : level.Deepens source limit further)
    (sound : level.Sound source) (size : context.size = byteLength source) (opener : Cursor.ofText source ≤ brace)
    (opens : brace.peek = some '{') (reached : brace ≤ state.place) :
    (armsStep level context brace state).Deepens source (armsStep further (context.withLimit limit) brace state) := by
  have here : Cursor.ofText source ≤ state.place.skipBlank := opener.trans (reached.trans (Cursor.le_skipBlank _))
  unfold armsStep
  simp only
  split
  · exact .refl _
  · split
    · exact .refl _
    · split
      · next arrow found =>
        have pattern := arrowAt_of_armsStep found
        exact .bind (readArm_deepens levels sound size here opener opens pattern)
          (readArm_yields sound size opener opens here pattern) fun _ _ => .refl _
      · exact .refl _

theorem readArms_deepens {brace : Cursor} (levels : level.Deepens source limit further) (sound : level.Sound source)
    (size : context.size = byteLength source) (place : Cursor.ofText source ≤ brace) (opens : brace.peek = some '{') :
    (readArms level context brace).Deepens source (readArms further (context.withLimit limit) brace) := by
  have advances : Traced.Advances source context.size (·.place.pos) (ArmsState.Grown source brace)
      (GrownArms source brace) (armsStep level context.insideBraces brace) :=
    armsStep_advances sound size place opens
  apply Traced.Deepens.iterate advances
  · intro state grown
    have inside : context.insideBraces.size = byteLength source := size
    exact armsStep_deepens levels sound inside place opens grown.1.inOrder.le
  · exact ⟨.start, by simp [armNodes]⟩

theorem readMatch_deepens {start c : Cursor} (deepens : below.Deepens source limit deep) (sound : below.Sound source)
    (size : context.size = byteLength source) (place : Cursor.ofText source ≤ start) (opens : Opens .matchOn start c) :
    (readMatch below context start c).Deepens source (readMatch deep (context.withLimit limit) start c) := by
  apply deepens.enter_bind sound
  intro level further holds levels
  cases head : statementHead c with
  | missing stop => exact .refl _
  | ready subject brace =>
    obtain ⟨later, brace_, _⟩ := statementHead_ready head
    have reached : Cursor.ofText source ≤ brace := place.trans (opens.lt.le.trans later)
    exact .bind (readArms_deepens levels holds size reached brace_) (readArms_yields holds size reached brace_)
      fun _ _ => .refl _

/-! ## Tags -/

theorem readAttributeValue_deepens {c : Cursor} (levels : level.Deepens source limit further) (sound : level.Sound source)
    (size : context.size = byteLength source) (place : Cursor.ofText source ≤ c) :
    (readAttributeValue level context c).Deepens source (readAttributeValue further (context.withLimit limit) c) := by
  unfold readAttributeValue
  split
  · exact .refl _
  · next ch head =>
    split
    · exact .refl _
    · split
      · next brace =>
        exact .bind (readBlock_deepens levels.nested sound.nested size place)
          (readBlock_yields sound.nested size place (brace ▸ head)) fun _ _ => .refl _
      · split
        · next sigil =>
          exact .bind (levels.sigil context c size place sigil) (sound.sigil context c size place sigil)
            fun _ _ => .refl _
        · exact .refl _

theorem readAttribute_deepens {c : Cursor} (levels : level.Deepens source limit further) (sound : level.Sound source)
    (size : context.size = byteLength source) (place : Cursor.ofText source ≤ c) :
    (readAttribute level context c).Deepens source (readAttribute further (context.withLimit limit) c) := by
  simp only [readAttribute]
  split
  · exact .refl _
  · next equals sign =>
    have start : c ≤ equals.skipBlank := (Cursor.le_skipWhile isAttributePart c).trans
      ((Cursor.le_skipBlank _).trans ((Cursor.lt_of_eat? sign).le.trans (Cursor.le_skipBlank equals)))
    exact .bind (readAttributeValue_deepens levels sound size (place.trans start))
      (readAttributeValue_yields sound size (place.trans start)) fun _ _ => .refl _

theorem tagHeadStep_deepens {state : TagHeadState} (levels : level.Deepens source limit further) (sound : level.Sound source)
    (size : context.size = byteLength source) (place : Cursor.ofText source ≤ state.place) :
    (tagHeadStep level context state).Deepens source (tagHeadStep further (context.withLimit limit) state) := by
  have here : Cursor.ofText source ≤ state.place.skipBlank := place.trans (Cursor.le_skipBlank _)
  simp only [tagHeadStep]
  split
  · exact .refl _
  · split
    · exact .refl _
    · split
      · exact .bind (readAttribute_deepens levels sound size here) (readAttribute_yields sound size here)
          fun _ _ => .refl _
      · exact .refl _

theorem readTagHead_deepens {c : Cursor} (levels : level.Deepens source limit further) (sound : level.Sound source)
    (size : context.size = byteLength source) (place : Cursor.ofText source ≤ c) :
    (readTagHead level context c).Deepens source (readTagHead further (context.withLimit limit) c) := by
  apply Traced.Deepens.iterate (tagHeadStep_advances sound size place)
  · intro state grown
    exact tagHeadStep_deepens levels sound size (place.trans grown.1.inOrder.le)
  · exact ⟨.start, by simp [argumentNodes]⟩

theorem readTag_deepens {start : Cursor} (deepens : below.Deepens source limit deep) (sound : below.Sound source)
    (size : context.size = byteLength source) (place : Cursor.ofText source ≤ start) (opens : start.atTagOpen = true) :
    (readTag below context start).Deepens source (readTag deep (context.withLimit limit) start) := by
  have name : start < start.next.skipTagName :=
    (Cursor.lt_next (Cursor.peek_of_atTagOpen opens)).trans_le (Cursor.le_skipTagName start.next)
  have reached := place.trans name.le
  apply deepens.enter_bind sound
  intro level further holds levels
  apply Traced.Deepens.bind (readTagHead_deepens levels holds size reached) (readTagHead_yields holds size reached)
  intro head read
  cases head with
  | malformed nodes stop => exact .refl _
  | closed arguments selfClosing after =>
    cases selfClosing with
    | true => exact .refl _
    | false =>
      obtain ⟨last, attributes, ends, _⟩ := read
      have inside : Cursor.ofText source ≤ after :=
        (reached.trans (attributes.inOrder.le.trans (Cursor.le_skipBlank last))).trans (Cursor.lt_of_eat? ends).le
      exact .bind (levels.region (context.insideTag _) _ after size inside) (holds.region _ _ after size inside)
        fun _ _ => .refl _

/-! ## Code -/

theorem refusedFragment_deepens {start : Cursor} (refusal : Code.Refusal) :
    (refusedFragment context start refusal).Deepens source
      (refusedFragment (context.withLimit limit) start refusal) := by
  cases refusal with
  | mismatched place found innermost => exact .refl _
  | unterminated opener => exact .refl _
  | tooDeep pos => exact .tooDeep

variable {low high : Nat}

theorem readEnclosed_deepens {form : String → Form Node} {start opener : Cursor} (le : low ≤ high) :
    (readEnclosed low context form start opener).Deepens source
      (readEnclosed high (context.withLimit limit) form start opener) := by
  unfold readEnclosed
  rcases Code.enclosed_deepens le opener with ⟨pos, deep⟩ | same
  · rw [deep]
    exact .tooDeep
  · rw [same]
    cases Code.enclosed high opener with
    | ok fragment => exact .refl _
    | error refusal => exact refusedFragment_deepens refusal

theorem readSimpleExpression_deepens {raw : Bool} {start name : Cursor} (le : low ≤ high) :
    (readSimpleExpression low context raw start name).Deepens source
      (readSimpleExpression high (context.withLimit limit) raw start name) := by
  unfold readSimpleExpression
  rcases Code.chain?_deepens le name with ⟨pos, deep⟩ | same
  · rw [deep]
    exact .tooDeep
  · rw [same]
    cases Code.chain? high name with
    | ok chain => cases chain <;> exact .refl _
    | error refusal => exact refusedFragment_deepens refusal

theorem readRawOutput_deepens {start : Cursor} (le : low ≤ high) :
    (readRawOutput low context start).Deepens source (readRawOutput high (context.withLimit limit) start) := by
  simp only [readRawOutput]
  split
  · split
    · exact readEnclosed_deepens le
    · split
      · exact readSimpleExpression_deepens le
      · exact .refl _
  · exact .refl _

theorem readSectionValue_deepens {start opener : Cursor} (le : low ≤ high) :
    (readSectionValue low context start opener).Deepens source
      (readSectionValue high (context.withLimit limit) start opener) := by
  unfold readSectionValue
  rcases Code.enclosed_deepens le opener with ⟨pos, deep⟩ | same
  · rw [deep]
    exact .tooDeep
  · rw [same]
    cases Code.enclosed high opener with
    | ok arguments => exact .refl _
    | error refusal => exact refusedFragment_deepens refusal

theorem readSection_deepens {start c : Cursor} (deepens : below.Deepens source limit deep) (sound : below.Sound source)
    (size : context.size = byteLength source) (place : Cursor.ofText source ≤ start) (opens : Opens .sectionBlock start c) :
    (readSection below context start c).Deepens source (readSection deep (context.withLimit limit) start c) := by
  unfold readSection
  split
  · exact readSectionValue_deepens deepens.room
  · cases head : sectionHead c with
    | error stop => exact .refl _
    | ok found =>
      obtain ⟨name, brace⟩ := found
      obtain ⟨later, _, brace_⟩ := (onward_sectionHead c).of_ok head
      have reached : Cursor.ofText source ≤ brace := place.trans (opens.lt.le.trans later)
      exact .bind (readBlock_deepens (deepens.nested sound) sound.nested size reached)
        (readBlock_yields sound.nested size reached brace_) fun _ _ => .refl _

/-- The head of a helper is the same under a higher limit, unless its parameters nest too deeply for the lower one only. -/
theorem functionHead_deepens (le : low ≤ high) (c : Cursor) :
    functionHead low c = functionHead high c ∨
      ∃ name after pos found, identifier c.skipInlineBlank = .ok (name, after) ∧ after.skipInlineBlank.peek = some '(' ∧
        Code.enclosed low after.skipInlineBlank = .error (.tooDeep pos) ∧
        Code.enclosed high after.skipInlineBlank = .ok found ∧
        functionHead low c = .error after.skipInlineBlank := by
  unfold functionHead
  cases named : identifier c.skipInlineBlank with
  | error stop => exact .inl rfl
  | ok read =>
    obtain ⟨name, after⟩ := read
    simp only [bind, Except.bind]
    by_cases paren : after.skipInlineBlank.peek = some '('
    · simp only [if_pos paren]
      rcases Code.enclosed_deepens le after.skipInlineBlank with ⟨pos, deep⟩ | same
      · cases ends : Code.enclosed high after.skipInlineBlank with
        | error refusal => exact .inl (by rw [deep])
        | ok found => exact .inr ⟨name, after, pos, found, rfl, paren, deep, ends, by rw [deep]⟩
      · exact .inl (by rw [same])
    · simp only [if_neg paren]
      exact .inl trivial

theorem readFunction_deepens {start c : Cursor} (deepens : below.Deepens source limit deep) (sound : below.Sound source)
    (size : context.size = byteLength source) (place : Cursor.ofText source ≤ start) (opens : Opens .function start c) :
    (readFunction below context start c).Deepens source (readFunction deep (context.withLimit limit) start c) := by
  unfold readFunction
  rcases functionHead_deepens deepens.room c with same | ⟨name, after, pos, found, named, paren, refused, ends, stops⟩
  · rw [← same]
    cases head : functionHead below.room c with
    | error stop => exact .refl _
    | ok found =>
      obtain ⟨⟨name, parameters⟩, brace⟩ := found
      obtain ⟨later, _, brace_⟩ := (onward_functionHead below.room c).of_ok head
      have reached : Cursor.ofText source ≤ brace := place.trans (opens.lt.le.trans later)
      exact .bind (readBlock_deepens (deepens.nested sound) sound.nested size reached)
        (readBlock_yields sound.nested size reached brace_) fun _ _ => .refl _
  · rw [stops]
    exact .inr (.inl ⟨_, List.mem_singleton_self _, .cut place opens named paren refused ends⟩)

/-! ## Constructs and regions -/

theorem readKeyword_deepens {keyword : Keyword} {start c : Cursor} (deepens : below.Deepens source limit deep)
    (sound : below.Sound source) (size : context.size = byteLength source) (place : Cursor.ofText source ≤ start)
    (opens : Opens keyword start c) :
    (readKeyword below context keyword start c).Deepens source
      (readKeyword deep (context.withLimit limit) keyword start c) := by
  cases keyword with
  | ifBlock => exact readConditional_deepens deepens sound size place opens
  | elseBlock => exact readStrayElse_deepens deepens sound size place opens.lt
  | forLoop => exact readLoop_deepens deepens sound size place opens
  | whileLoop => exact readLoop_deepens deepens sound size place opens
  | matchOn => exact readMatch_deepens deepens sound size place opens
  | sectionBlock => exact readSection_deepens deepens sound size place opens
  | function => exact readFunction_deepens deepens sound size place opens
  | _ => exact .refl _

/-- The head of a call is the same under a higher limit, unless its arguments nest too deeply for the lower one. -/
theorem callHead?_deepens (le : low ≤ high) (start : Cursor) :
    callHead? low start = callHead? high start ∨
      callHead? low start = none ∧ start.next.skipIdent.peek = some '(' ∧
        ∃ pos, Code.enclosed low start.next.skipIdent = .error (.tooDeep pos) := by
  simp only [callHead?]
  split
  · next paren =>
    rcases Code.enclosed_deepens le start.next.skipIdent with ⟨pos, deep⟩ | same
    · exact .inr ⟨by rw [deep], paren, pos, deep⟩
    · exact .inl (by rw [same])
  · exact .inl rfl

theorem readCall_deepens {start arguments brace : Cursor} {name : Fragment} (deepens : below.Deepens source limit deep)
    (sound : below.Sound source) (size : context.size = byteLength source) (place : Cursor.ofText source ≤ start)
    (found : callHead? below.room start = some (name, arguments, brace)) :
    (readCall below context start name arguments brace).Deepens source
      (readCall deep (context.withLimit limit) start name arguments brace) := by
  have here := place.trans ((Cursor.le_next start).trans (lt_of_callHead? found).le)
  apply deepens.enter_bind sound
  intro level further holds levels
  exact .bind (readBlock_deepens levels.nested holds.nested size here)
    (readBlock_yields holds.nested size here (peek_of_callHead? found)) fun _ _ => .refl _

theorem readNamed_deepens {start : Cursor} {ch : Char} (deepens : below.Deepens source limit deep)
    (sound : below.Sound source) (size : context.size = byteLength source) (place : Cursor.ofText source ≤ start)
    (sigil : start.atSigil = true) (head : start.next.peek = some ch) (letter : isIdentStart ch = true) :
    (readNamed below context start ch.isUpper).Deepens source
      (readNamed deep (context.withLimit limit) start ch.isUpper) := by
  unfold readNamed
  cases word : Keyword.recognize? start.next.rest with
  | some keyword => exact readKeyword_deepens deepens sound size place (.sigil sigil word)
  | none =>
    simp only
    by_cases capital : ch.isUpper = true
    · simp only [if_pos capital]
      rcases callHead?_deepens deepens.room start with same | ⟨none, paren, pos, refused⟩
      · rw [← same]
        cases found : callHead? below.room start with
        | none => exact readSimpleExpression_deepens deepens.room
        | some read =>
          obtain ⟨name, arguments, brace⟩ := read
          exact readCall_deepens deepens sound size place found
      · -- What is no call is read as an expression, whose first link is refused in its turn.
        rw [none]
        simp only [readSimpleExpression, Code.chain?_of_enclosed head letter paren refused]
        exact .tooDeep
    · simp only [if_neg capital]
      exact readSimpleExpression_deepens deepens.room

theorem readSigil_deepens {start : Cursor} (deepens : below.Deepens source limit deep) (sound : below.Sound source)
    (size : context.size = byteLength source) (place : Cursor.ofText source ≤ start) (sigil : start.atSigil = true) :
    (readSigil below context start).Deepens source (readSigil deep (context.withLimit limit) start) := by
  unfold readSigil
  split
  · exact .refl _
  · next ch head =>
    by_cases star : ch = '*'
    · simp only [if_pos star]
      exact .refl _
    simp only [if_neg star]
    by_cases brace : ch = '{'
    · simp only [if_pos brace]
      exact readEnclosed_deepens deepens.room
    simp only [if_neg brace]
    by_cases paren : ch = '('
    · simp only [if_pos paren]
      exact readEnclosed_deepens deepens.room
    simp only [if_neg paren]
    by_cases hash : ch = '#'
    · simp only [if_pos hash]
      exact readRawOutput_deepens deepens.room
    simp only [if_neg hash]
    split
    · next letter => exact readNamed_deepens deepens sound size place sigil head letter
    · split
      · exact readSimpleExpression_deepens deepens.room
      · exact .refl _

theorem readItem_deepens {mode : TextMode} {state : RegionState} (deepens : below.Deepens source limit deep)
    (sound : below.Sound source) (size : context.size = byteLength source) (place : Cursor.ofText source ≤ state.place) :
    (readItem below context mode state).Deepens source (readItem deep (context.withLimit limit) mode state) := by
  simp only [readItem]
  split
  · exact .refl _
  · split
    · next opens =>
      exact .bind (readTag_deepens deepens sound size place opens) (readTag_yields sound size place opens)
        fun _ _ => .refl _
    · split
      · next sigil =>
        exact .bind (readSigil_deepens deepens sound size place sigil) (readSigil_yields sound size place sigil)
          fun _ _ => .refl _
      · exact .refl _

theorem readRegion_deepens (deepens : below.Deepens source limit deep) (sound : below.Sound source) :
    RegionsDeepen source limit (readRegion below) (readRegion deep) := by
  intro context kind c size place
  apply Traced.Deepens.iterate (regionStep_advances sound size place)
  · intro state grown
    have here := place.trans grown.1.inOrder.le
    unfold regionStep
    split
    · exact .refl _
    · next ch head =>
      split
      · exact .refl _
      · next goesOn =>
        split
        · exact .refl _
        · exact .bind (readItem_deepens deepens sound size here)
            (readItem_yields sound size place grown ⟨ch, head, goesOn⟩) fun _ _ => .refl _
  · exact ⟨.start, by simp⟩

theorem Below.Deepens.above (deepens : below.Deepens source limit deep) (sound : below.Sound source) :
    (Level.above below).Deepens source limit (.above deep) where
  region := readRegion_deepens deepens sound
  nested := deepens.nested sound
  sigil _ _ size place sigil := readSigil_deepens deepens sound size place sigil
  conditional _ _ _ size place opens := readConditional_deepens deepens sound size place opens

theorem Below.ofRoom_deepens (source : List Char) (limit : Nat) (le : low ≤ high) :
    (Below.ofRoom low).Deepens source limit (.ofRoom high) := by
  induction low generalizing high with
  | zero =>
    refine ⟨Nat.zero_le _, ?_⟩
    rintro level ⟨⟩
  | succ low ih =>
    obtain ⟨high, rfl⟩ := Nat.exists_eq_add_of_le' (Nat.lt_of_lt_of_le (Nat.succ_pos low) le)
    refine ⟨le, ?_⟩
    rintro level ⟨⟩
    refine ⟨_, rfl, ?_⟩
    rw [Level.withRoom_eq, Level.withRoom_eq]
    exact (ih (Nat.le_of_succ_le_succ le)).above (Below.ofRoom_sound source low)

end

end SigilTemplate
