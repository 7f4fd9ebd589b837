import SigilTemplate.Proofs.Reading.Construct
import SigilTemplate.Proofs.Reading.Loop

/-!
Blocks and statements are read by the rules if the levels below read by them:
conditions, loops, and matches with their arms. What a level has to read by the
rules is `Level.Sound`.
-/

namespace SigilTemplate
open Text

/-- Where a region ends and why, given what its text has opened. -/
inductive EndsAt (kind : RegionKind) (state : TextState) (c : Cursor) : RegionEnd → Prop
  | textEnd (empty : c.rest = []) : EndsAt kind state c .textEnd
  | marked {ch : Char} {stop : RegionEnd} (head : c.peek = some ch) (ends : endAt? kind.mode state ch = some stop) :
    EndsAt kind state c stop
  | closeTag (closes : c.atTagClose = true) (tag : kind.isTagBody = true) : EndsAt kind state c .closeTag

/-- A region that has been read from `c` by the rules. -/
structure Region.GrownFrom (source : List Char) (kind : RegionKind) (c : Cursor) (region : Region) : Prop where
  items : ∃ state, Items kind.mode c region.nodes state region.after ∧ EndsAt kind state region.after region.stop
  grown : ∀ node ∈ region.nodes, Grown source node

/-- Whatever region is read of the source is read by the rules. -/
def ReadsRegions (source : List Char) (read : Context → RegionKind → Cursor → Traced Region) : Prop :=
  ∀ context kind c, context.size = byteLength source → Cursor.ofText source ≤ c →
    (read context kind c).Yields source (Region.GrownFrom source kind c)

/-- What a level reads of the source is written by the rules. -/
structure Level.Sound (source : List Char) (level : Level) : Prop where
  region : ReadsRegions source level.region
  nested : ReadsRegions source level.nested
  sigil : ∀ context c, context.size = byteLength source → Cursor.ofText source ≤ c → c.atSigil = true →
    (level.sigil context c).Yields source (SigilTemplate.GrownFrom source c)
  conditional : ∀ context start c, context.size = byteLength source → Cursor.ofText source ≤ start →
    Opens .ifBlock start c → (level.conditional context start c).Yields source (SigilTemplate.GrownFrom source start)

def Below.Sound (source : List Char) (below : Below) : Prop := ∀ level ∈ below.next, (level ()).Sound source

section

variable {source : List Char} {context : Context} {below : Below}

theorem Below.Sound.enter {c : Cursor} (sound : below.Sound source) (place : Cursor.ofText source ≤ c) :
    (below.enter context c).Yields source (Level.Sound source) := by
  unfold Below.enter
  split
  · next level here => exact .pure (sound level here)
  · exact .fail (.depth place)

theorem Below.Sound.nested (sound : below.Sound source) : ReadsRegions source below.nested := by
  intro context kind c size place
  exact .bind (sound.enter place) fun level holds => holds.region context kind c size place

/-! ## Blocks -/

/-- Of all characters, only braces and commas end a region. -/
theorem endAt?_spec {mode : TextMode} {state : TextState} {ch : Char} {stop : RegionEnd}
    (ends : endAt? mode state ch = some stop) :
    (ch = '}' ∧ (stop = .closeBrace ∨ ∃ expected, stop = .unbalanced expected)) ∨ (ch = ',' ∧ stop = .comma) := by
  unfold endAt? at ends
  split at ends
  · simp at ends
  · split at ends
    · next brace =>
      refine .inl ⟨brace, ?_⟩
      split at ends
      · exact .inl (Option.some.inj ends).symm
      · next expected _ _ =>
        split at ends
        · simp at ends
        · exact .inr ⟨expected, (Option.some.inj ends).symm⟩
    · split at ends
      · next comma => exact .inr ⟨comma.1, (Option.some.inj ends).symm⟩
      · simp at ends

/-- What ends a region without ending the text and without a tag is the next character. -/
theorem EndsAt.exists_char {kind : RegionKind} {state : TextState} {c : Cursor} {stop : RegionEnd}
    (ends : EndsAt kind state c stop) (notEnd : stop ≠ .textEnd) (notTag : stop ≠ .closeTag) :
    ∃ ch, c.peek = some ch ∧ endAt? kind.mode state ch = some stop := by
  cases ends with
  | textEnd => exact absurd rfl notEnd
  | closeTag => exact absurd rfl notTag
  | marked head ends => exact ⟨_, head, ends⟩

/-- A region that ends at a brace is followed by that brace. -/
theorem EndsAt.brace {kind : RegionKind} {state : TextState} {c : Cursor} {stop : RegionEnd}
    (ends : EndsAt kind state c stop) (notEnd : stop ≠ .textEnd) (notTag : stop ≠ .closeTag) (notComma : stop ≠ .comma) :
    c.peek = some '}' ∧ endAt? kind.mode state '}' = some stop := by
  obtain ⟨ch, head, marked⟩ := ends.exists_char notEnd notTag
  rcases endAt?_spec marked with ⟨rfl, _⟩ | ⟨_, comma⟩
  · exact ⟨head, marked⟩
  · exact absurd comma notComma

/-- Only the body of a tag ends at a closing tag. -/
theorem EndsAt.isTagBody {kind : RegionKind} {state : TextState} {c : Cursor} (ends : EndsAt kind state c .closeTag) :
    kind.isTagBody = true ∧ c.atTagClose = true := by
  cases ends with
  | closeTag closes tag => exact ⟨tag, closes⟩
  | marked _ ends =>
    rcases endAt?_spec ends with ⟨_, same | ⟨_, same⟩⟩ | ⟨_, same⟩ <;> simp at same

/-- A block that has been read from its `{` by the rules. -/
def GrownBlock (source : List Char) (brace : Cursor) (read : List Node × Cursor) : Prop :=
  Block brace read.1 read.2 ∧ ∀ node ∈ read.1, Grown source node

theorem unterminatedBlock_raised {role : BlockRole} {brace : Cursor} (size : context.size = byteLength source)
    (place : Cursor.ofText source ≤ brace) (opens : brace.peek = some '{') :
    (unterminatedBlock context role brace).Raised source := by
  simp only [unterminatedBlock, spanTo_next opens (by decide), size]
  exact .block place (Cursor.reads_next_of_peek opens)

theorem readBlock_yields {nested : Context → RegionKind → Cursor → Traced Region} {role : BlockRole} {brace : Cursor}
    (sound : ReadsRegions source nested) (size : context.size = byteLength source)
    (place : Cursor.ofText source ≤ brace) (opens : brace.peek = some '{') :
    (readBlock nested context role brace).Yields source (GrownBlock source brace) := by
  unfold readBlock
  apply Traced.Yields.bind (sound context.insideBraces .braced brace.next size (place.trans (Cursor.le_next brace)))
  intro inside read
  obtain ⟨state, items, ends⟩ := read.items
  split
  · next here =>
    rw [here] at ends
    obtain ⟨closes, closer⟩ := ends.brace (by simp) (by simp) (by simp)
    exact .pure ⟨.closed opens items closer closes, read.grown⟩
  · exact .fail (unterminatedBlock_raised size place opens)

/-! ## Statements -/

theorem missingBlock_yields {keyword : Keyword} {start stop : Cursor} (lt : start < stop) :
    (missingBlock keyword start stop).Yields source (GrownFrom source start) :=
  .giveUp lt (.nil lt.le) (by simp)

/-- A statement by its rule, or the error node in its place with the same nodes in it. -/
theorem settleStatement_yields {keyword : Keyword} {head : Fragment} {statement : Statement Node}
    {start c after : Cursor} (opens : Opens keyword start c) (read : StatementFrom keyword c statement after)
    (grown : ∀ child ∈ statement.children, Grown source child) :
    (settleStatement keyword head statement start after).Yields source (GrownFrom source start) := by
  have order := read.inOrder
  unfold settleStatement
  split
  · exact .giveUp (opens.lt.trans_le order.le) (order.widen opens.lt.le (le_refl after)) grown
  · exact .pure ⟨.statement opens read, grown⟩

/-- What follows the body of an `if` has been read by the rules. -/
def GrownOtherwise (source : List Char) (c : Cursor) (read : Option (ElseClause Node) × Cursor) : Prop :=
  Otherwise c read.1 read.2 ∧ ∀ node ∈ (read.1.map ElseClause.nodes).getD [], Grown source node

theorem readElse_yields {level : Level} {c : Cursor} (sound : level.Sound source)
    (size : context.size = byteLength source) (place : Cursor.ofText source ≤ c) :
    (readElse level context c).Yields source (GrownOtherwise source c) := by
  unfold readElse
  split
  · next missing => exact .pure ⟨.none (by simp [missing]), by simp⟩
  · next afterElse word =>
    have start : c ≤ afterElse := (Cursor.le_skipBlank c).trans (Cursor.le_of_reads (Cursor.reads_eatText? word))
    have onward : Cursor.ofText source ≤ afterElse.skipBlank :=
      place.trans (start.trans (Cursor.le_skipBlank afterElse))
    simp only
    split
    · next opens =>
      apply Traced.Yields.bind (readBlock_yields sound.nested size onward opens)
      rintro ⟨body, after⟩ ⟨block, grown⟩
      exact .pure ⟨.block word block, grown⟩
    · next notBlock =>
      split
      · next next_ =>
        apply Traced.Yields.bind (sound.conditional context _ _ size onward (.chained next_.2))
        rintro ⟨node, after⟩ read
        refine .pure ⟨.chained word next_.1 next_.2 read.lt read.1.inOrder.2.1 read.1.form_ne_text, ?_⟩
        simpa [ElseClause.nodes] using read.grown onward
      · next notIf =>
        refine .pure ⟨.none ?_, by simp⟩
        intro other found
        rw [word] at found
        obtain rfl := Option.some.inj found
        exact ⟨notBlock, notIf⟩

theorem readConditional_yields {start c : Cursor} (sound : below.Sound source)
    (size : context.size = byteLength source) (place : Cursor.ofText source ≤ start) (opens : Opens .ifBlock start c) :
    (readConditional below context start c).Yields source (GrownFrom source start) := by
  have head : Cursor.ofText source ≤ c := place.trans opens.lt.le
  apply Traced.Yields.bind (sound.enter head)
  intro level holds
  split
  · next stop missing => exact missingBlock_yields (opens.lt.trans_le (statementHead_missing missing))
  · next condition brace ready =>
    obtain ⟨later, brace_, _⟩ := statementHead_ready ready
    apply Traced.Yields.bind (readBlock_yields holds.nested size (head.trans later) brace_)
    rintro ⟨body, middle⟩ ⟨block, inside⟩
    have reached : Cursor.ofText source ≤ middle := (head.trans later).trans block.inOrder.1.le
    apply Traced.Yields.bind (readElse_yields holds size reached)
    rintro ⟨otherwise, after⟩ ⟨tail, further⟩
    apply settleStatement_yields opens (.conditional ready block tail)
    intro child member
    rcases List.mem_append.mp member with among | among
    · exact inside child among
    · exact further child among

theorem readLoop_yields {keyword : Keyword} {start c : Cursor} (sound : below.Sound source)
    (size : context.size = byteLength source) (place : Cursor.ofText source ≤ start) (opens : Opens keyword start c)
    (loop : keyword = .forLoop ∨ keyword = .whileLoop) :
    (readLoop below context keyword start c).Yields source (GrownFrom source start) := by
  have head : Cursor.ofText source ≤ c := place.trans opens.lt.le
  apply Traced.Yields.bind (sound.enter head)
  intro level holds
  split
  · next stop missing => exact missingBlock_yields (opens.lt.trans_le (statementHead_missing missing))
  · next header brace ready =>
    obtain ⟨later, brace_, _⟩ := statementHead_ready ready
    apply Traced.Yields.bind (readBlock_yields holds.nested size (head.trans later) brace_)
    rintro ⟨body, after⟩ ⟨block, inside⟩
    rcases loop with rfl | rfl
    · exact settleStatement_yields opens (.forLoop ready block) inside
    · exact settleStatement_yields opens (.whileLoop ready block) inside

theorem readStrayElse_yields {start c : Cursor} (sound : below.Sound source)
    (size : context.size = byteLength source) (place : Cursor.ofText source ≤ start) (lt : start < c) :
    (readStrayElse below context start c).Yields source (GrownFrom source start) := by
  have onward : Cursor.ofText source ≤ c.skipBlank := place.trans (lt.le.trans (Cursor.le_skipBlank c))
  have reached : start < c.skipBlank := lt.trans_le (Cursor.le_skipBlank c)
  simp only [readStrayElse]
  split
  · next opens =>
    apply Traced.Yields.bind (readBlock_yields sound.nested size onward opens)
    rintro ⟨body, after⟩ ⟨block, grown⟩
    obtain ⟨further, order⟩ := block.inOrder
    exact .giveUp (reached.trans further) (order.widen reached.le (le_refl after)) grown
  · split
    · next word =>
      apply Traced.Yields.bind (readConditional_yields sound size onward (.chained word))
      rintro ⟨node, after⟩ read
      have order := InOrder.single read.lt read.1.inOrder.2.1
      apply Traced.Yields.giveUp (reached.trans read.lt) (order.widen reached.le (le_refl after))
      simpa using read.grown onward
    · exact .giveUp lt (.nil lt.le) (by simp)

/-! ## Arms -/

theorem IsTextFrom.grown {c d : Cursor} {node : Node} (text : IsTextFrom c node d)
    (place : Cursor.ofText source ≤ c) : Grown source node := by
  obtain ⟨x, y, content, before, lt, _, rfl, reads⟩ := text
  exact .text (place.trans before) lt reads

/-- The body of an arm from `c` whose arrow is at `arrow`, the offset where the arm ends and the place after it. -/
def GrownBody (source : List Char) (c arrow : Cursor) (read : ArmBody Node × Nat × Cursor) : Prop :=
  ArmFrom c ⟨.trimmed (c.upTo arrow), read.1, ⟨c.pos, read.2.1⟩⟩ read.2.2 ∧ ∀ node ∈ read.1.nodes, Grown source node

theorem readInlineArm_yields {level : Level} {brace c arrow : Cursor} (sound : level.Sound source)
    (size : context.size = byteLength source) (opener : Cursor.ofText source ≤ brace) (opens : brace.peek = some '{')
    (place : Cursor.ofText source ≤ c) (pattern : ArrowAt c arrow) :
    (readInlineArm level context brace (arrow.skip 2).pos arrow.afterArrow).Yields source
      (GrownBody source c arrow) := by
  have start := place.trans pattern.lt_afterArrow.le
  apply Traced.Yields.bind (sound.nested context .arm arrow.afterArrow size start)
  rintro ⟨nodes, stop, after⟩ ⟨⟨state, items, ends⟩, grown⟩
  have trimmed : ∀ node ∈ trimTail nodes, Grown source node := by
    intro node member
    rcases items.trimTail.2 node member with among | text
    · exact grown node among
    · exact text.grown start
  cases stop with
  | textEnd => exact .fail (unterminatedBlock_raised size opener opens)
  | closeTag => exact absurd ends.isTagBody.1 (by simp [RegionKind.isTagBody])
  | closeBrace =>
    obtain ⟨ch, head, marked⟩ := ends.exists_char (by simp) (by simp)
    exact .pure ⟨.inline pattern items head marked (.inl rfl), trimmed⟩
  | comma =>
    obtain ⟨ch, head, marked⟩ := ends.exists_char (by simp) (by simp)
    exact .pure ⟨.inline pattern items head marked (.inr rfl), trimmed⟩
  | unbalanced expected =>
    obtain ⟨head, marked⟩ := ends.brace (by simp) (by simp) (by simp)
    have lt := items.lt_of_unbalanced marked
    have node : GrownFrom source arrow.afterArrow
        (⟨.error (.unbalanced expected '}') nodes, arrow.afterArrow.spanTo after⟩, after) :=
      ⟨.error lt items.inOrder, grown⟩
    refine .recover (.pure ⟨.unbalanced pattern items head marked, ?_⟩)
    simpa [ArmBody.nodes] using node.grown start

/-- An arm that has been read from `c`, and the place after it and its comma. -/
def GrownArm (source : List Char) (c : Cursor) (read : Arm Node × Cursor) : Prop :=
  ∃ after, ArmFrom c read.1 after ∧ read.2 = (after.skipBlank.eat? ',').getD after ∧
    ∀ node ∈ read.1.body.nodes, Grown source node

theorem readArm_yields {level : Level} {brace c arrow : Cursor} (sound : level.Sound source)
    (size : context.size = byteLength source) (opener : Cursor.ofText source ≤ brace) (opens : brace.peek = some '{')
    (place : Cursor.ofText source ≤ c) (pattern : ArrowAt c arrow) :
    (readArm level context brace c arrow).Yields source (GrownArm source c) := by
  have start := place.trans pattern.lt_afterArrow.le
  unfold readArm
  simp only
  split
  · next block =>
    apply Traced.Yields.bind (readBlock_yields sound.nested size start block)
    rintro ⟨nodes, after⟩ ⟨block, grown⟩
    exact .pure ⟨after, .block pattern block, rfl, grown⟩
  · apply Traced.Yields.bind (readInlineArm_yields sound size opener opens place pattern)
    rintro ⟨body, stop, after⟩ ⟨read, grown⟩
    exact .pure ⟨after, read, rfl, grown⟩

/-- What the reading of the arms between braces gives. -/
def GrownArms (source : List Char) (brace : Cursor) : ArmsEnd → Prop
  | .closed arms after => ∃ place, Arms brace arms place ∧ place.skipBlank.peek = some '}' ∧
      after = place.skipBlank.next ∧ ∀ node ∈ armNodes arms, Grown source node
  | .malformed nodes after => brace < after ∧ InOrder brace nodes after ∧ ∀ node ∈ nodes, Grown source node

/-- The arms before a place have been read by the rules. -/
def ArmsState.Grown (source : List Char) (brace : Cursor) (state : ArmsState) : Prop :=
  Arms brace state.arms.reverse state.place ∧ ∀ node ∈ armNodes state.arms.reverse, SigilTemplate.Grown source node

/-- Where an arm is read, its arrow has been found. -/
theorem arrowAt_of_armsStep {c arrow : Cursor}
    (found : (match Code.patternEnd c with
      | .arrow arrow => if (c.textTo arrow).all isBlank then none else some arrow
      | .stopped _ => none) = some arrow) : ArrowAt c arrow := by
  split at found
  · next ends =>
    split at found
    · simp at found
    · next solid =>
      obtain rfl := Option.some.inj found
      exact ⟨ends, by simpa using solid⟩
  · simp at found

theorem armsStep_advances {level : Level} {brace : Cursor} (sound : level.Sound source)
    (size : context.size = byteLength source) (opener : Cursor.ofText source ≤ brace) (opens : brace.peek = some '{') :
    Traced.Advances source context.size (·.place.pos) (ArmsState.Grown source brace) (GrownArms source brace)
      (armsStep level context brace) := by
  rintro ⟨arms, place⟩ ⟨between, grown⟩
  have order := between.inOrder
  have reached := order.le.trans (Cursor.le_skipBlank place)
  have here := opener.trans reached
  unfold armsStep
  simp only
  split
  · exact .fail (unterminatedBlock_raised size opener opens)
  · next ch head =>
    split
    · next closes =>
      subst closes
      exact .pure ⟨place, between, head, rfl, grown⟩
    · split
      · next arrow found =>
        have pattern := arrowAt_of_armsStep found
        apply Traced.Yields.bind (readArm_yields sound size opener opens here pattern)
        rintro ⟨arm, next⟩ ⟨after, read, rfl, inside⟩
        have arms_ : Arms brace (arms.reverse ++ [arm]) ((after.skipBlank.eat? ',').getD after) :=
          .more between read
        have onward : place < (after.skipBlank.eat? ',').getD after :=
          ((Cursor.le_skipBlank place).trans_lt read.inOrder.1).trans_le (Cursor.le_getD_skipBlank_eat? ',' after)
        have within := Cursor.pos_le_size (opener.trans arms_.inOrder.le)
        refine .pure ⟨⟨by simpa using arms_, ?_⟩, Cursor.pos_lt onward, size ▸ within⟩
        · intro node member
          simp only [List.reverse_cons, armNodes_append, List.mem_append] at member
          rcases member with among | among
          · exact grown node among
          · exact inside node (by simpa [armNodes] using among)
      · split
        · next close found =>
          obtain ⟨later, closes⟩ := Code.unmatchedBrace?_spec found
          have onward := Cursor.lt_next closes
          refine .pure ⟨reached.trans_lt (later.trans_lt onward), ?_, grown⟩
          exact order.widen (le_refl brace) ((Cursor.le_skipBlank place).trans (later.trans onward.le))
        · exact .fail (unterminatedBlock_raised size opener opens)

theorem readArms_yields {level : Level} {brace : Cursor} (sound : level.Sound source)
    (size : context.size = byteLength source) (opener : Cursor.ofText source ≤ brace) (opens : brace.peek = some '{') :
    (readArms level context brace).Yields source (GrownArms source brace) :=
  .iterate (armsStep_advances sound size opener opens) ⟨.start, by simp [armNodes]⟩

theorem armsStep_movesOn {level : Level} {brace : Cursor} (sound : level.Sound source)
    (size : context.size = byteLength source) (opener : Cursor.ofText source ≤ brace) (opens : brace.peek = some '{') :
    Traced.MovesOn context.size (·.place.pos) (armsStep level context brace) ⟨[], brace.next⟩ :=
  (armsStep_advances sound size opener opens).movesOn ⟨.start, by simp [armNodes]⟩

theorem readMatch_yields {start c : Cursor} (sound : below.Sound source) (size : context.size = byteLength source)
    (place : Cursor.ofText source ≤ start) (opens : Opens .matchOn start c) :
    (readMatch below context start c).Yields source (GrownFrom source start) := by
  have head : Cursor.ofText source ≤ c := place.trans opens.lt.le
  apply Traced.Yields.bind (sound.enter head)
  intro level holds
  split
  · next stop missing => exact missingBlock_yields (opens.lt.trans_le (statementHead_missing missing))
  · next subject brace ready =>
    obtain ⟨later, brace_, _⟩ := statementHead_ready ready
    apply Traced.Yields.bind (readArms_yields holds size (head.trans later) brace_)
    intro ends read
    cases ends with
    | closed arms after =>
      obtain ⟨last, between, closes, rfl, grown⟩ := read
      exact settleStatement_yields opens (.matchOn ready between closes) grown
    | malformed nodes after =>
      obtain ⟨lt, order, grown⟩ := read
      have before : start ≤ brace := opens.lt.le.trans later
      exact .giveUp (before.trans_lt lt) (order.widen before (le_refl after)) grown

end

end SigilTemplate
