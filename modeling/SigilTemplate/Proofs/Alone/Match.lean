import SigilTemplate.Proofs.Alone.Statement

/-!
Matches of a stretch, read alone, arm by arm. An inline body ends in front of a
comma or a brace that the match takes along, so that it ends inside the stretch.
White space at its end is cut off alone as in the larger text, since a text is
no shorter in the source than what it stands for.
-/

namespace SigilTemplate
open Text

variable {source part : List Char} {s : Surroundings} {context : Context} {below : Below} {level : Level}
  {c d e : Cursor}

/-! ## Inline bodies -/

/-- A text is at least as long in the source as what is cut off at its end. -/
theorem Grown.cut_le {content : String} {span : Span} (grown : Grown part ⟨.text content, span⟩) :
    byteLength content.toList - byteLength (trimEnd content.toList) ≤ span.stop := by
  cases grown with
  | construct _ spells => exact absurd rfl (spells.form_ne_text content)
  | text _ _ reads =>
    obtain ⟨blanks, split, written, _, cut⟩ := exists_escape_trimEnd_append content.toList
    have stop := reads.pos_eq
    rw [written, byteLength_append] at stop
    rw [cut]
    simp only [Cursor.spanTo]
    omega

theorem trimTail_map (bytes : Nat) {nodes : List Node} (grown : ∀ node ∈ nodes, Grown part node) :
    trimTail (nodes.map (Node.mapOffsets (bytes + ·))) = (trimTail nodes).map (Node.mapOffsets (bytes + ·)) := by
  rcases List.eq_nil_or_concat' nodes with rfl | ⟨init, last, rfl⟩
  · rfl
  · obtain ⟨form, span⟩ := last
    by_cases text : ∃ content, form = .text content
    · obtain ⟨content, rfl⟩ := text
      have cut := (grown _ (List.mem_append_right init (List.mem_singleton_self _))).cut_le
      have moved : Node.mapOffsets (bytes + ·) ⟨.text content, span⟩ = ⟨.text content, span.mapOffsets (bytes + ·)⟩ :=
        Node.mapOffsets_mk _ _ span
      rw [List.map_append, List.map_singleton, moved, trimTail_append_text, trimTail_append_text]
      split
      · rfl
      · rw [List.map_append, List.map_singleton, Node.mapOffsets_mk]
        have stop : bytes + span.stop - (byteLength content.toList - byteLength (trimEnd content.toList)) =
            bytes + (span.stop - (byteLength content.toList - byteLength (trimEnd content.toList))) :=
          Nat.add_sub_assoc cut bytes
        simp only [Form.map, Form.mapOffsets, Span.mapOffsets, stop]
    · have other : ∀ content, (Node.mk form span).form ≠ .text content := fun content same => text ⟨content, same⟩
      have same : ∀ content, (Node.mapOffsets (bytes + ·) ⟨form, span⟩).form ≠ .text content := by
        intro content same
        rw [Node.mapOffsets_mk] at same
        cases form <;> simp [Node.form, Form.map, Form.mapOffsets] at same other
      rw [List.map_append, List.map_singleton, trimTail_append_other _ same, trimTail_append_other _ other,
        List.map_append, List.map_singleton]

theorem exists_of_readInlineArm_eq_pure {brace after : Cursor} {arrowEnd stop : Nat} {body : ArmBody Node}
    (sound : ReadsRegions source level.nested) (size : context.size = byteLength source) (place : Cursor.ofText source ≤ c)
    (clean : readInlineArm level context brace arrowEnd c = pure (body, stop, after)) :
    ∃ region, level.nested context .arm c = pure region ∧ region.after = after ∧ c ≤ after ∧
      (region.stop = .closeBrace ∨ region.stop = .comma) ∧ body = .inline (trimTail region.nodes) ∧
      stop = ((trimTail region.nodes).getLast?.map (·.span.stop)).getD arrowEnd := by
  obtain ⟨region, reads, rest⟩ := Traced.exists_of_bind_eq_pure clean
  obtain ⟨⟨state, items, ends⟩, _⟩ := (sound context .arm c size place).of_clean reads
  have order := items.inOrder.le
  cases same : region.stop with
  | textEnd =>
    rw [same] at rest
    exact absurd rest Traced.fail_ne_pure
  | unbalanced expected =>
    rw [same] at rest
    exact absurd rest Traced.recover_bind_ne_pure
  | closeTag =>
    rw [same] at ends
    exact absurd ends.isTagBody.1 (by simp [RegionKind.isTagBody])
  | closeBrace | comma =>
    rw [same] at rest
    obtain ⟨rfl, rfl, rfl⟩ := Prod.mk.inj (Traced.pure_inj.mp rest)
    exact ⟨region, reads, rfl, order, by simp [same], rfl, rfl⟩

/-- The body of an arm from its place after the arrow: the offset where it ends moves along with its nodes. -/
theorem readInlineArm_alone {brace : Cursor} {arrowEnd stop : Nat} {body : ArmBody Node} (stands : StandsIn part source s)
    (alone : level.ReadsAlone source part s) (size : context.size = byteLength source) (place : Cursor.ofText part ≤ c)
    (more : e.rest ≠ [])
    (clean : readInlineArm level context brace (s.before + arrowEnd) (c.amid s) = pure (body, stop, e.amid s)) :
    ∃ own ownStop, body = .inline (own.map (Node.mapOffsets (s.before + ·))) ∧ stop = s.before + ownStop ∧
      ∀ other, readInlineArm level (context.sized (byteLength part)) other arrowEnd c = pure (.inline own, ownStop, e) := by
  obtain ⟨region, reads, after, le, ends, rfl, rfl⟩ :=
    exists_of_readInlineArm_eq_pure alone.amid.nested size (stands.place place) clean
  have inside : EndsInside region.stop e := by rcases ends with same | same <;> simpa [same, EndsInside] using more
  obtain ⟨own, nodes, readsAlone⟩ := alone.nested context .arm c region e size place reads after inside
  have grown := ((alone.sound.nested (context.sized (byteLength part)) .arm c rfl place).of_clean readsAlone).2
  refine ⟨trimTail own, ((trimTail own).getLast?.map (·.span.stop)).getD arrowEnd, ?_, ?_, ?_⟩
  · rw [nodes, trimTail_map _ grown]
  · rw [nodes, trimTail_map _ grown, List.getLast?_map]
    cases (trimTail own).getLast? <;> simp [Span.mapOffsets]
  · intro other
    rw [readInlineArm, readsAlone, Traced.pure_bind]
    rcases ends with same | same <;> simp only [same]

/-! ## Arms -/

/-- An arrow in front of a place of the stretch belongs to the stretch, and is the arrow after the pattern alone. -/
theorem ArrowAt.of_amid {arrow : Cursor} (pattern : ArrowAt (c.amid s) arrow) (within : arrow.afterArrow ≤ e.amid s) :
    ∃ own, arrow = own.amid s ∧ ArrowAt c own ∧ arrow.skip 2 = (own.skip 2).amid s ∧
      arrow.afterArrow = own.afterArrow.amid s := by
  have toEnd : arrow.skip 2 ≤ e.amid s := (Cursor.le_skipBlank _).trans within
  obtain ⟨own, rfl, le, _⟩ := Cursor.exists_amid pattern.le (pattern.lt.le.trans toEnd)
  obtain ⟨after, same, _, _⟩ := Cursor.exists_amid pattern.lt.le toEnd
  have mark := pattern.reads
  rw [same] at mark
  have reads := Cursor.reads_amid_iff.mp mark
  have ends : own.skip 2 = after := Cursor.skip_eq_of_reads reads
  have here : Code.atArrow own = true := Cursor.startsWith_iff.mpr ⟨_, reads.rest_eq⟩
  have solid : (c.textTo own).all isBlank = false := by
    rw [← Cursor.textTo_amid (s := s) le]
    exact pattern.2
  refine ⟨own, rfl, ⟨Code.patternEnd_of_amid pattern.1 here, solid⟩, by rw [same, ends], ?_⟩
  rw [Cursor.afterArrow, Cursor.afterArrow, ends, same]
  rw [Cursor.afterArrow, same] at within
  exact Cursor.skipBlank_amid_of_le within

/-- The place after an arm and its comma. -/
def Cursor.afterComma (after : Cursor) : Cursor := (after.skipBlank.eat? ',').getD after

/-- After its arrow an arm has a block, or else an inline body. -/
theorem readArm_eq_pure_iff {brace arrow : Cursor} {arm : Arm Node} :
    readArm level context brace c arrow = pure (arm, d) ↔
      ∃ body stop after, arm = ⟨.trimmed (c.upTo arrow), body, ⟨c.pos, stop⟩⟩ ∧ after.afterComma = d ∧
        ((arrow.afterArrow.peek = some '{' ∧ ∃ nodes, body = .block nodes ∧ stop = after.pos ∧
            readBlock level.nested context .arm arrow.afterArrow = pure (nodes, after)) ∨
          (arrow.afterArrow.peek ≠ some '{' ∧
            readInlineArm level context brace (arrow.skip 2).pos arrow.afterArrow = pure (body, stop, after))) := by
  have same : (arrow.skip 2).skipBlank = arrow.afterArrow := rfl
  simp only [readArm, same]
  constructor
  · intro clean
    split at clean
    · next opens =>
      obtain ⟨⟨nodes, after⟩, reads, rest⟩ := Traced.exists_of_bind_eq_pure clean
      obtain ⟨rfl, rfl⟩ := Prod.mk.inj (Traced.pure_inj.mp rest)
      exact ⟨_, _, after, rfl, rfl, .inl ⟨opens, nodes, rfl, rfl, reads⟩⟩
    · next inline =>
      obtain ⟨⟨body, stop, after⟩, reads, rest⟩ := Traced.exists_of_bind_eq_pure clean
      obtain ⟨rfl, rfl⟩ := Prod.mk.inj (Traced.pure_inj.mp rest)
      exact ⟨_, _, after, rfl, rfl, .inr ⟨inline, reads⟩⟩
  · rintro ⟨body, stop, after, rfl, rfl, ⟨opens, nodes, rfl, rfl, reads⟩ | ⟨inline, reads⟩⟩
    · rw [if_pos opens, reads, Traced.pure_bind, Traced.pure_bind]
      rfl
    · rw [if_neg inline, reads, Traced.pure_bind]
      rfl

theorem readArm_alone {brace arrow : Cursor} {arm : Arm Node} (stands : StandsIn part source s)
    (alone : level.ReadsAlone source part s) (size : context.size = byteLength source) (place : Cursor.ofText part ≤ c)
    (more : e.rest ≠ []) (pattern : ArrowAt (c.amid s) arrow)
    (clean : readArm level context (brace.amid s) (c.amid s) arrow = pure (arm, e.amid s)) :
    ∃ own ownArrow, arm = own.mapAllOffsets (s.before + ·) ∧ ArrowAt c ownArrow ∧
      readArm level (context.sized (byteLength part)) brace c ownArrow = pure (own, e) := by
  obtain ⟨body, stop, after, rfl, ends, reads⟩ := readArm_eq_pure_iff.mp clean
  have start := (stands.place place).trans pattern.lt_afterArrow.le
  have last : after ≤ e.amid s := ends ▸ Cursor.le_getD_skipBlank_eat? ',' after
  have le : arrow.afterArrow ≤ after := by
    rcases reads with ⟨opens, nodes, _, _, reads⟩ | ⟨_, reads⟩
    · exact ((readBlock_yields alone.amid.nested size start opens).of_clean reads).1.inOrder.1.le
    · obtain ⟨_, _, _, le, _⟩ := exists_of_readInlineArm_eq_pure alone.amid.nested size start reads
      exact le
  obtain ⟨arrow, rfl, ownPattern, arrowEnd, sameStart⟩ := pattern.of_amid (le.trans last)
  rw [sameStart] at reads le
  obtain ⟨after, rfl, later, before⟩ := Cursor.exists_amid le last
  have comma : after.afterComma = e := Cursor.getD_skipWhile_eat?_of_amid ends
  have onward : Cursor.ofText part ≤ arrow.afterArrow := place.trans ownPattern.lt_afterArrow.le
  have further : after.rest ≠ [] := Cursor.ne_nil_of_le before more
  have kept : (arrow.afterArrow.amid s).peek = arrow.afterArrow.peek :=
    Cursor.peek_amid (Cursor.ne_nil_of_le later further)
  rw [kept] at reads
  rcases reads with ⟨opens, nodes, rfl, rfl, reads⟩ | ⟨inline, reads⟩
  · obtain ⟨own, rfl, readsAlone⟩ :=
      readBlock_alone stands alone.amid.nested alone.nested size onward (kept.trans opens) _ _ reads
    refine ⟨⟨.trimmed (c.upTo arrow), .block own, ⟨c.pos, after.pos⟩⟩, arrow, ?_, ownPattern, ?_⟩
    · rw [Cursor.upTo_amid ownPattern.le, Fragment.trimmed_moved]
      rfl
    · exact readArm_eq_pure_iff.mpr ⟨_, _, after, rfl, comma, .inl ⟨opens, own, rfl, rfl, readsAlone⟩⟩
  · rw [arrowEnd] at reads
    obtain ⟨own, ownStop, rfl, rfl, readsAlone⟩ := readInlineArm_alone stands alone size onward further reads
    refine ⟨⟨.trimmed (c.upTo arrow), .inline own, ⟨c.pos, ownStop⟩⟩, arrow, ?_, ownPattern, ?_⟩
    · rw [Cursor.upTo_amid ownPattern.le, Fragment.trimmed_moved]
      rfl
    · exact readArm_eq_pure_iff.mpr ⟨_, _, after, rfl, comma, .inr ⟨inline, readsAlone brace⟩⟩

/-- A round over the arms reads one where a pattern has its arrow. -/
theorem armsStep_eq_next_iff {brace : Cursor} {state next : ArmsState} :
    armsStep level context brace state = pure (.inl next) ↔
      ∃ arrow arm after, (∃ ch, state.place.skipBlank.peek = some ch ∧ ch ≠ '}') ∧
        ArrowAt state.place.skipBlank arrow ∧
        readArm level context brace state.place.skipBlank arrow = pure (arm, after) ∧ next = ⟨arm :: state.arms, after⟩ := by
  unfold armsStep
  simp only
  constructor
  · intro goesOn
    split at goesOn
    · exact absurd goesOn Traced.fail_ne_pure
    · next ch head =>
      split at goesOn
      · exact absurd (Traced.pure_inj.mp goesOn) (by simp)
      · next more =>
        split at goesOn
        · next arrow found =>
          obtain ⟨⟨arm, after⟩, reads, rest⟩ := Traced.exists_of_bind_eq_pure goesOn
          obtain rfl := Sum.inl.inj (Traced.pure_inj.mp rest)
          exact ⟨arrow, arm, after, ⟨ch, head, more⟩, arrowAt_of_armsStep found, reads, rfl⟩
        · split at goesOn
          · exact absurd (Traced.pure_inj.mp goesOn) (by simp)
          · exact absurd goesOn Traced.fail_ne_pure
  · rintro ⟨arrow, arm, after, ⟨ch, head, more⟩, ⟨ends, solid⟩, reads, rfl⟩
    simp only [head, if_neg more, ends, solid, Bool.false_eq_true, if_false]
    rw [reads, Traced.pure_bind]

/-- A round over the arms ends them at a brace. -/
theorem armsStep_eq_closed_iff {brace after : Cursor} {state : ArmsState} {arms : List (Arm Node)} :
    armsStep level context brace state = pure (.inr (.closed arms after)) ↔
      state.place.skipBlank.peek = some '}' ∧ arms = state.arms.reverse ∧ after = state.place.skipBlank.next := by
  unfold armsStep
  simp only
  constructor
  · intro ends
    split at ends
    · exact absurd ends Traced.fail_ne_pure
    · next ch head =>
      split at ends
      · next closes =>
        subst closes
        obtain ⟨rfl, rfl⟩ := ArmsEnd.closed.inj (Sum.inr.inj (Traced.pure_inj.mp ends))
        exact ⟨head, rfl, rfl⟩
      · split at ends
        · obtain ⟨_, _, rest⟩ := Traced.exists_of_bind_eq_pure ends
          exact absurd (Traced.pure_inj.mp rest) (by simp)
        · split at ends
          · exact absurd (Traced.pure_inj.mp ends) (by simp)
          · exact absurd ends Traced.fail_ne_pure
  · rintro ⟨head, rfl, rfl⟩
    simp only [head, if_true]

theorem lt_of_readArm {brace arrow after : Cursor} {arm : Arm Node} (sound : level.Sound source)
    (size : context.size = byteLength source) (opener : Cursor.ofText source ≤ brace) (opens : brace.peek = some '{')
    (place : Cursor.ofText source ≤ c) (pattern : ArrowAt c arrow)
    (clean : readArm level context brace c arrow = pure (arm, after)) : c < after := by
  obtain ⟨last, read, rfl, _⟩ := (readArm_yields sound size opener opens place pattern).of_clean clean
  exact read.inOrder.1.trans_le (Cursor.le_getD_skipBlank_eat? ',' last)

theorem lt_of_armsStep {brace : Cursor} {state next : ArmsState} (sound : level.Sound source)
    (size : context.size = byteLength source) (opener : Cursor.ofText source ≤ brace) (opens : brace.peek = some '{')
    (place : Cursor.ofText source ≤ state.place) (goesOn : armsStep level context brace state = pure (.inl next)) :
    state.place < next.place := by
  obtain ⟨arrow, arm, stop, _, pattern, reads, rfl⟩ := armsStep_eq_next_iff.mp goesOn
  have here := place.trans (Cursor.le_skipBlank state.place)
  exact (Cursor.le_skipBlank _).trans_lt (lt_of_readArm sound size opener opens here pattern reads)

/-- All rounds over the arms end behind the place where they start. -/
theorem lt_of_armsAnswers {brace after : Cursor} {state : ArmsState} {arms : List (Arm Node)} (sound : level.Sound source)
    (size : context.size = byteLength source) (opener : Cursor.ofText source ≤ brace) (opens : brace.peek = some '{')
    (answers : Traced.Answers (armsStep level context brace) (.closed arms after) state)
    (place : Cursor.ofText source ≤ state.place) : state.place < after := by
  induction answers with
  | last ends =>
    obtain ⟨closes, _, rfl⟩ := armsStep_eq_closed_iff.mp ends
    exact (Cursor.le_skipBlank _).trans_lt (Cursor.lt_next closes)
  | next goesOn _ ih =>
    have onward := lt_of_armsStep sound size opener opens place goesOn
    exact onward.trans (ih (place.trans onward.le))

theorem readArms_eq_pure_iff {brace : Cursor} {ends : ArmsEnd} (sound : level.Sound source)
    (size : context.size = byteLength source) (opener : Cursor.ofText source ≤ brace) (opens : brace.peek = some '{') :
    readArms level context brace = pure ends ↔
      Traced.Answers (armsStep level context.insideBraces brace) ends ⟨[], brace.next⟩ :=
  have inside : context.insideBraces.size = byteLength source := size
  (armsStep_movesOn sound inside opener opens).iterate_eq_pure_iff _

/-- The arms of a match have been read so far as the stretch alone would have been, with other offsets. -/
structure ArmsState.AsAlone (part : List Char) (s : Surroundings) (state own : ArmsState) : Prop where
  arms : state.arms = own.arms.map (Arm.mapAllOffsets (s.before + ·))
  place : state.place = own.place.amid s
  inside : Cursor.ofText part ≤ own.place

/-- A round in front of a place of the stretch is a round over the stretch alone. -/
theorem armsStep_next_alone {brace : Cursor} {state next own : ArmsState} (stands : StandsIn part source s)
    (alone : level.ReadsAlone source part s) (size : context.size = byteLength source)
    (opener : Cursor.ofText part ≤ brace) (opens : (brace.amid s).peek = some '{') (alike : state.AsAlone part s own)
    (goesOn : armsStep level context (brace.amid s) state = pure (.inl next)) (within : next.place < e.amid s) :
    ∃ ownNext, armsStep level (context.sized (byteLength part)) brace own = pure (.inl ownNext) ∧
      next.AsAlone part s ownNext := by
  obtain ⟨_, _⟩ := state
  obtain ⟨ownArms, own⟩ := own
  obtain ⟨rfl, rfl, inside⟩ := alike
  obtain ⟨arrow, arm, after, ⟨ch, head, notBrace⟩, pattern, reads, rfl⟩ := armsStep_eq_next_iff.mp goesOn
  have here := (stands.place inside).trans (Cursor.le_skipBlank (own.amid s))
  have further := lt_of_readArm alone.amid size (stands.place opener) opens here pattern reads
  have blank := Cursor.skipBlank_amid_of_le (further.trans within).le
  simp only [blank] at head pattern reads further
  obtain ⟨after, rfl, _, _⟩ := Cursor.exists_amid further.le within.le
  obtain ⟨ownArm, ownArrow, rfl, ownPattern, readsAlone⟩ :=
    readArm_alone stands alone size (inside.trans (Cursor.le_skipBlank own))
      (Cursor.ne_nil_of_lt (Cursor.amid_lt_amid.mp within)) pattern reads
  have ownHead := Cursor.peek_of_amid (Cursor.amid_lt_amid.mp further) head
  refine ⟨⟨ownArm :: ownArms, after⟩, ?_, rfl, rfl, ?_⟩
  · exact armsStep_eq_next_iff.mpr ⟨ownArrow, ownArm, after, ⟨ch, ownHead, notBrace⟩, ownPattern, readsAlone, rfl⟩
  · exact inside.trans ((Cursor.le_skipBlank own).trans (Cursor.amid_lt_amid.mp further).le)

/-- The brace that ends the arms in the stretch ends those of the stretch alone. -/
theorem armsStep_closed_alone {brace : Cursor} {state own : ArmsState} {arms : List (Arm Node)}
    (alike : state.AsAlone part s own)
    (ends : armsStep level context (brace.amid s) state = pure (.inr (.closed arms (e.amid s)))) :
    ∃ ownArms, arms = ownArms.map (Arm.mapAllOffsets (s.before + ·)) ∧
      armsStep level (context.sized (byteLength part)) brace own = pure (.inr (.closed ownArms e)) := by
  obtain ⟨_, _⟩ := state
  obtain ⟨ownArms, own⟩ := own
  obtain ⟨rfl, rfl, _⟩ := alike
  obtain ⟨closes, same, after⟩ := armsStep_eq_closed_iff.mp ends
  have before := after ▸ Cursor.lt_next closes
  have blank := Cursor.skipBlank_amid_of_le before.le
  simp only [blank] at closes after before
  have ownBefore := Cursor.amid_lt_amid.mp before
  rw [Cursor.next_amid (Cursor.ne_nil_of_lt ownBefore), Cursor.amid_inj] at after
  refine ⟨ownArms.reverse, by rw [same, List.map_reverse], ?_⟩
  exact armsStep_eq_closed_iff.mpr ⟨Cursor.peek_of_amid ownBefore closes, rfl, after⟩

theorem readArms_alone {brace : Cursor} {arms : List (Arm Node)} (stands : StandsIn part source s)
    (alone : level.ReadsAlone source part s) (size : context.size = byteLength source) (place : Cursor.ofText part ≤ brace)
    (opens : (brace.amid s).peek = some '{')
    (clean : readArms level context (brace.amid s) = pure (.closed arms (e.amid s))) :
    ∃ own, arms = own.map (Arm.mapAllOffsets (s.before + ·)) ∧
      readArms level (context.sized (byteLength part)) brace = pure (.closed own e) := by
  have opener := stands.place place
  have inside : context.insideBraces.size = byteLength source := size
  have answers := (readArms_eq_pure_iff alone.amid size opener opens).mp clean
  have first := opener.trans (Cursor.le_next (brace.amid s))
  have lt := (Cursor.lt_next opens).trans (lt_of_armsAnswers alone.amid inside opener opens answers first)
  have ownLt := Cursor.amid_lt_amid.mp lt
  have start : ArmsState.AsAlone part s ⟨[], (brace.amid s).next⟩ ⟨[], brace.next⟩ :=
    ⟨rfl, Cursor.next_amid (Cursor.ne_nil_of_lt ownLt), place.trans (Cursor.le_next brace)⟩
  obtain ⟨_, ownAnswers, own, same, rfl⟩ :
      ∃ answer, Traced.Answers (armsStep level (context.sized (byteLength part)).insideBraces brace) answer
          ⟨[], brace.next⟩ ∧
        ∃ own, arms = own.map (Arm.mapAllOffsets (s.before + ·)) ∧ answer = .closed own e := by
    refine answers.transfer start ?_ ?_
    · intro state next own alike goesOn onward
      have here : Cursor.ofText source ≤ state.place := alike.place ▸ stands.place alike.inside
      have further := here.trans (lt_of_armsStep alone.amid inside opener opens here goesOn).le
      exact armsStep_next_alone stands alone inside place opens alike goesOn
        (lt_of_armsAnswers alone.amid inside opener opens onward further)
    · intro state own alike ends
      obtain ⟨ownArms, same, ownEnds⟩ := armsStep_closed_alone alike ends
      exact ⟨.closed ownArms e, ownEnds, ownArms, same, rfl⟩
  have ownOpens := Cursor.peek_of_amid ownLt opens
  exact ⟨own, same, (readArms_eq_pure_iff alone.sound rfl place ownOpens).mpr ownAnswers⟩

/-! ## Matches -/

theorem readMatch_alone {start : Cursor} (stands : StandsIn part source s) (alone : below.ReadsAlone source part s)
    (size : context.size = byteLength source) (place : Cursor.ofText part ≤ c) :
    Traced.ReadsAlone s (Node.mapOffsets (s.before + ·)) (readMatch below context (start.amid s) (c.amid s))
      (readMatch below (context.sized (byteLength part)) start c) := by
  intro node e clean
  obtain ⟨level, enters, clean⟩ := Traced.exists_of_bind_eq_pure clean
  obtain ⟨holds, entersAlone⟩ := alone.enter (d := c) enters (context.sized (byteLength part))
  split at clean
  · exact absurd clean missingBlock_ne_pure
  · next subject brace head =>
    obtain ⟨ends, reads, clean⟩ := Traced.exists_of_bind_eq_pure clean
    obtain ⟨before, opens, _⟩ := statementHead_ready head
    have here := (stands.place place).trans before
    cases ends with
    | malformed => exact absurd clean Traced.recover_bind_ne_pure
    | closed arms after =>
      obtain ⟨solid, read⟩ := settleStatement_eq_pure clean
      obtain ⟨rfl, rfl⟩ := Prod.mk.inj read
      obtain ⟨last, between, closes, after, _⟩ := (readArms_yields holds.amid size here opens).of_clean reads
      have lt : brace < e.amid s :=
        after ▸ (between.inOrder.le.trans (Cursor.le_skipBlank last)).trans_lt (Cursor.lt_next closes)
      obtain ⟨brace, rfl, le, _⟩ := Cursor.exists_amid before lt.le
      obtain ⟨own, rfl, headAlone⟩ := statementHead_of_amid (Cursor.ne_nil_of_lt (Cursor.amid_lt_amid.mp lt)) head
      obtain ⟨ownArms, rfl, readsAlone⟩ := readArms_alone stands holds size (place.trans le) opens reads
      refine ⟨⟨.statement (.matchOn own ownArms), start.spanTo e⟩, ?_, ?_⟩
      · rw [Node.mapOffsets_statement, Statement.mapAllOffsets]
        simp [Statement.map, Statement.mapOffsets, Arm.mapAllOffsets]
        rfl
      · simp only [readMatch, entersAlone, Traced.pure_bind, headAlone, readsAlone]
        exact settleStatement_alone solid

end SigilTemplate
