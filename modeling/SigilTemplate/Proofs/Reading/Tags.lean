import SigilTemplate.Proofs.Reading.Statements

/-!
Component tags are read by the rules: their attributes one by one, their bodies
as regions, and whatever goes wrong in them as an error node that keeps what was
read before.
-/

namespace SigilTemplate
open Text

section

variable {source : List Char} {context : Context} {below : Below} {level : Level}

/-- An attempt at a value or an attribute: what it gives is by the rules, and it moves on where it stops. -/
def GrownAttempt {α : Type} (source : List Char) (c : Cursor) (rule : α → Cursor → Prop) (nodes : α → List Node)
    (read : Except Cursor (α × Cursor)) : Prop :=
  match read with
  | .ok (answer, after) => rule answer after ∧ ∀ node ∈ nodes answer, Grown source node
  | .error stop => c ≤ stop

theorem readAttributeValue_yields {c : Cursor} (sound : level.Sound source) (size : context.size = byteLength source)
    (place : Cursor.ofText source ≤ c) :
    (readAttributeValue level context c).Yields source (GrownAttempt source c (ValueFrom c) (·.nodes)) := by
  unfold readAttributeValue
  split
  · exact .pure (le_refl c)
  · next ch head =>
    split
    · have onward := onward_stringLiteral c
      cases read : stringLiteral c with
      | error stop =>
        rw [read] at onward
        exact .pure onward
      | ok found =>
        obtain ⟨text, after⟩ := found
        exact .pure ⟨.string read, by simp [ArgumentValue.nodes]⟩
    · split
      · next brace =>
        subst brace
        apply Traced.Yields.bind (readBlock_yields sound.nested size place head)
        rintro ⟨body, after⟩ ⟨block, grown⟩
        exact .pure ⟨.block block, grown⟩
      · split
        · next sigil =>
          apply Traced.Yields.bind (sound.sigil context c size place sigil)
          rintro ⟨node, after⟩ read
          refine .pure ⟨.expression sigil read.lt read.1.inOrder.2.1, ?_⟩
          simpa [ArgumentValue.nodes] using read.grown place
        · simp only
          split
          · next value word => exact .pure ⟨.constant word, by simp [constantValue?_nodes word]⟩
          · exact .pure (Cursor.le_skipWhile _ c)

theorem readAttribute_yields {c : Cursor} (sound : level.Sound source) (size : context.size = byteLength source)
    (place : Cursor.ofText source ≤ c) :
    (readAttribute level context c).Yields source (GrownAttempt source c (AttributeFrom c) (·.value.nodes)) := by
  simp only [readAttribute]
  split
  · exact .pure ⟨.flag, by simp [ArgumentValue.nodes]⟩
  · next equals sign =>
    have start : c ≤ equals.skipBlank := (Cursor.le_skipWhile isAttributePart c).trans
      ((Cursor.le_skipBlank _).trans ((Cursor.lt_of_eat? sign).le.trans (Cursor.le_skipBlank equals)))
    apply Traced.Yields.bind (readAttributeValue_yields sound size (place.trans start))
    rintro (stop | ⟨value, after⟩) read
    · exact .pure (start.trans read)
    · exact .pure ⟨.valued sign read.1, read.2⟩

/-- What the reading of an opening tag gives, from the end of its name. -/
def GrownHead (source : List Char) (c : Cursor) : TagHead → Prop
  | .closed arguments selfClosing after => ∃ place, Attributes c arguments place ∧
      (if selfClosing then place.skipBlank.eatText? ['/', '>'] = some after
        else place.skipBlank.eat? '>' = some after) ∧ ∀ node ∈ argumentNodes arguments, Grown source node
  | .malformed nodes stop => InOrder c nodes stop ∧ ∀ node ∈ nodes, Grown source node

/-- The attributes before a place have been read by the rules. -/
def TagHeadState.Grown (source : List Char) (c : Cursor) (state : TagHeadState) : Prop :=
  Attributes c state.arguments.reverse state.place ∧
    ∀ node ∈ argumentNodes state.arguments.reverse, SigilTemplate.Grown source node

theorem AttributeFrom.lt {c after : Cursor} {argument : Argument Node} (read : AttributeFrom c argument after)
    (head : c.peek.any isIdentStart = true) : c < after := by
  obtain ⟨ch, here, letter⟩ := (Option.any_eq_true _ _).mp head
  have part : isAttributePart ch = true := by
    simp only [isIdentStart, Bool.or_eq_true, beq_iff_eq] at letter
    rcases letter with letter | letter <;> simp [isAttributePart, Char.isAlphanum, letter]
  have name := Cursor.lt_skipWhile here part
  cases read with
  | flag => exact name
  | valued sign reads =>
    have onward := (Cursor.le_skipBlank _).trans ((Cursor.lt_of_eat? sign).le.trans (Cursor.le_skipBlank _))
    exact name.trans_le (onward.trans reads.inOrder.le)

theorem tagHeadStep_advances {c : Cursor} (sound : level.Sound source) (size : context.size = byteLength source)
    (place : Cursor.ofText source ≤ c) :
    Traced.Advances source context.size (·.place.pos) (TagHeadState.Grown source c) (GrownHead source c)
      (tagHeadStep level context) := by
  rintro ⟨arguments, here⟩ ⟨attributes, grown⟩
  have order := attributes.inOrder
  have blank := Cursor.le_skipBlank here
  simp only [tagHeadStep]
  split
  · next after ends => exact .pure ⟨here, attributes, ends, grown⟩
  · split
    · next after ends => exact .pure ⟨here, attributes, ends, grown⟩
    · split
      · next gap =>
        have start : Cursor.ofText source ≤ here.skipBlank := place.trans (order.le.trans blank)
        apply Traced.Yields.bind (readAttribute_yields sound size start)
        rintro (stop | ⟨argument, after⟩) read
        · exact .pure ⟨order.widen (le_refl c) (blank.trans read), grown⟩
        · have more : Attributes c (arguments.reverse ++ [argument]) after := .more attributes gap.1 gap.2 read.1
          have within := Cursor.pos_le_size (place.trans more.inOrder.le)
          have onward := blank.trans_lt (read.1.lt gap.2)
          refine .pure ⟨⟨by simpa using more, ?_⟩, Cursor.pos_lt onward, size ▸ within⟩
          intro node member
          simp only [List.reverse_cons, argumentNodes_append, List.mem_append] at member
          rcases member with among | among
          · exact grown node among
          · exact read.2 node (by simpa [argumentNodes] using among)
      · exact .pure ⟨order.widen (le_refl c) blank, grown⟩

theorem readTagHead_yields {c : Cursor} (sound : level.Sound source) (size : context.size = byteLength source)
    (place : Cursor.ofText source ≤ c) : (readTagHead level context c).Yields source (GrownHead source c) :=
  .iterate (tagHeadStep_advances sound size place) ⟨.start, by simp [argumentNodes]⟩

theorem tagHeadStep_movesOn {c : Cursor} (sound : level.Sound source) (size : context.size = byteLength source)
    (place : Cursor.ofText source ≤ c) :
    Traced.MovesOn context.size (·.place.pos) (tagHeadStep level context) ⟨[], c⟩ :=
  (tagHeadStep_advances sound size place).movesOn ⟨.start, by simp [argumentNodes]⟩

theorem brokenTag_yields {cause : Malformation} {start stop : Cursor} {arguments : List (Argument Node)}
    {body : List Node} (lt : start < stop) (order : InOrder start (argumentNodes arguments ++ body) stop)
    (grown : ∀ node ∈ argumentNodes arguments ++ body, Grown source node) :
    (brokenTag cause start stop arguments body).Yields source (GrownFrom source start) :=
  .giveUp lt order grown

theorem settleTag_yields {kind : RegionKind} {start place inside : Cursor} {arguments : List (Argument Node)}
    {body : Region} (opens : start.atTagOpen = true) (attributes : Attributes start.next.skipTagName arguments place)
    (ends : place.skipBlank.eat? '>' = some inside) (read : body.GrownFrom source kind inside)
    (closes : body.after.atTagClose = true) (grown : ∀ node ∈ argumentNodes arguments, Grown source node) :
    (settleTag context start (.between start.next start.next.skipTagName) arguments body).Yields source
      (GrownFrom source start) := by
  obtain ⟨⟨state, items, _⟩, below⟩ := read
  obtain ⟨lt, order⟩ := items.tag_inOrder opens attributes ends
  have both : ∀ node ∈ argumentNodes arguments ++ body.nodes, Grown source node :=
    List.forall_mem_append.mpr ⟨grown, below⟩
  have last := lt_readCloseTag closes
  simp only [settleTag]
  split
  · next same =>
    split
    · next complete => exact .pure ⟨.tag opens attributes ends items closes same complete, both⟩
    · exact brokenTag_yields (lt.trans last) (order.widen (le_refl _) last.le) both
  · split
    · exact brokenTag_yields lt order both
    · exact brokenTag_yields (lt.trans last) (order.widen (le_refl _) last.le) both

theorem readTag_yields {start : Cursor} (sound : below.Sound source) (size : context.size = byteLength source)
    (here : Cursor.ofText source ≤ start) (opens : start.atTagOpen = true) :
    (readTag below context start).Yields source (GrownFrom source start) := by
  have name := (Cursor.lt_next (Cursor.peek_of_atTagOpen opens)).trans_le (Cursor.le_skipTagName start.next)
  have reached := here.trans name.le
  apply Traced.Yields.bind (sound.enter reached)
  intro level holds
  apply Traced.Yields.bind (readTagHead_yields holds size reached)
  intro head read
  cases head with
  | malformed nodes stop =>
    obtain ⟨order, grown⟩ := read
    have onward := order.le.trans (le_skipBrokenHead stop)
    exact brokenTag_yields (name.trans_le onward) (order.widen name.le (le_skipBrokenHead stop)) grown
  | closed arguments selfClosing after =>
    obtain ⟨place, attributes, ends, grown⟩ := read
    cases selfClosing with
    | true =>
      refine .pure ⟨.selfClosing opens attributes ends, ?_⟩
      intro child member
      exact grown child (by simpa [Node.children, Node.form, Form.children] using member)
    | false =>
      have inside : Cursor.ofText source ≤ after :=
        (reached.trans (attributes.inOrder.le.trans (Cursor.le_skipBlank place))).trans (Cursor.lt_of_eat? ends).le
      refine .bind (holds.region _ _ after size inside) ?_
      intro body read
      obtain ⟨⟨state, items, stops⟩, below⟩ := read
      split
      · next stop =>
        rw [stop] at stops
        exact settleTag_yields opens attributes ends ⟨⟨state, items, stop ▸ stops⟩, below⟩ stops.isTagBody.2 grown
      · obtain ⟨lt, order⟩ := items.tag_inOrder opens attributes ends
        exact brokenTag_yields lt order (List.forall_mem_append.mpr ⟨grown, below⟩)

end

end SigilTemplate
