import Mathlib
import SigilTemplate.Proofs.Reading.Recoveries
import SigilTemplate.Proofs.Reading.Round
import SigilTemplate.Proofs.Reading.Scopes

/-!
A closing tag that is left for a tag further out is claimed by it. The open tags
of a context are those whose bodies are open since the innermost brace. Where
the body of a tag ends at a closing tag with the name of one of them, every tag
between becomes an error that ends right there, the body around it ends there
too, and the nearest tag with the name takes the closing tag.
-/

namespace SigilTemplate
open Text

/-- The names of the tags whose bodies are open since the innermost brace, innermost first. -/
def openTags : List Scope → List String
  | scope :: outer :: around => if scope.kind.isTagBody then outer.tagName :: openTags (outer :: around) else []
  | _ => []

namespace Scope

/-- The region ends at a closing tag. -/
def EndsAtTag (scope : Scope) (close : Cursor) : Prop :=
  ∃ nodes, scope.step.outcome = .ok (.inr ⟨nodes, .closeTag, close⟩)

/-- The tag that the region has come to is crossed by a closing tag with another name. It becomes an error that ends where
the closing tag starts, and there the region ends as well. -/
structure CrossedAt (scope : Scope) (found : String) (close : Cursor) : Prop where
  other : scope.tagName ≠ found
  node : ∃ children, scope.readTag.outcome =
    .ok (⟨.error (.crossedTags scope.tagName found) children, scope.state.place.spanTo close⟩, close)
  ends : ∃ next, scope.step.outcome = .ok (.inl next) ∧ next.place = close ∧
    (regionStep (.ofRoom scope.room) scope.context scope.kind next).outcome = .ok (.inr (next.stop .closeTag))

/-- The tag that the region has come to takes the closing tag: as a component, or where the closing tag has no `>` as a
malformed tag. Nothing that is reported of it starts at the closing tag. -/
structure Takes (scope : Scope) (found : String) (close : Cursor) : Prop where
  same : scope.tagName = found
  node : ∃ form, scope.readTag.outcome =
      .ok (⟨form, scope.state.place.spanTo (readCloseTag close).after⟩, (readCloseTag close).after) ∧
    if (readCloseTag close).complete then
      ∃ name arguments body, name.text = found ∧ form = .component ⟨name, .tag, arguments, body, false⟩
    else ∃ children, form = .error (.malformedClose found) children
  onward : close < (readCloseTag close).after
  unreported : ∀ recovery ∈ scope.readTag.recoveries, recovery.span.start < close.pos

end Scope

section

variable {options : ReadOptions} {source : List Char} {scope outer : Scope} {around : List Scope} {close : Cursor}

theorem Scope.EndsAtTag.place (ends : scope.EndsAtTag close) :
    scope.state.place = close ∧ close.atTagClose = true ∧ scope.kind.isTagBody = true := by
  obtain ⟨nodes, outcome⟩ := ends
  unfold Scope.step regionStep at outcome
  split at outcome
  · obtain ⟨_, stop, _⟩ := Region.mk.inj (Sum.inr.inj (Except.ok.inj outcome))
    simp at stop
  · split at outcome
    · next stop ends =>
      obtain ⟨_, rfl, _⟩ := Region.mk.inj (Sum.inr.inj (Except.ok.inj outcome))
      rcases endAt?_spec ends with ⟨_, same | ⟨_, same⟩⟩ | ⟨_, same⟩ <;> simp at same
    · split at outcome
      · next closes =>
        obtain ⟨_, _, rfl⟩ := Region.mk.inj (Sum.inr.inj (Except.ok.inj outcome))
        simp only [Bool.and_eq_true] at closes
        exact ⟨rfl, closes⟩
      · exfalso
        cases item : (readItem (.ofRoom scope.room) scope.context scope.kind.mode scope.state).outcome with
        | ok next =>
          rw [Traced.bind_ok item] at outcome
          cases outcome
        | error fault =>
          rw [Traced.bind_error item] at outcome
          cases outcome

/-! ## The open tags of a context -/

/-- The open tags of a context are those around the scope; outside of the bodies of tags there are none. -/
theorem OpenScopes.context_openTags (scopes : OpenScopes options source (scope :: around)) :
    scope.context.openTags = openTags (scope :: around) ∧ (scope.kind.isTagBody = false → scope.context.openTags = []) := by
  induction around generalizing scope with
  | nil =>
    cases scopes with
    | template => exact ⟨rfl, fun _ => rfl⟩
  | cons outer around ih =>
    cases scopes with
    | inside earlier opens reached =>
      obtain ⟨same, _⟩ := ih earlier
      obtain ⟨room, context, kind, start, state⟩ := scope
      simp only at opens
      cases opens with
      | tag =>
        refine ⟨?_, by simp [RegionKind.isTagBody]⟩
        simp only [Context.insideTag, openTags, RegionKind.isTagBody, if_true, same]
      | braces _ between _ =>
        have notTag : kind.isTagBody = false := by rcases between with rfl | rfl <;> rfl
        simp [Context.insideBraces, openTags, notTag]

/-! ## The tag that a body belongs to -/

/-- The scope around the body of a tag has come to that tag. -/
theorem OpenScopes.opened (scopes : OpenScopes options source (scope :: outer :: around))
    (body : scope.kind.isTagBody = true) :
    outer.state.place.atTagOpen = true ∧ outer.room = scope.room + 1 ∧ ∃ arguments,
      (readTagHead (.withRoom scope.room) outer.context outer.state.place.next.skipTagName).outcome =
          .ok (.closed arguments false scope.start) ∧
        scope.context = outer.context.insideTag outer.tagName ∧ scope.kind = .tagBody outer.context.braced := by
  cases scopes with
  | inside earlier opens reached =>
    obtain ⟨room, context, kind, start, state⟩ := scope
    simp only at opens body
    cases opens with
    | tag further opens head => exact ⟨opens, further, _, head, rfl, rfl⟩
    | braces _ between _ => rcases between with rfl | rfl <;> simp [RegionKind.isTagBody] at body

/-- A region that comes to a round which ends it is read up to there. -/
theorem Scope.Placed.region_outcome {region : Region} (placed : scope.Placed source) (reached : scope.Reached)
    (ends : scope.step.outcome = .ok (.inr region)) :
    ((Level.withRoom scope.room).region scope.context scope.kind scope.start).outcome = .ok region := by
  have sound := Below.ofRoom_sound source scope.room
  rw [Level.withRoom_eq]
  exact (regionStep_movesOn sound placed.size placed.place).outcome_eq (·.stop .textEnd) reached ends

/-- Where the body of a tag ends at a closing tag, the tag is settled by that. -/
theorem OpenScopes.readTag_settles (scopes : OpenScopes options source (scope :: outer :: around))
    (ends : scope.EndsAtTag close) :
    ∃ arguments nodes, outer.readTag.outcome =
        (settleTag outer.context outer.state.place (.between outer.state.place.next outer.state.place.next.skipTagName)
          arguments ⟨nodes, .closeTag, close⟩).outcome ∧
      InOrder outer.state.place (argumentNodes arguments ++ nodes) close ∧
      (∀ node ∈ argumentNodes arguments ++ nodes, Grown source node) ∧ outer.state.place < close := by
  obtain ⟨_, _, body⟩ := ends.place
  obtain ⟨opens, further, arguments, head, context, kind⟩ := scopes.opened body
  obtain ⟨nodes, ends⟩ := ends
  have placed := scopes.placed
  have region := placed.region_outcome scopes.reached ends
  rw [context, kind] at region
  have outside : OpenScopes options source (outer :: around) := by cases scopes with | inside earlier => exact earlier
  have start := outside.placed.place.trans (outside.placed.start_le outside.reached)
  have name := (Cursor.lt_next (Cursor.peek_of_atTagOpen opens)).trans_le (Cursor.le_skipTagName outer.state.place.next)
  have level := Level.withRoom_sound source scope.room
  obtain ⟨last, attributes, bracket, grown⟩ :=
    (readTagHead_yields level outside.placed.size (start.trans name.le)).of_outcome head
  obtain ⟨⟨state, items, _⟩, inside⟩ :=
    (level.region (outer.context.insideTag outer.tagName) (.tagBody outer.context.braced) scope.start
      outside.placed.size placed.place).of_outcome region
  obtain ⟨lt, order⟩ := items.tag_inOrder opens attributes bracket
  refine ⟨arguments, nodes, ?_, order, List.forall_mem_append.mpr ⟨grown, inside⟩, lt⟩
  rw [Scope.readTag, readTag, further]
  change (Traced.bind (Traced.mk [] (.ok (Level.withRoom scope.room))) _).outcome = _
  rw [Scope.tagName, Cursor.tagName] at region
  simp only [Traced.bind, Traced.bind_ok head, Traced.bind_ok region]

/-- A closing tag with the name of a tag further out crosses this one. -/
theorem OpenScopes.crossedAt (scopes : OpenScopes options source (scope :: outer :: around))
    (ends : scope.EndsAtTag close) (other : outer.tagName ≠ (readCloseTag close).name)
    (left : (readCloseTag close).name ∈ outer.context.openTags) :
    outer.CrossedAt (readCloseTag close).name close ∧ ∃ next, outer.step.outcome = .ok (.inl next) ∧
      Scope.EndsAtTag { outer with state := next } close := by
  obtain ⟨_, closes, body⟩ := ends.place
  obtain ⟨opens, _⟩ := scopes.opened body
  obtain ⟨arguments, nodes, settles, _⟩ := scopes.readTag_settles ends
  have earlier : OpenScopes options source (outer :: around) := by cases scopes with | inside earlier => exact earlier
  have inTag : outer.kind.isTagBody = true := by
    by_contra notTag
    rw [earlier.context_openTags.2 (by simpa using notTag)] at left
    simp at left
  have crossed : outer.readTag.outcome =
      .ok (⟨.error (.crossedTags outer.tagName (readCloseTag close).name) (argumentNodes arguments ++ nodes),
        outer.state.place.spanTo close⟩, close) := by
    have own : (readCloseTag close).name ≠ (Fragment.between outer.state.place.next outer.state.place.next.skipTagName).text :=
      fun same => other same.symm
    rw [settles]
    simp only [settleTag, if_neg own, List.contains_eq_mem, left, decide_true, if_true]
    rfl
  obtain ⟨next, place, goesOn⟩ : ∃ next : RegionState, next.place = close ∧ outer.step.outcome = .ok (.inl next) := by
    have read := crossed
    rw [Scope.readTag] at read
    rw [Scope.step, regionStep_tagOpen opens, Traced.bind_ok read]
    exact ⟨_, rfl, rfl⟩
  have stops : regionStep (.ofRoom outer.room) outer.context outer.kind next = pure (.inr (next.stop .closeTag)) :=
    regionStep_of_endsAt (.closeTag (by rw [place]; exact closes) inTag)
  refine ⟨⟨other, ⟨_, crossed⟩, next, goesOn, place, by rw [stops]; rfl⟩, next, goesOn, next.nodes.reverse, ?_⟩
  rw [Scope.step, stops, RegionState.stop, place]
  rfl

/-- Whatever is reported of a node starts before the node ends. -/
theorem Grown.start_lt_of_mem_recoveries {node : Node} (grown : Grown source node) :
    ∀ recovery ∈ node.recoveries, recovery.span.start < node.span.stop := by
  induction node using Node.induct with
  | step node ih =>
    obtain ⟨c, d, _, lt, span, order⟩ := grown.exists_inOrder
    intro recovery member
    rw [Node.recoveries_eq] at member
    rcases List.mem_append.mp member with below | own
    · obtain ⟨child, among, inside⟩ := List.mem_flatMap.mp below
      have start := ih child among (grown.children child among) recovery inside
      obtain ⟨x, y, _, _, within, place⟩ := order.exists_spanTo among
      have stop := Cursor.pos_le within
      rw [place] at start
      rw [span]
      exact Nat.lt_of_lt_of_le start stop
    · obtain ⟨cause, _, rfl⟩ := Option.map_eq_some_iff.mp (Option.mem_toList.mp own)
      rw [span]
      exact Cursor.pos_lt lt

/-- A closing tag with the name of the tag is taken by it. -/
theorem OpenScopes.takes (scopes : OpenScopes options source (scope :: outer :: around)) (ends : scope.EndsAtTag close)
    (same : outer.tagName = (readCloseTag close).name) : outer.Takes (readCloseTag close).name close := by
  obtain ⟨_, closes, body⟩ := ends.place
  obtain ⟨opens, _⟩ := scopes.opened body
  obtain ⟨arguments, nodes, settles, order, grown, lt⟩ := scopes.readTag_settles ends
  have own : (readCloseTag close).name = (Fragment.between outer.state.place.next outer.state.place.next.skipTagName).text :=
    same.symm
  have node : ∃ form, outer.readTag.outcome =
        .ok (⟨form, outer.state.place.spanTo (readCloseTag close).after⟩, (readCloseTag close).after) ∧
      form.children = argumentNodes arguments ++ nodes ∧
      if (readCloseTag close).complete then
        ∃ name arguments body, name.text = (readCloseTag close).name ∧
          form = .component ⟨name, .tag, arguments, body, false⟩
      else ∃ children, form = .error (.malformedClose (readCloseTag close).name) children := by
    rw [settles]
    simp only [settleTag, if_pos own]
    split
    · exact ⟨_, rfl, rfl, _, arguments, nodes, own.symm, rfl⟩
    · rw [own]
      exact ⟨_, rfl, rfl, _, rfl⟩
  obtain ⟨form, outcome, children, settled⟩ := node
  refine ⟨same, ⟨form, outcome, settled⟩, lt_readCloseTag closes, ?_⟩
  have recorded := ((readTag_records (Below.ofRoom_recording outer.room)).of_outcome _ outcome).recoveries_eq
  intro recovery member
  rw [Scope.readTag] at member
  rw [List.nil_append] at recorded
  rw [recorded, List.flatMap_singleton, Node.recoveries_eq] at member
  rcases List.mem_append.mp member with below | own
  · rw [Node.children, Node.form, children] at below
    obtain ⟨child, among, inside⟩ := List.mem_flatMap.mp below
    have start := (grown child among).start_lt_of_mem_recoveries recovery inside
    obtain ⟨x, y, _, _, within, place⟩ := order.exists_spanTo among
    rw [place] at start
    exact Nat.lt_of_lt_of_le start (Cursor.pos_le within)
  · obtain ⟨cause, _, rfl⟩ := Option.map_eq_some_iff.mp (Option.mem_toList.mp own)
    exact Cursor.pos_lt lt

/-- A closing tag with the name of an open tag crosses the tags between, and the nearest one with the name takes it. -/
theorem OpenScopes.claimed (scopes : OpenScopes options source (scope :: outer :: around)) (ends : scope.EndsAtTag close)
    (left : (readCloseTag close).name = outer.tagName ∨ (readCloseTag close).name ∈ outer.context.openTags) :
    ∃ crossed nearest further, outer :: around = crossed ++ nearest :: further ∧
      (∀ between ∈ crossed, between.CrossedAt (readCloseTag close).name close) ∧
      nearest.Takes (readCloseTag close).name close := by
  induction around generalizing scope outer with
  | nil =>
    by_cases same : outer.tagName = (readCloseTag close).name
    · exact ⟨[], outer, [], rfl, by simp, scopes.takes ends same⟩
    · have among := left.resolve_left fun back => same back.symm
      have earlier : OpenScopes options source [outer] := by cases scopes with | inside earlier => exact earlier
      rw [earlier.context_openTags.1] at among
      simp [openTags] at among
  | cons outermost around ih =>
    by_cases same : outer.tagName = (readCloseTag close).name
    · exact ⟨[], outer, _, rfl, by simp, scopes.takes ends same⟩
    · have among := left.resolve_left fun back => same back.symm
      obtain ⟨crossed, next, goesOn, further⟩ := scopes.crossedAt ends same among
      have earlier : OpenScopes options source (outer :: outermost :: around) := by
        cases scopes with | inside earlier => exact earlier
      have later : OpenScopes options source ({ outer with state := next } :: outermost :: around) := by
        cases earlier with
        | inside before opens reached => exact .inside before opens (.next reached goesOn)
      have outside : (readCloseTag close).name = outermost.tagName ∨
          (readCloseTag close).name ∈ outermost.context.openTags := by
        obtain ⟨_, _, inTag⟩ := further.place
        obtain ⟨_, _, _, _, context, _⟩ := later.opened inTag
        simp only at context
        rw [context] at among
        exact List.mem_cons.mp among
      obtain ⟨between, nearest, rest, split, all, takes⟩ := ih later further outside
      exact ⟨outer :: between, nearest, rest, by rw [split]; rfl, List.forall_mem_cons.mpr ⟨crossed, all⟩, takes⟩

end

/-- In every reading of a template, the reading is that of the region after the header, and of all scopes that are open
at once: a round over the innermost region reads no regions but those that its scope opens; the open tags of its context
are the tags whose bodies are open since the innermost brace; and if it is the body of a tag and ends at a closing tag
with another name, which is that of one of the open tags around, then all tags between become errors that end there, and
the nearest tag with that name takes the closing tag. -/
theorem Tree.trace_closes_claimed (options : ReadOptions) (source : List Char) :
    (∃ leading, Tree.trace options source =
      (Level.withRoom options.maxDepth).region (.outermost options source) .topLevel (Tree.regionStart options source) >>=
        fun region => pure ⟨leading ++ region.nodes, source, (contentCursor source).pos⟩) ∧
    ∀ scope around, OpenScopes options source (scope :: around) →
      (∀ read, (∀ room context kind start, scope.Opens room context kind start →
          (Level.withRoom room).region context kind start = read room context kind start) →
        scope.step = regionStep (.guided read scope.room) scope.context scope.kind scope.state) ∧
      scope.context.openTags = openTags (scope :: around) ∧
      ∀ close, scope.EndsAtTag close → ∀ own others, openTags (scope :: around) = own :: others →
        (readCloseTag close).name ≠ own → (readCloseTag close).name ∈ others →
        ∃ crossed nearest further, around = crossed ++ nearest :: further ∧ crossed ≠ [] ∧
          (∀ between ∈ crossed, between.CrossedAt (readCloseTag close).name close) ∧
          nearest.Takes (readCloseTag close).name close := by
  refine ⟨Tree.trace_eq_region options source, ?_⟩
  intro scope around scopes
  obtain ⟨tags, _⟩ := scopes.context_openTags
  refine ⟨fun read agree => Scope.step_eq_of_opens scopes.placed scopes.reached agree, tags, ?_⟩
  intro close ends own others open_ notOwn among
  cases around with
  | nil => simp [openTags] at open_
  | cons outer around =>
    have earlier : OpenScopes options source (outer :: around) := by cases scopes with | inside earlier => exact earlier
    obtain ⟨_, _, body⟩ := ends.place
    simp only [openTags, body, if_true, List.cons.injEq] at open_
    obtain ⟨rfl, rfl⟩ := open_
    rw [← earlier.context_openTags.1] at among
    obtain ⟨crossed, nearest, further, split, all, takes⟩ := scopes.claimed ends (.inr among)
    refine ⟨crossed, nearest, further, split, ?_, all, takes⟩
    rintro rfl
    obtain ⟨rfl, _⟩ := List.cons.inj split
    exact notOwn takes.same.symm

/-- Two tags that are open where the closing tag of the outer one comes first. -/
theorem Tree.trace_closes_claimed_sample :
    ∃ inner middle outermost, OpenScopes ⟨2, false⟩ "<A><B></A>".toList [inner, middle, outermost] ∧
      inner.context.openTags = ["B", "A"] ∧ inner.EndsAtTag ⟨6, "</A>".toList⟩ ∧
      middle.CrossedAt "A" ⟨6, "</A>".toList⟩ ∧ outermost.Takes "A" ⟨6, "</A>".toList⟩ := by
  have start : Tree.regionStart ⟨2, false⟩ "<A><B></A>".toList = ⟨0, "<A><B></A>".toList⟩ := by cbv
  have around : Context.outermost ⟨2, false⟩ "<A><B></A>".toList = ⟨10, 2, [], false⟩ := by cbv
  have headA : (readTagHead (.withRoom 1) ⟨10, 2, [], false⟩ (Cursor.skipTagName (Cursor.next ⟨0, "<A><B></A>".toList⟩))).outcome =
      .ok (.closed [] false ⟨3, "<B></A>".toList⟩) := by cbv
  have headB : (readTagHead (.withRoom 0) ⟨10, 2, ["A"], false⟩ (Cursor.skipTagName (Cursor.next ⟨3, "<B></A>".toList⟩))).outcome =
      .ok (.closed [] false ⟨6, "</A>".toList⟩) := by cbv
  have nameA : Cursor.tagName ⟨0, "<A><B></A>".toList⟩ = "A" := by cbv
  have nameB : Cursor.tagName ⟨3, "<B></A>".toList⟩ = "B" := by cbv
  have close : (readCloseTag ⟨6, "</A>".toList⟩).name = "A" := by cbv
  have first : OpenScopes ⟨2, false⟩ "<A><B></A>".toList [⟨2, .outermost ⟨2, false⟩ "<A><B></A>".toList, .topLevel,
      Tree.regionStart ⟨2, false⟩ "<A><B></A>".toList, ⟨[], {}, Tree.regionStart ⟨2, false⟩ "<A><B></A>".toList⟩⟩] :=
    .template .start
  rw [start, around] at first
  have bodyA : Scope.Opens
      ⟨2, ⟨10, 2, [], false⟩, .topLevel, ⟨0, "<A><B></A>".toList⟩, ⟨[], {}, ⟨0, "<A><B></A>".toList⟩⟩⟩ 1
      ⟨10, 2, [Cursor.tagName ⟨0, "<A><B></A>".toList⟩], false⟩ (.tagBody false) ⟨3, "<B></A>".toList⟩ :=
    .tag rfl (by decide) headA
  rw [nameA] at bodyA
  have second : OpenScopes ⟨2, false⟩ "<A><B></A>".toList
      [⟨1, ⟨10, 2, ["A"], false⟩, .tagBody false, ⟨3, "<B></A>".toList⟩, ⟨[], {}, ⟨3, "<B></A>".toList⟩⟩⟩, _] :=
    .inside first bodyA .start
  have bodyB : Scope.Opens
      ⟨1, ⟨10, 2, ["A"], false⟩, .tagBody false, ⟨3, "<B></A>".toList⟩, ⟨[], {}, ⟨3, "<B></A>".toList⟩⟩⟩ 0
      ⟨10, 2, [Cursor.tagName ⟨3, "<B></A>".toList⟩, "A"], false⟩ (.tagBody false) ⟨6, "</A>".toList⟩ :=
    .tag rfl (by decide) headB
  rw [nameB] at bodyB
  have third : OpenScopes ⟨2, false⟩ "<A><B></A>".toList
      [⟨0, ⟨10, 2, ["B", "A"], false⟩, .tagBody false, ⟨6, "</A>".toList⟩, ⟨[], {}, ⟨6, "</A>".toList⟩⟩⟩, _, _] :=
    .inside second bodyB .start
  have ends : Scope.EndsAtTag
      ⟨0, ⟨10, 2, ["B", "A"], false⟩, .tagBody false, ⟨6, "</A>".toList⟩, ⟨[], {}, ⟨6, "</A>".toList⟩⟩⟩
      ⟨6, "</A>".toList⟩ := by
    refine ⟨[], ?_⟩
    rw [Scope.step, regionStep_of_endsAt (.closeTag (by decide) rfl)]
    rfl
  obtain ⟨_, tags, claims⟩ := (Tree.trace_closes_claimed ⟨2, false⟩ "<A><B></A>".toList).2 _ _ third
  obtain ⟨crossed, nearest, further, split, nonempty, all, takes⟩ :=
    claims _ ends "B" ["A"] tags.symm (by rw [close]; decide) (by rw [close]; decide)
  rw [close] at all takes
  obtain ⟨between, others, rfl⟩ := List.exists_cons_of_ne_nil nonempty
  obtain ⟨rfl, rest⟩ := List.cons.inj split
  cases others with
  | nil =>
    obtain ⟨rfl, _⟩ := List.cons.inj rest
    exact ⟨_, _, _, third, rfl, ends, all _ (List.mem_singleton_self _), takes⟩
  | cons => simp at rest

end SigilTemplate
