import SigilTemplate.Metadata.Survey
import SigilTemplate.Proofs.Reading.Progress
import SigilTemplate.Proofs.Reading.Recorded

/-!
No recovery is lost and none is made twice: the recoveries of a reading are
those of the error nodes in the tree, from the leaves up. Nodes are handed on
from one construct to another that is given up in its turn; whoever takes them
keeps all of them, and in their order.

The same goes for layers. A level with so much room below it reads regions with
one layer more, since every construct enters a level for the nodes in it.
-/

namespace SigilTemplate

/-- Every region that is read accounts for its recoveries. -/
def RecordsRegions (bound : Nat) (read : Context → RegionKind → Cursor → Traced Region) : Prop :=
  ∀ context kind c, (read context kind c).Records [] fun all region => Recorded bound all region.nodes

/-- What a level with some room below it reads accounts for its recoveries. -/
structure Level.Recording (room : Nat) (level : Level) : Prop where
  region : RecordsRegions (room + 1) level.region
  nested : RecordsRegions room level.nested
  sigil : ∀ context c, (level.sigil context c).RecordsNode (room + 1) []
  conditional : ∀ context start c, (level.conditional context start c).RecordsNode room []

def Below.Recording (below : Below) : Prop :=
  ∀ level ∈ below.next, ∃ inner, below.room = inner + 1 ∧ (level ()).Recording inner

section

variable {context : Context} {below : Below} {level : Level} {room bound : Nat} {before : List Recovery}

theorem Below.Recording.enter {c : Cursor} (recording : below.Recording) :
    (below.enter context c).Records [] fun all level =>
      all = [] ∧ ∃ inner, below.room = inner + 1 ∧ level.Recording inner := by
  unfold Below.enter
  split
  · next level here => exact .pure ⟨rfl, recording level here⟩
  · exact .fail

theorem Below.Recording.nested (recording : below.Recording) : RecordsRegions below.room below.nested := by
  intro context kind c
  apply Traced.Records.bind recording.enter
  rintro _ level ⟨rfl, inner, room, levels⟩
  rw [room]
  exact levels.region context kind c

/-! ## Blocks and statements -/

theorem readBlock_records {nested : Context → RegionKind → Cursor → Traced Region} {role : BlockRole} {brace : Cursor}
    (recording : RecordsRegions bound nested) :
    (readBlock nested context role brace).Records [] fun all read => Recorded bound all read.1 := by
  apply Traced.Records.bind (recording context.insideBraces .braced brace.next)
  intro all inside recorded
  split
  · exact .pure recorded
  · exact .fail

theorem settleStatement_records {keyword : Keyword} {head : Fragment} {statement : Statement Node} {start after : Cursor}
    (recorded : Recorded bound before statement.children) :
    (settleStatement keyword head statement start after).RecordsNode (bound + 1) before := by
  unfold settleStatement
  split
  · exact .giveUp recorded
  · exact .whole recorded (by simp)

theorem readElse_records {c : Cursor} (recording : level.Recording room) :
    (readElse level context c).Records [] fun all read =>
      Recorded room all ((read.1.map ElseClause.nodes).getD []) := by
  unfold readElse
  split
  · exact .pure .nil
  · next afterElse _ =>
    simp only
    split
    · exact .bind (readBlock_records recording.nested) fun _ _ recorded => .pure recorded
    · split
      · exact .bind (recording.conditional context _ _) fun _ _ recorded => .pure recorded
      · exact .pure .nil

theorem readConditional_records {start c : Cursor} (recording : below.Recording) :
    (readConditional below context start c).RecordsNode below.room [] := by
  apply Traced.Records.bind recording.enter
  rintro _ level ⟨rfl, inner, room, levels⟩
  rw [room]
  split
  · exact .giveUp .nil
  · next condition brace _ =>
    apply Traced.Records.bind (readBlock_records levels.nested)
    rintro all ⟨body, middle⟩ inside
    apply Traced.Records.bind ((readElse_records levels).after all)
    rintro _ ⟨otherwise, after⟩ ⟨own, rfl, further⟩
    exact settleStatement_records (inside.append further)

theorem loopStatement_children (keyword : Keyword) (header : Fragment) (body : List Node) :
    (loopStatement keyword header body).children = body := by
  unfold loopStatement
  split <;> rfl

theorem readLoop_records {keyword : Keyword} {start c : Cursor} (recording : below.Recording) :
    (readLoop below context keyword start c).RecordsNode below.room [] := by
  apply Traced.Records.bind recording.enter
  rintro _ level ⟨rfl, inner, room, levels⟩
  rw [room]
  split
  · exact .giveUp .nil
  · apply Traced.Records.bind (readBlock_records levels.nested)
    rintro all ⟨body, after⟩ inside
    refine settleStatement_records ?_
    rw [loopStatement_children]
    exact inside

theorem readStrayElse_records {start c : Cursor} (recording : below.Recording) :
    (readStrayElse below context start c).RecordsNode (below.room + 1) [] := by
  simp only [readStrayElse]
  split
  · exact .bind (readBlock_records recording.nested) fun _ _ recorded => Traced.Records.giveUp recorded
  · split
    · exact .bind (readConditional_records recording) fun _ _ recorded => Traced.Records.giveUp recorded
    · exact .giveUp .nil

/-! ## Arms -/

theorem readInlineArm_records {brace start : Cursor} {arrowEnd : Nat} (recording : level.Recording room) :
    (readInlineArm level context brace arrowEnd start).Records [] fun all read =>
      Recorded (room + 1) all read.1.nodes := by
  apply Traced.Records.bind (recording.nested context .arm start)
  intro all region recorded
  split
  · exact .fail
  · exact .bind (.recover recorded) fun _ _ given => .pure given
  · exact .pure (recorded.trimTail.mono (by omega))

theorem readArm_records {brace c arrow : Cursor} (recording : level.Recording room) :
    (readArm level context brace c arrow).Records [] fun all read => Recorded (room + 1) all read.1.body.nodes := by
  unfold readArm
  simp only
  split
  · exact .bind (readBlock_records recording.nested) fun _ _ recorded => .pure (recorded.mono (by omega))
  · exact .bind (readInlineArm_records recording) fun _ _ recorded => .pure recorded

/-- The nodes of the arms that were read, whatever has become of the arms. -/
def ArmsEnd.nodes : ArmsEnd → List Node
  | .closed arms _ => armNodes arms
  | .malformed nodes _ => nodes

theorem armsStep_records {brace : Cursor} (recording : level.Recording room) (all : List Recovery) (state : ArmsState)
    (recorded : Recorded (room + 1) all (armNodes state.arms.reverse)) :
    (armsStep level context brace state).Records all fun all =>
      Sum.elim (fun next => Recorded (room + 1) all (armNodes next.arms.reverse))
        fun ends => Recorded (room + 1) all ends.nodes := by
  unfold armsStep
  simp only
  split
  · exact .fail
  · split
    · exact .pure recorded
    · split
      · apply Traced.Records.bind ((readArm_records recording).after all)
        rintro _ ⟨arm, after⟩ ⟨own, rfl, inside⟩
        apply Traced.Records.pure
        have more := recorded.append inside
        simpa [armNodes_append, armNodes] using more
      · split
        · exact .pure recorded
        · exact .fail

theorem readArms_records {brace : Cursor} (recording : level.Recording room) :
    (readArms level context brace).Records [] fun all ends => Recorded (room + 1) all ends.nodes :=
  .iterate (armsStep_records recording) (fun _ _ recorded => recorded) .nil

theorem readMatch_records {start c : Cursor} (recording : below.Recording) :
    (readMatch below context start c).RecordsNode (below.room + 1) [] := by
  apply Traced.Records.bind recording.enter
  rintro _ level ⟨rfl, inner, room, levels⟩
  rw [room]
  split
  · exact .giveUp .nil
  · apply Traced.Records.bind (readArms_records levels)
    intro all ends recorded
    cases ends with
    | closed arms after => exact settleStatement_records recorded
    | malformed nodes after => exact .giveUp recorded

/-! ## Tags -/

/-- An attempt that gives nothing has recorded nothing. -/
def RecordedAttempt {α : Type} (bound : Nat) (nodes : α → List Node) (all : List Recovery) :
    Except Cursor (α × Cursor) → Prop
  | .ok (answer, _) => Recorded bound all (nodes answer)
  | .error _ => all = []

theorem readAttributeValue_records {c : Cursor} (recording : level.Recording room) :
    (readAttributeValue level context c).Records [] (RecordedAttempt (room + 1) (·.nodes)) := by
  unfold readAttributeValue
  split
  · exact .pure rfl
  · split
    · apply Traced.Records.pure
      cases stringLiteral c with
      | error stop => rfl
      | ok found => exact .nil
    · split
      · exact .bind (readBlock_records recording.nested) fun _ _ recorded => .pure (recorded.mono (by omega))
      · split
        · exact .bind (recording.sigil context c) fun _ _ recorded => .pure recorded
        · simp only
          split
          · next value word =>
            apply Traced.Records.pure
            rw [RecordedAttempt, constantValue?_nodes word]
            exact .nil
          · exact .pure rfl

theorem readAttribute_records {c : Cursor} (recording : level.Recording room) :
    (readAttribute level context c).Records [] (RecordedAttempt (room + 1) (·.value.nodes)) := by
  simp only [readAttribute]
  split
  · exact .pure .nil
  · apply Traced.Records.bind (readAttributeValue_records recording)
    rintro all (stop | ⟨value, after⟩) recorded
    · exact .pure recorded
    · exact .pure recorded

/-- The nodes in the attributes that were read, whatever has become of the tag. -/
def TagHead.nodes : TagHead → List Node
  | .closed arguments _ _ => argumentNodes arguments
  | .malformed nodes _ => nodes

theorem tagHeadStep_records (recording : level.Recording room) (all : List Recovery) (state : TagHeadState)
    (recorded : Recorded (room + 1) all (argumentNodes state.arguments.reverse)) :
    (tagHeadStep level context state).Records all fun all =>
      Sum.elim (fun next => Recorded (room + 1) all (argumentNodes next.arguments.reverse))
        fun head => Recorded (room + 1) all head.nodes := by
  simp only [tagHeadStep]
  split
  · exact .pure recorded
  · split
    · exact .pure recorded
    · split
      · apply Traced.Records.bind ((readAttribute_records recording).after all)
        rintro _ (stop | ⟨argument, after⟩) ⟨own, rfl, inside⟩
        · apply Traced.Records.pure
          rw [RecordedAttempt] at inside
          rw [inside, List.append_nil]
          exact recorded
        · apply Traced.Records.pure
          have more := recorded.append inside
          simpa [argumentNodes_append, argumentNodes] using more
      · exact .pure recorded

theorem readTagHead_records {c : Cursor} (recording : level.Recording room) :
    (readTagHead level context c).Records [] fun all head => Recorded (room + 1) all head.nodes :=
  .iterate (tagHeadStep_records recording) (fun _ _ recorded => recorded) .nil

theorem settleTag_records {start : Cursor} {name : Fragment} {arguments : List (Argument Node)} {body : Region}
    (recorded : Recorded bound before (argumentNodes arguments ++ body.nodes)) :
    (settleTag context start name arguments body).RecordsNode (bound + 1) before := by
  simp only [settleTag]
  split
  · split
    · exact .whole recorded (by simp)
    · exact .giveUp recorded
  · exact .giveUp recorded

theorem readTag_records {start : Cursor} (recording : below.Recording) :
    (readTag below context start).RecordsNode (below.room + 1) [] := by
  apply Traced.Records.bind recording.enter
  rintro _ level ⟨rfl, inner, room, levels⟩
  rw [room]
  apply Traced.Records.bind (readTagHead_records levels)
  intro all head attributes
  cases head with
  | malformed nodes stop => exact .giveUp attributes
  | closed arguments selfClosing after =>
    cases selfClosing with
    | true =>
      refine .whole ?_ (by simp)
      rw [Form.children, List.append_nil]
      exact attributes
    | false =>
      apply Traced.Records.bind ((levels.region _ _ after).after all)
      rintro _ body ⟨own, rfl, inside⟩
      split
      · exact settleTag_records (attributes.append inside)
      · exact .giveUp (attributes.append inside)

/-! ## Directives -/

/-- An attempt at a directive without nodes records nothing, or that it was given up. -/
theorem settleDirective_records {keyword : Keyword} {start c : Cursor} {attempt : Except Cursor (Directive Node × Cursor)}
    (onward : Onward c (Directive.Flat keyword c) attempt) :
    (settleDirective keyword start attempt).RecordsNode (bound + 1) [] := by
  cases read : attempt with
  | error stop => exact .giveUp .nil
  | ok found =>
    obtain ⟨directive, after⟩ := found
    have childless := (onward.of_ok read).2.leaf
    refine .whole ?_ (by simp)
    rw [Form.children, childless]
    exact .nil

theorem readRaw_records {start c : Cursor} : (readRaw context start c).RecordsNode (bound + 1) [] := by
  simp only [readRaw]
  split
  · split
    · exact .whole .nil (by simp)
    · exact .fail
  · exact .giveUp .nil

theorem readFunction_records {start c : Cursor} (recording : below.Recording) :
    (readFunction below context start c).RecordsNode (below.room + 1) [] := by
  unfold readFunction
  split
  · exact .bind (readBlock_records recording.nested) fun _ _ recorded => .whole recorded (by simp)
  · exact .giveUp .nil

/-! ## Constructs without a region -/

theorem refusedFragment_records {start : Cursor} (refusal : Code.Refusal) :
    (refusedFragment context start refusal).RecordsNode (bound + 1) [] := by
  cases refusal with
  | mismatched place found innermost => exact .giveUp .nil
  | unterminated opener => exact .fail
  | tooDeep pos => exact .fail

theorem readSection_records {start c : Cursor} (recording : below.Recording) :
    (readSection below context start c).RecordsNode (below.room + 1) [] := by
  unfold readSection
  split
  · next paren =>
    unfold readSectionValue
    split
    · next arguments ok =>
      split
      · next directive value =>
        have flat := sectionValue?_flat (Code.enclosed_inner_partOf paren rfl ok) value
        exact settleDirective_records (.ok (Code.lt_of_enclosed paren rfl ok).le flat)
      · exact .giveUp .nil
    · exact refusedFragment_records _
  · split
    · exact .bind (readBlock_records recording.nested) fun _ _ recorded => .whole recorded (by simp)
    · exact .giveUp .nil

theorem readComment_records {start : Cursor} : (readComment context start).RecordsNode (bound + 1) [] := by
  simp only [readComment]
  split
  · exact .whole .nil (by simp)
  · exact .fail

theorem readEnclosed_records {form : String → Form Node} {start opener : Cursor}
    (leaf : ∀ code, (form code).children = [])
    (whole : ∀ code, (∀ cause children, form code ≠ .error cause children) ∧ ∀ list, form code ≠ .parameters list) :
    (readEnclosed room context form start opener).RecordsNode (bound + 1) [] := by
  unfold readEnclosed
  split
  · next fragment _ => exact .pure (.leaf (leaf _) (whole _))
  · exact refusedFragment_records _

theorem readParenExpression_records {raw : Bool} {start opener : Cursor} :
    (readParenExpression room context raw start opener).RecordsNode (bound + 1) [] :=
  readEnclosed_records (fun _ => rfl) (by simp)

theorem readSimpleExpression_records {raw : Bool} {start name : Cursor} :
    (readSimpleExpression room context raw start name).RecordsNode (bound + 1) [] := by
  unfold readSimpleExpression
  split
  · exact .whole .nil (by simp)
  · exact .giveUp .nil
  · exact refusedFragment_records _

theorem readRawOutput_records {start : Cursor} : (readRawOutput room context start).RecordsNode (bound + 1) [] := by
  simp only [readRawOutput]
  split
  · split
    · exact readParenExpression_records
    · split
      · exact readSimpleExpression_records
      · exact .giveUp .nil
  · exact .giveUp .nil

/-! ## Constructs by their first characters -/

theorem readCall_records {start arguments brace : Cursor} {name : Fragment} (recording : below.Recording) :
    (readCall below context start name arguments brace).RecordsNode (below.room + 1) [] := by
  apply Traced.Records.bind recording.enter
  rintro _ level ⟨rfl, inner, room, levels⟩
  rw [room]
  apply Traced.Records.bind (readBlock_records levels.nested)
  rintro all ⟨body, after⟩ recorded
  have more := recorded.mono (Nat.le_succ inner)
  dsimp only
  split
  · next arguments entries =>
    refine .whole ?_ (by simp)
    rw [Form.children, callArguments?_nodes entries]
    exact more
  · exact .giveUp more

theorem readKeyword_records {keyword : Keyword} {start c : Cursor} (recording : below.Recording) :
    (readKeyword below context keyword start c).RecordsNode (below.room + 1) [] := by
  cases keyword with
  | ifBlock => exact (readConditional_records recording).imp fun _ _ recorded => recorded.mono (by omega)
  | elseBlock => exact readStrayElse_records recording
  | forLoop | whileLoop => exact (readLoop_records recording).imp fun _ _ recorded => recorded.mono (by omega)
  | matchOn => exact readMatch_records recording
  | continueLoop => exact .whole .nil (by simp)
  | breakLoop => exact .whole .nil (by simp)
  | layout => exact settleDirective_records (onward_layoutDirective c)
  | useFile => exact settleDirective_records (onward_useDirective c)
  | includeFile => exact settleDirective_records (onward_includeFile c)
  | render => exact settleDirective_records (onward_render c)
  | renderBody => exact settleDirective_records (onward_renderBody c)
  | childContent => exact settleDirective_records (onward_childContent c)
  | sectionBlock => exact readSection_records recording
  | raw => exact readRaw_records
  | function => exact readFunction_records recording

theorem readNamed_records {start : Cursor} {capital : Bool} (recording : below.Recording) :
    (readNamed below context start capital).RecordsNode (below.room + 1) [] := by
  unfold readNamed
  split
  · exact readKeyword_records recording
  · split
    · exact readCall_records recording
    · exact readSimpleExpression_records

theorem readSigil_records {start : Cursor} (recording : below.Recording) :
    (readSigil below context start).RecordsNode (below.room + 1) [] := by
  unfold readSigil
  split
  · exact .giveUp .nil
  · next ch _ =>
    by_cases star : ch = '*'
    · rw [if_pos star]
      exact readComment_records
    rw [if_neg star]
    by_cases brace : ch = '{'
    · rw [if_pos brace]
      exact readEnclosed_records (fun _ => rfl) (by simp)
    rw [if_neg brace]
    by_cases paren : ch = '('
    · rw [if_pos paren]
      exact readParenExpression_records
    rw [if_neg paren]
    by_cases hash : ch = '#'
    · rw [if_pos hash]
      exact readRawOutput_records
    rw [if_neg hash]
    split
    · exact readNamed_records recording
    · split
      · exact readSimpleExpression_records
      · exact .giveUp .nil

/-! ## Regions and levels -/

theorem readItem_records {mode : TextMode} {state : RegionState} (recording : below.Recording)
    (recorded : Recorded (below.room + 1) before state.nodes.reverse) :
    (readItem below context mode state).Records before fun all next =>
      Recorded (below.room + 1) all next.nodes.reverse := by
  -- One more node, whatever it is read as.
  have push (x : Traced ReadNode) (read : x.RecordsNode (below.room + 1) []) :
      (x >>= fun node => Pure.pure (state.push node)).Records before fun all next =>
        Recorded (below.room + 1) all next.nodes.reverse := by
    apply Traced.Records.bind (read.after before)
    rintro _ node ⟨own, rfl, inside⟩
    apply Traced.Records.pure
    simpa [RegionState.push] using recorded.append inside
  simp only [readItem]
  split
  · exact push _ (.giveUp .nil)
  · split
    · exact push _ (readTag_records recording)
    · split
      · exact push _ (readSigil_records recording)
      · apply Traced.Records.pure
        simpa using recorded.append (.leaf rfl (by simp))

theorem regionStep_records {kind : RegionKind} (recording : below.Recording) (all : List Recovery) (state : RegionState)
    (recorded : Recorded (below.room + 1) all state.nodes.reverse) :
    (regionStep below context kind state).Records all fun all =>
      Sum.elim (fun next => Recorded (below.room + 1) all next.nodes.reverse)
        fun region => Recorded (below.room + 1) all region.nodes := by
  unfold regionStep
  split
  · exact .pure recorded
  · split
    · exact .pure recorded
    · split
      · exact .pure recorded
      · exact .bind (readItem_records recording recorded) fun _ _ next => .pure next

theorem readRegion_records (recording : below.Recording) : RecordsRegions (below.room + 1) (readRegion below) :=
  fun _ _ _ => .iterate (regionStep_records recording) (fun _ _ recorded => recorded) .nil

theorem Below.Recording.above (recording : below.Recording) : (Level.above below).Recording below.room where
  region := readRegion_records recording
  nested := recording.nested
  sigil _ _ := readSigil_records recording
  conditional _ _ _ := readConditional_records recording

theorem Below.ofRoom_recording (room : Nat) : (Below.ofRoom room).Recording := by
  induction room with
  | zero => simp [Below.Recording, Below.ofRoom]
  | succ room ih =>
    rintro level ⟨⟩
    have above := ih.above
    rw [← Level.withRoom_eq, Below.room_ofRoom] at above
    exact ⟨room, rfl, above⟩

theorem Level.withRoom_recording (room : Nat) : (Level.withRoom room).Recording room := by
  have above := (Below.ofRoom_recording room).above
  rwa [← Level.withRoom_eq, Below.room_ofRoom] at above

end

/-! ## Templates -/

/-- Before its region, a template has text and parameters only. -/
theorem Leading.accounted {c d : Cursor} {nodes : List Node} {bound : Nat} (leading : Leading c nodes d) :
    Accounted (bound + 1) [] nodes := by
  cases leading with
  | nothing => exact Recorded.nil.toAccounted
  | header spells =>
    have text : Accounted (bound + 1) [] (leadingText c c.skipBlank) := by
      unfold leadingText
      split
      · exact .leaf rfl (by simp)
      · exact Recorded.nil.toAccounted
    exact text.append (.leaf rfl (by simp))

/-- The trace and the tree of a template account for each other. -/
theorem Tree.trace_records (options : ReadOptions) (source : List Char) :
    (Tree.trace options source).Records [] fun all tree => Accounted (options.maxDepth + 1) all tree.nodes := by
  obtain ⟨nodes, c, leading, same⟩ := Tree.exists_trace_eq options source
  rw [same]
  apply Traced.Records.bind ((Level.withRoom_recording options.maxDepth).region _ .topLevel c)
  intro all region inside
  exact .pure (leading.accounted.append inside.toAccounted)

/-- The errors of a tree in document order, as recoveries. -/
def Tree.recovered (tree : Tree) : List Recovery := tree.errors.map fun error => ⟨error.1.kind, error.2⟩

theorem Tree.recovered_perm (tree : Tree) : tree.recovered.Perm (tree.postorder.filterMap Node.recovery?) := by
  have listed : tree.recovered = tree.preorder.filterMap Node.recovery? := by
    rw [recovered, errors, List.map_filterMap]
    congr 1
    funext node
    rw [Node.recovery?, Option.map_map]
    rfl
  rw [listed]
  exact tree.preorder_perm_postorder.filterMap _

/-- Every recovery of a reading that gives a tree stands for one error node of the tree: in the order in which they
are made, the recoveries are the error nodes in postorder. -/
theorem Tree.read_recoveries {options : ReadOptions} {source : List Char} {tree : Tree}
    (read : Tree.read options source = .ok tree) :
    (Tree.trace options source).recoveries = tree.postorder.filterMap Node.recovery? ∧
      tree.recovered.Perm (Tree.trace options source).recoveries ∧
      ∀ surveys metadata,
        (Metadata.addTree surveys metadata tree).errorCount = (Tree.trace options source).recoveries.length := by
  have recorded := ((Tree.trace_records options source).of_outcome tree read).recoveries_eq
  have listed : (Tree.trace options source).recoveries = tree.postorder.filterMap Node.recovery? := by
    rw [Tree.postorder, List.filterMap_flatMap]
    exact recorded
  have perm : tree.recovered.Perm (Tree.trace options source).recoveries := by
    rw [listed]
    exact tree.recovered_perm
  refine ⟨listed, perm, ?_⟩
  intro surveys metadata
  rw [← perm.length_eq, recovered, List.length_map]
  rfl

set_option maxRecDepth 4000 in
theorem Tree.read_recoveries_sample :
    ∃ tree, Tree.read {} sampleTemplate = .ok tree ∧
      (Tree.trace {} sampleTemplate).recoveries = tree.postorder.filterMap Node.recovery? ∧
      tree.metadata.errorCount = 3 := by
  have three : (Tree.trace {} sampleTemplate).recoveries.length = 3 := by decide +kernel
  obtain ⟨tree, read⟩ := Tree.exists_read_sample
  obtain ⟨listed, _, counts⟩ := Tree.read_recoveries read
  exact ⟨tree, read, listed, (counts Survey.all {}).trans three⟩

end SigilTemplate
