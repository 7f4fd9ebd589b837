import SigilTemplate.Proofs.Tree.Preorder

/-!
What a node keeps of the source. Every fragment of a construct, and every span
of an arm or an argument in it, lies in the text of that construct; so all spans
of a tree lie in the source, with both ends between two of its characters.
-/

namespace SigilTemplate
open Text

/-- A place between two others is an offset of the text from the one to the other. -/
theorem Cursor.hasOffset_upTo {c x d : Cursor} (first : c ≤ x) (second : x ≤ d) : (c.upTo d).HasOffset x.pos := by
  have here : (x.upTo x).HasOffset x.pos := ⟨[], _, rfl, rfl⟩
  exact here.mono (Cursor.upTo_partOf_upTo first (le_refl x) second)

theorem Span.spanTo_within_upTo {c x y d : Cursor} (first : c ≤ x) (second : x ≤ y) (third : y ≤ d) :
    (x.spanTo y).Within (c.upTo d) :=
  ⟨Cursor.hasOffset_upTo first (second.trans third), Cursor.hasOffset_upTo (first.trans second) third,
    Cursor.pos_le second⟩

theorem Span.Within.widen {span : Span} {c x y d : Cursor} (within : span.Within (x.upTo y)) (first : c ≤ x)
    (second : x ≤ y) (third : y ≤ d) : span.Within (c.upTo d) :=
  within.mono (Cursor.upTo_partOf_upTo first second third)

/-- All that a form keeps of the source, apart from its children, lies in a part of it. -/
structure Form.Within {α : Type} (form : Form α) (part : Cursor) : Prop where
  fragment : ∀ fragment ∈ form.fragments, fragment.Within part
  span : ∀ span ∈ form.partSpans, span.Within part

theorem Form.Within.nothing {α : Type} {form : Form α} {part : Cursor} (fragments : form.fragments = [])
    (spans : form.partSpans = []) : form.Within part :=
  ⟨by simp [fragments], by simp [spans]⟩

theorem Form.Within.mono {α : Type} {form : Form α} {inner outer : Cursor} (within : form.Within inner)
    (part : inner.PartOf outer) : form.Within outer :=
  ⟨fun fragment member => (within.fragment fragment member).mono part,
    fun span member => (within.span span member).mono part⟩

/-! ## Directives -/

theorem DirectiveFrom.within {c after : Cursor} {directive : Directive Node} (read : DirectiveFrom c directive after) :
    ∀ fragment ∈ directive.fragments, fragment.Within (c.upTo after) := by
  cases read with
  | layout read => exact ((onward_layoutDirective c).of_ok read).2.within
  | useFile read => exact ((onward_useDirective c).of_ok read).2.within
  | includeFile read => exact ((onward_includeFile c).of_ok read).2.within
  | render read => exact ((onward_render c).of_ok read).2.within
  | renderBody read => exact ((onward_renderBody c).of_ok read).2.within
  | childContent read => exact ((onward_childContent c).of_ok read).2.within
  | sectionValue opens enclosed value =>
    exact (sectionValue?_flat (Code.enclosed_inner_partOf opens rfl enclosed) value).within
  | sectionBlock head block =>
    obtain ⟨later, name, _⟩ := (onward_sectionHead c).of_ok head
    intro fragment member
    obtain rfl := List.mem_singleton.mp member
    exact name.widen (le_refl c) later block.inOrder.1.le
  | raw opens closes =>
    obtain ⟨later, _⟩ := rawClose?_spec closes
    have start := (Cursor.le_skipBlank c).trans (Cursor.le_next c.skipBlank)
    intro fragment member
    obtain rfl := List.mem_singleton.mp member
    exact Fragment.between_within start later (Cursor.le_next _)
  | function head block =>
    obtain ⟨later, ⟨name, parameters⟩, _⟩ := (onward_functionHead _ c).of_ok head
    have ends := block.inOrder.1.le
    intro fragment member
    simp only [Directive.fragments, List.mem_cons, List.not_mem_nil, or_false] at member
    rcases member with rfl | rfl
    · exact name.widen (le_refl c) later ends
    · exact parameters.widen (le_refl c) later ends

/-! ## Statements -/

/-- The pattern of an arm and its span lie in its text. -/
theorem ArmFrom.within {c after : Cursor} {arm : Arm Node} (read : ArmFrom c arm after) :
    arm.pattern.Within (c.upTo after) ∧ arm.span.Within (c.upTo after) := by
  have pattern {arrow : Cursor} (at_ : ArrowAt c arrow) (ends : arrow.afterArrow ≤ after) :
      (Fragment.trimmed (c.upTo arrow)).Within (c.upTo after) :=
    (Fragment.trimmed_within _).widen (le_refl c) at_.le ((at_.lt.le.trans (Cursor.le_skipBlank _)).trans ends)
  have whole := Span.spanTo_within_upTo (le_refl c) read.inOrder.1.le (le_refl after)
  cases read with
  | block at_ block => exact ⟨pattern at_ block.inOrder.1.le, whole⟩
  | unbalanced at_ items _ ends => exact ⟨pattern at_ (items.lt_of_unbalanced ends).le, whole⟩
  | @inline arrow _ nodes _ _ _ at_ items _ _ _ =>
    have order := items.trimTail.1
    refine ⟨pattern at_ order.le, ?_⟩
    cases last : (trimTail nodes).getLast? with
    | none =>
      have arrowEnd := (Cursor.le_skipBlank (arrow.skip 2)).trans order.le
      exact Span.spanTo_within_upTo (le_refl c) (at_.le.trans at_.lt.le) arrowEnd
    | some node =>
      obtain ⟨x, y, first, lt, second, span⟩ := order.exists_spanTo (List.mem_of_getLast? last)
      have start := at_.lt_afterArrow.le.trans (first.trans lt.le)
      have stop : node.span.stop = y.pos := by rw [span, Cursor.spanTo]
      simp only [Option.map_some, Option.getD_some, stop]
      exact Span.spanTo_within_upTo (le_refl c) start second

theorem Arms.within {brace place : Cursor} {arms : List (Arm Node)} (between : Arms brace arms place) :
    ∀ arm ∈ arms, arm.pattern.Within (brace.upTo place) ∧ arm.span.Within (brace.upTo place) := by
  induction between with
  | start => simp
  | @more arms arm place after earlier next ih =>
    have before := earlier.inOrder.le
    have blank := Cursor.le_skipBlank place
    have taken := next.inOrder.1.le
    have comma := Cursor.le_getD_skipBlank_eat? ',' after
    intro other member
    rcases List.mem_append.mp member with among | last
    · obtain ⟨pattern, span⟩ := ih other among
      have onward := blank.trans (taken.trans comma)
      exact ⟨pattern.widen (le_refl brace) before onward, span.widen (le_refl brace) before onward⟩
    · obtain rfl := List.mem_singleton.mp last
      obtain ⟨pattern, span⟩ := next.within
      exact ⟨pattern.widen (before.trans blank) taken comma, span.widen (before.trans blank) taken comma⟩

theorem StatementFrom.within {keyword : Keyword} {c after : Cursor} {statement : Statement Node}
    (read : StatementFrom keyword c statement after) : Form.Within (.statement statement) (c.upTo after) := by
  have head {code : Fragment} {brace : Cursor} (ready : statementHead c = .ready code brace) (ends : brace ≤ after) :
      code.Within (c.upTo after) := by
    obtain ⟨later, _, rfl⟩ := statementHead_ready ready
    exact (Fragment.trimmed_within _).widen (le_refl c) later ends
  cases read with
  | conditional ready block tail =>
    have code := head ready (block.inOrder.1.le.trans tail.inOrder.le)
    exact ⟨by simpa [Form.fragments, Statement.fragments] using code, by simp [Form.partSpans]⟩
  | forLoop ready block =>
    have code := head ready block.inOrder.1.le
    exact ⟨by simpa [Form.fragments, Statement.fragments] using code, by simp [Form.partSpans]⟩
  | whileLoop ready block =>
    have code := head ready block.inOrder.1.le
    exact ⟨by simpa [Form.fragments, Statement.fragments] using code, by simp [Form.partSpans]⟩
  | @matchOn c brace place subject arms ready between closes =>
    have start := (statementHead_ready ready).1
    have order := between.inOrder.le
    have ends := (Cursor.le_skipBlank place).trans (Cursor.le_next place.skipBlank)
    have each (arm : Arm Node) (member : arm ∈ arms) := between.within arm member
    constructor
    · intro fragment member
      simp only [Form.fragments, Statement.fragments, List.mem_cons, List.mem_map] at member
      rcases member with rfl | ⟨arm, among, rfl⟩
      · exact head ready (order.trans ends)
      · exact (each arm among).1.widen start order ends
    · intro span member
      obtain ⟨arm, among, rfl⟩ := List.mem_map.mp member
      exact (each arm among).2.widen start order ends
  | continueLoop => exact .nothing rfl rfl
  | breakLoop => exact .nothing rfl rfl

/-! ## Components -/

theorem ValueFrom.within {c after : Cursor} {value : ArgumentValue Node} (read : ValueFrom c value after) :
    ∀ fragment ∈ value.fragments, fragment.Within (c.upTo after) := by
  cases read with
  | string read =>
    have text := ((onward_stringLiteral c).of_ok read).2
    simpa [ArgumentValue.fragments] using text
  | block block => simp [ArgumentValue.fragments]
  | expression _ lt span => simp [ArgumentValue.fragments]
  | constant word =>
    rcases constantValue?_eq word with rfl | rfl | ⟨text, rfl⟩ <;> simp [ArgumentValue.fragments]

/-- The name and the value of an attribute and its span lie in its text. -/
theorem AttributeFrom.within {c after : Cursor} {argument : Argument Node} (read : AttributeFrom c argument after) :
    (∀ fragment ∈ argument.fragments, fragment.Within (c.upTo after)) ∧ argument.span.Within (c.upTo after) := by
  have name := Cursor.le_skipWhile isAttributePart c
  cases read with
  | flag =>
    refine ⟨?_, Span.spanTo_within_upTo (le_refl c) name (le_refl _)⟩
    simpa [Argument.fragments, ArgumentValue.fragments] using Fragment.between_within (le_refl c) name (le_refl _)
  | valued sign reads =>
    have gap := (Cursor.le_skipBlank (c.skipWhile isAttributePart)).trans
      ((Cursor.lt_of_eat? sign).le.trans (Cursor.le_skipBlank _))
    have value := reads.inOrder.le
    refine ⟨List.forall_mem_cons.mpr ⟨?_, ?_⟩, ?_⟩
    · exact Fragment.between_within (le_refl c) name (gap.trans value)
    · intro fragment member
      exact (reads.within fragment member).widen (name.trans gap) value (le_refl after)
    · exact Span.spanTo_within_upTo (le_refl c) (name.trans (gap.trans value)) (le_refl after)

theorem Attributes.within {c place : Cursor} {arguments : List (Argument Node)} (attributes : Attributes c arguments place) :
    ∀ argument ∈ arguments,
      (∀ fragment ∈ argument.fragments, fragment.Within (c.upTo place)) ∧ argument.span.Within (c.upTo place) := by
  induction attributes with
  | start => simp
  | @more arguments argument place after earlier _ _ next ih =>
    have before := earlier.inOrder.le
    have blank := Cursor.le_skipBlank place
    have taken := next.inOrder.le
    intro other member
    rcases List.mem_append.mp member with among | last
    · obtain ⟨fragments, span⟩ := ih other among
      exact ⟨fun fragment member => (fragments fragment member).widen (le_refl c) before (blank.trans taken),
        span.widen (le_refl c) before (blank.trans taken)⟩
    · obtain rfl := List.mem_singleton.mp last
      obtain ⟨fragments, span⟩ := next.within
      exact ⟨fun fragment member => (fragments fragment member).widen (before.trans blank) taken (le_refl after),
        span.widen (before.trans blank) taken (le_refl after)⟩

/-- A component keeps its name and what its arguments keep. -/
theorem Form.Within.component {name : Fragment} {style : ComponentStyle} {arguments : List (Argument Node)}
    {body : List Node} {selfClosing : Bool} {part : Cursor} (name_ : name.Within part)
    (each : ∀ argument ∈ arguments, (∀ fragment ∈ argument.fragments, fragment.Within part) ∧ argument.span.Within part) :
    Form.Within (.component ⟨name, style, arguments, body, selfClosing⟩) part := by
  constructor
  · intro fragment member
    rcases List.mem_cons.mp member with rfl | member
    · exact name_
    · obtain ⟨argument, among, inside⟩ := List.mem_flatMap.mp member
      exact (each argument among).1 fragment inside
  · intro span member
    obtain ⟨argument, among, rfl⟩ := List.mem_map.mp member
    exact (each argument among).2

/-- The head of a tag, whatever its body and its end are. -/
theorem Attributes.tag_within {c place d : Cursor} {arguments : List (Argument Node)} {body : List Node}
    {selfClosing : Bool} (attributes : Attributes c.next.skipTagName arguments place) (last : place ≤ d) :
    Form.Within (.component ⟨.between c.next c.next.skipTagName, .tag, arguments, body, selfClosing⟩) (c.upTo d) := by
  have name := Cursor.le_skipTagName c.next
  have head := (Cursor.le_next c).trans name
  have order := attributes.inOrder.le
  apply Form.Within.component (Fragment.between_within (Cursor.le_next c) name (order.trans last))
  intro argument member
  obtain ⟨fragments, span⟩ := attributes.within argument member
  exact ⟨fun fragment among => (fragments fragment among).widen head order last, span.widen head order last⟩

/-! ## Constructs -/

/-- A construct keeps of the source what lies in its own text. -/
theorem Spells.within {c d : Cursor} {node : Node} (spells : Spells c node d) : node.form.Within (c.upTo d) := by
  cases spells with
  | comment => exact .nothing rfl rfl
  | codeBlock => exact .nothing rfl rfl
  | paren => exact .nothing rfl rfl
  | simple => exact .nothing rfl rfl
  | error => exact .nothing rfl rfl
  | parameters sigil opens enclosed entries ends =>
    have inside := (Code.enclosed_inner_partOf opens rfl enclosed).trans
      (Cursor.upTo_partOf_upTo sigil.lt.le (Code.lt_of_enclosed opens rfl enclosed).le
        ((Cursor.le_skipBlank _).trans (Cursor.lt_of_eat? ends).le))
    refine ⟨?_, by simp [Node.form, Form.partSpans]⟩
    intro fragment member
    obtain ⟨parameter, among, pair⟩ := List.mem_flatMap.mp member
    obtain ⟨name, type⟩ := templateParameters?_within entries parameter among
    simp only [List.mem_cons, List.not_mem_nil, or_false] at pair
    rcases pair with rfl | rfl
    · exact name.mono inside
    · exact type.mono inside
  | directive opens read =>
    refine ⟨?_, by simp [Node.form, Form.partSpans]⟩
    intro fragment member
    exact (read.within fragment member).widen opens.lt.le read.inOrder.le (le_refl d)
  | statement opens read =>
    exact read.within.mono (Cursor.upTo_partOf_upTo opens.lt.le read.inOrder.le (le_refl d))
  | @selfClosing place after arguments opens attributes ends =>
    exact attributes.tag_within ((Cursor.le_skipBlank place).trans (Cursor.le_of_reads (Cursor.reads_eatText? ends)))
  | @tag place inside close arguments mode state body opens attributes ends items closes same complete =>
    have opened := (Cursor.le_skipBlank place).trans (Cursor.lt_of_eat? ends).le
    exact attributes.tag_within (opened.trans (items.inOrder.le.trans (lt_readCloseTag closes).le))
  | @call after room fragment arguments body sigil opens enclosed entries block =>
    have name := Cursor.le_skipIdent c.next
    have head := (Cursor.le_next c).trans name
    have parens := (Code.lt_of_enclosed opens rfl enclosed).le
    have last := (Cursor.le_skipBlank fragment.after).trans block.inOrder.1.le
    have inside := (Code.enclosed_inner_partOf opens rfl enclosed).trans (Cursor.upTo_partOf_upTo head parens last)
    apply Form.Within.component (Fragment.between_within (Cursor.le_next c) name (parens.trans last))
    intro argument member
    obtain ⟨_, span, fragments⟩ := callArguments?_within entries argument member
    exact ⟨fun fragment among => (fragments fragment among).mono inside, span.mono inside⟩

/-! ## Trees -/

/-- The span of a node and those of what it keeps, apart from its children. -/
def Node.ownSpans (node : Node) : List Span :=
  node.span :: (node.form.fragments.map (·.span) ++ node.form.partSpans)

/-- All spans in a tree. -/
def Tree.spans (tree : Tree) : List Span := tree.preorder.flatMap Node.ownSpans

/-- All spans in a fault. -/
def Fault.spans (fault : Fault) : List Span := fault.span :: fault.related.toList

theorem Grown.within {source : List Char} {node : Node} (grown : Grown source node) :
    node.form.Within (Cursor.ofText source) := by
  cases grown with
  | text => exact .nothing rfl rfl
  | construct place spells _ =>
    exact spells.within.mono ((Cursor.upTo_partOf spells.inOrder.1.le).trans (Cursor.partOf_of_le place))

theorem Grown.ownSpans_within {source : List Char} {node : Node} (grown : Grown source node) :
    ∀ span ∈ node.ownSpans, span.Within (Cursor.ofText source) := by
  obtain ⟨c, d, place, lt, same, _⟩ := grown.exists_inOrder
  intro span member
  simp only [Node.ownSpans, List.mem_cons, List.mem_append, List.mem_map] at member
  rcases member with rfl | ⟨fragment, among, rfl⟩ | among
  · rw [same]
    exact Span.spanTo_within place lt.le
  · exact (grown.within.fragment fragment among).span
  · exact grown.within.span span among

/-- Both ends of every span of a tree that has been read are offsets of the source. -/
theorem Tree.Grown.spans_within {source : List Char} {tree : Tree} (grown : tree.Grown source) :
    ∀ span ∈ tree.spans, span.Within (Cursor.ofText source) := by
  intro span member
  obtain ⟨node, among, own⟩ := List.mem_flatMap.mp member
  exact (grown.of_mem_preorder node among).ownSpans_within span own

theorem Fault.Within.spans {source : List Char} {fault : Fault} (within : fault.Within source) :
    ∀ span ∈ fault.spans, span.Within (Cursor.ofText source) := by
  intro span member
  rcases List.mem_cons.mp member with rfl | related
  · exact within.1
  · exact within.2 span (Option.mem_toList.mp related)

end SigilTemplate
