import SigilTemplate.Proofs.Reading.Attempt
import SigilTemplate.Proofs.Reading.Grammar

/-!
The order that the rules keep. Whatever stands between two places by the rules,
its nodes are there in document order, and none of them is empty; a construct
takes at least a character.
-/

namespace SigilTemplate
open Text

/-! ## Nodes in order -/

namespace InOrder

theorem le {c d : Cursor} {nodes : List Node} (order : InOrder c nodes d) : c ≤ d := by
  induction order with
  | nil le => exact le
  | cons le lt _ _ ih => exact le.trans (lt.le.trans ih)

theorem widen {c x y d : Cursor} {nodes : List Node} (order : InOrder x nodes y) (before : c ≤ x)
    (after : y ≤ d) : InOrder c nodes d := by
  induction order generalizing c with
  | nil le => exact .nil (before.trans (le.trans after))
  | cons le lt span _ ih => exact .cons (before.trans le) lt span (ih (le_refl _) after)

theorem append {c x d : Cursor} {first second : List Node} (left : InOrder c first x)
    (right : InOrder x second d) : InOrder c (first ++ second) d := by
  induction left with
  | nil le => exact right.widen le (le_refl d)
  | cons le lt span _ ih => exact .cons le lt span (ih right)

theorem single {c d : Cursor} {node : Node} (lt : c < d) (span : node.span = c.spanTo d) : InOrder c [node] d :=
  .cons (le_refl c) lt span (.nil (le_refl d))

/-- Every node stands between its own two places. -/
theorem exists_spanTo {c d : Cursor} {nodes : List Node} (order : InOrder c nodes d) {node : Node}
    (member : node ∈ nodes) : ∃ x y, c ≤ x ∧ x < y ∧ y ≤ d ∧ node.span = x.spanTo y := by
  induction order with
  | nil => simp at member
  | @cons c x y d first rest le lt span order ih =>
    rcases List.mem_cons.mp member with rfl | among
    · exact ⟨x, y, le, lt, order.le, span⟩
    · obtain ⟨x', y', before, less, after, same⟩ := ih among
      exact ⟨x', y', le.trans (lt.le.trans before), less, after, same⟩

end InOrder

/-! ## Regions -/

theorem armState?_eq_none_iff {state : TextState} {ch : Char} {rest : List Char} :
    armState? state ch rest = none ↔ ch = ',' ∧ state.expected.isEmpty = true := by
  unfold armState?
  by_cases round : ch = '('
  · simp [round]
  · by_cases square : ch = '['
    · simp [square]
    · by_cases closes : ch = ')' ∨ ch = ']'
      · rcases closes with rfl | rfl <;> simp
      · by_cases comma : ch = ','
        · simp [comma]
        · by_cases quote : ch = '"'
          · simp [quote]
          · simp [round, square, closes, comma, quote]

/-- Outside of strings, a character is no text exactly where it ends the region. -/
theorem plainState?_eq_none_iff {mode : TextMode} {state : TextState} {ch : Char} {rest : List Char}
    (outside : state.inString = false) :
    plainState? mode state ch rest = none ↔ ∃ stop, endAt? mode state ch = some stop := by
  unfold plainState? endAt?
  by_cases free : mode = .free
  · simp [free]
  · by_cases closes : ch = '}'
    · cases expected : state.expected with
      | nil => simp [free, outside, closes, TextState.closes, expected]
      | cons first outer =>
        by_cases same : first = '}'
        · simp [free, outside, closes, TextState.closes, expected, same]
        · simp [free, outside, closes, TextState.closes, expected, same]
    · by_cases opens : ch = '{'
      · simp [free, outside, opens]
      · cases mode with
        | free => exact absurd rfl free
        | braced => simp [outside, closes, opens]
        | arm => simp [outside, closes, opens, armState?_eq_none_iff]

/-- A construct starts at a `<` that opens or closes a tag and at an `@` that is not doubled. -/
theorem Cursor.atConstruct_iff {c : Cursor} {ch : Char} {rest : List Char} (starts : c.rest = ch :: rest) :
    c.AtConstruct ↔
      (ch = '<' ∧ (opensTag rest = true ∨ closesTag rest = true)) ∨ (ch = '@' ∧ rest.head? ≠ some '@') := by
  have onward : c.next.rest = rest := by simp [Cursor.next, starts]
  have double : c.atEscape = true ↔ ch = '@' ∧ rest.head? = some '@' := by
    rw [Cursor.atEscape, Cursor.startsWith, starts]
    cases rest <;> simp [@eq_comm _ '@']
  have single : (!c.atEscape) = true ↔ ¬(ch = '@' ∧ rest.head? = some '@') := by
    rw [Bool.not_eq_true', ← Bool.not_eq_true, double]
  simp only [Cursor.AtConstruct, Cursor.atTagClose, Cursor.atTagOpen, Cursor.atSigil, Cursor.peek, starts, onward,
    List.head?_cons, Bool.and_eq_true, beq_iff_eq, Option.some.injEq, single]
  grind

/-- Markup goes on as text unless the text ends, a construct starts or the region ends. -/
theorem textUnit?_eq_none_iff {mode : TextMode} {state : TextState} {c : Cursor} :
    textUnit? mode state c.rest = none ↔
      c.peek = none ∨ c.AtConstruct ∨ ∃ ch stop, c.peek = some ch ∧ endAt? mode state ch = some stop := by
  cases starts : c.rest with
  | nil => simp [textUnit?, Cursor.peek, starts]
  | cons ch rest =>
    have head : c.peek = some ch := Cursor.peek_eq_some.mpr ⟨rest, starts⟩
    rw [textUnit?.eq_def, Cursor.atConstruct_iff starts]
    simp only [head, Option.some.injEq, reduceCtorEq, false_or]
    by_cases sigil : ch = '@'
    · subst sigil
      cases rest with
      | nil => simp
      | cons second after =>
        by_cases double : second = '@'
        · simp [double, endAt?]
        · simp [double]
    · by_cases tag : ch = '<' ∧ (opensTag rest = true ∨ closesTag rest = true)
      · simp [tag]
      · rw [if_neg sigil, if_neg tag]
        by_cases inside : state.inString = true
        · simp [inside, sigil, tag, endAt?]
        · have outside : state.inString = false := by simpa using inside
          simp [inside, sigil, tag, plainState?_eq_none_iff outside]

/-- A run of text has a first unit just where markup goes on. -/
theorem isSome_textUnit?_iff {mode : TextMode} {state : TextState} {c : Cursor} :
    (textUnit? mode state c.rest).isSome = true ↔ AtText mode state c := by
  rw [Option.isSome_iff_ne_none, Ne, textUnit?_eq_none_iff, AtText]
  cases head : c.peek with
  | none => simp
  | some ch =>
    cases ends : endAt? mode state ch with
    | none => simp [ends]
    | some stop => simp [ends]

/-- A run of text is empty just where the text ends, a construct starts or the region ends. -/
theorem lt_textRun_iff {mode : TextMode} {state : TextState} {c : Cursor} :
    c < (textRun mode state c).after ↔ AtText mode state c := by
  rw [← isSome_textUnit?_iff]
  cases found : textUnit? mode state c.rest with
  | some unit => simp [lt_textRun found]
  | none => simp [textRun_after_eq found]

theorem lt_textRun_of_atText {mode : TextMode} {state : TextState} {c : Cursor} (atText : AtText mode state c) :
    c < (textRun mode state c).after :=
  lt_textRun_iff.mpr atText

theorem Items.inOrder {mode : TextMode} {c d : Cursor} {nodes : List Node} {state : TextState}
    (items : Items mode c nodes state d) : InOrder c nodes d := by
  induction items with
  | start => exact .nil (le_refl c)
  | text _ atText ih => exact ih.append (.single (lt_textRun_of_atText atText) rfl)
  | construct _ _ lt span _ ih => exact ih.append (.single lt span)

/-- Behind a text no text goes on. -/
theorem Items.not_atText {mode : TextMode} {c d : Cursor} {nodes : List Node} {state : TextState} {content : String}
    {span : Span} (items : Items mode c nodes state d) (last : nodes.getLast? = some ⟨.text content, span⟩) :
    ¬AtText mode state d := by
  cases items with
  | start => simp at last
  | @text _ state x items atText =>
    rw [← isSome_textUnit?_iff, textUnit?_textRun]
    simp
  | construct _ _ _ _ other =>
    obtain rfl : _ = (⟨.text content, span⟩ : Node) := by simpa using last
    exact absurd rfl (other content)

/-- Items without a node have not moved on, and their text has opened nothing. -/
theorem Items.of_nil {mode : TextMode} {c d : Cursor} {state : TextState} (items : Items mode c [] state d) :
    d = c ∧ state = {} := by
  generalize none : ([] : List Node) = nodes at items
  cases items with
  | start => exact ⟨rfl, rfl⟩
  | text | construct => simp at none

theorem Block.inOrder {brace after : Cursor} {body : List Node} (block : Block brace body after) :
    brace < after ∧ InOrder brace body after := by
  cases block with
  | closed opens items _ closes =>
    have order := items.inOrder
    refine ⟨(Cursor.lt_next opens).trans_le (order.le.trans (Cursor.le_next _)), ?_⟩
    exact order.widen (Cursor.le_next brace) (Cursor.le_next _)

/-! ## Arms -/

/-- A text node between two places of which the first reads how the content is written. -/
def IsTextFrom (c : Cursor) (node : Node) (d : Cursor) : Prop :=
  ∃ x y content, c ≤ x ∧ x < y ∧ y ≤ d ∧ node = ⟨.text content, x.spanTo y⟩ ∧ x.Reads (escape content.toList) y

theorem trimTail_append_text (nodes : List Node) (content : String) (span : Span) :
    trimTail (nodes ++ [⟨.text content, span⟩]) =
      if (trimEnd content.toList).isEmpty then nodes
      else nodes ++ [⟨.text (String.ofList (trimEnd content.toList)),
        ⟨span.start, span.stop - (byteLength content.toList - byteLength (trimEnd content.toList))⟩⟩] := by
  simp only [trimTail, List.getLast?_append, List.getLast?_singleton, Option.some_or, List.dropLast_concat]

theorem trimTail_append_other (nodes : List Node) {node : Node} (other : ∀ content, node.form ≠ .text content) :
    trimTail (nodes ++ [node]) = nodes ++ [node] := by
  unfold trimTail
  split
  · next content span last =>
    have same : node = ⟨.text content, span⟩ := by simpa using last
    exact absurd (by rw [same]; rfl) (other content)
  · rfl

/-- Without the white space at its end, a body is in order still, and only its last text has changed. -/
theorem Items.trimTail {mode : TextMode} {c d : Cursor} {nodes : List Node} {state : TextState}
    (items : Items mode c nodes state d) :
    InOrder c (trimTail nodes) d ∧ ∀ node ∈ SigilTemplate.trimTail nodes, node ∈ nodes ∨ IsTextFrom c node d := by
  cases items with
  | start => exact ⟨.nil (le_refl c), by simp [SigilTemplate.trimTail]⟩
  | construct items _ lt span other =>
    rw [trimTail_append_other _ other]
    exact ⟨items.inOrder.append (.single lt span), fun node member => .inl member⟩
  | @text nodes state x items atText =>
    have order := items.inOrder
    have later := lt_textRun_of_atText atText
    obtain ⟨y, blanks, first, second, _, cut⟩ := exists_reads_trimEnd (reads_textRun mode state x)
    rw [trimTail_append_text, String.toList_ofList]
    simp only [Cursor.spanTo, cut]
    split
    · exact ⟨order.widen (le_refl c) later.le, fun node member => .inl (by simp [member])⟩
    · next nonempty =>
      have solid : trimEnd (textRun mode state x).content ≠ [] := by simpa using nonempty
      have lt : x < y := Cursor.lt_of_reads first fun empty => solid (escape_eq_nil empty)
      constructor
      · exact order.append ((InOrder.single lt rfl).widen (le_refl x) (Cursor.le_of_reads second))
      · intro node member
        rcases List.mem_append.mp member with among | last
        · exact .inl (List.mem_append_left _ among)
        · refine .inr ⟨x, y, String.ofList (trimEnd (textRun mode state x).content), order.le, lt,
            Cursor.le_of_reads second, List.mem_singleton.mp last, ?_⟩
          simpa using first

theorem ArrowAt.le {c arrow : Cursor} (pattern : ArrowAt c arrow) : c ≤ arrow := (Code.patternEnd_arrow pattern.1).1

theorem ArrowAt.reads {c arrow : Cursor} (pattern : ArrowAt c arrow) : arrow.Reads ['=', '>'] (arrow.skip 2) := by
  obtain ⟨_, here⟩ := Code.patternEnd_arrow pattern.1
  obtain ⟨rest, starts⟩ := Cursor.startsWith_iff.mp here
  exact Cursor.reads_skip starts

theorem ArrowAt.lt {c arrow : Cursor} (pattern : ArrowAt c arrow) : arrow < arrow.skip 2 :=
  Cursor.lt_of_reads pattern.reads (by simp)

theorem ArrowAt.lt_afterArrow {c arrow : Cursor} (pattern : ArrowAt c arrow) : c < arrow.afterArrow :=
  pattern.le.trans_lt (pattern.lt.trans_le (Cursor.le_skipBlank _))

/-- Text that has opened a delimiter is not empty. -/
theorem Items.lt_of_unbalanced {c d : Cursor} {nodes : List Node} {state : TextState} {expected : Char}
    (items : Items .arm c nodes state d) (ends : endAt? .arm state '}' = some (.unbalanced expected)) : c < d := by
  cases items with
  | start => simp [endAt?] at ends
  | text items atText => exact items.inOrder.le.trans_lt (lt_textRun_of_atText atText)
  | construct items _ lt _ _ => exact items.inOrder.le.trans_lt lt

theorem ArmFrom.inOrder {c after : Cursor} {arm : Arm Node} (read : ArmFrom c arm after) :
    c < after ∧ InOrder c arm.body.nodes after := by
  cases read with
  | block pattern block =>
    obtain ⟨lt, order⟩ := block.inOrder
    exact ⟨pattern.lt_afterArrow.trans lt, order.widen pattern.lt_afterArrow.le (le_refl after)⟩
  | inline pattern items _ _ _ =>
    have order := items.trimTail.1
    exact ⟨pattern.lt_afterArrow.trans_le order.le, order.widen pattern.lt_afterArrow.le (le_refl after)⟩
  | unbalanced pattern items head ends =>
    have lt := items.lt_of_unbalanced ends
    exact ⟨pattern.lt_afterArrow.trans lt, (InOrder.single lt rfl).widen pattern.lt_afterArrow.le (le_refl after)⟩

theorem armNodes_append (first second : List (Arm Node)) :
    armNodes (first ++ second) = armNodes first ++ armNodes second := by
  simp [armNodes]

theorem Arms.inOrder {brace place : Cursor} {arms : List (Arm Node)} (between : Arms brace arms place) :
    InOrder brace (armNodes arms) place := by
  induction between with
  | start => exact .nil (Cursor.le_next brace)
  | @more arms arm place after earlier next ih =>
    obtain ⟨_, order⟩ := next.inOrder
    have ends := Cursor.le_getD_skipBlank_eat? ',' after
    rw [armNodes_append]
    refine ih.append (InOrder.widen ?_ (Cursor.le_skipBlank place) ends)
    simpa [armNodes] using order

/-! ## Statements, directives and tags -/

theorem Opens.lt {keyword : Keyword} {c place : Cursor} (opens : Opens keyword c place) : c < place := by
  cases opens with
  | sigil sigil word =>
    exact (Cursor.lt_next (Cursor.peek_of_atSigil sigil)).trans_le (Cursor.le_skipIdent _)
  | chained word =>
    cases starts : c.rest with
    | nil =>
      rw [starts] at word
      exact absurd word (by decide)
    | cons ch rest =>
      have head : c.peek = some ch := Cursor.peek_eq_some.mpr ⟨rest, starts⟩
      exact (Cursor.lt_next head).trans_le (Cursor.le_next c.next)

theorem Otherwise.inOrder {c after : Cursor} {otherwise : Option (ElseClause Node)}
    (tail : Otherwise c otherwise after) : InOrder c ((otherwise.map ElseClause.nodes).getD []) after := by
  cases tail with
  | none => exact .nil (le_refl c)
  | block word block =>
    have start := (Cursor.le_skipBlank c).trans (Cursor.le_of_reads (Cursor.reads_eatText? word))
    exact block.inOrder.2.widen (start.trans (Cursor.le_skipBlank _)) (le_refl after)
  | chained word _ _ lt span _ =>
    have start := (Cursor.le_skipBlank c).trans (Cursor.le_of_reads (Cursor.reads_eatText? word))
    exact (InOrder.single lt span).widen (start.trans (Cursor.le_skipBlank _)) (le_refl after)

theorem StatementFrom.inOrder {keyword : Keyword} {c after : Cursor} {statement : Statement Node}
    (read : StatementFrom keyword c statement after) : InOrder c statement.children after := by
  cases read with
  | conditional head block tail =>
    exact (block.inOrder.2.widen (statementHead_ready head).1 (le_refl _)).append tail.inOrder
  | forLoop head block => exact block.inOrder.2.widen (statementHead_ready head).1 (le_refl after)
  | whileLoop head block => exact block.inOrder.2.widen (statementHead_ready head).1 (le_refl after)
  | matchOn head between closes =>
    have ends := (Cursor.le_skipBlank _).trans (Cursor.lt_next closes).le
    exact between.inOrder.widen (statementHead_ready head).1 ends
  | continueLoop => exact .nil (le_refl c)
  | breakLoop => exact .nil (le_refl c)

/-- A directive has a block, or no nodes at all. -/
theorem DirectiveFrom.inOrder {c after : Cursor} {directive : Directive Node}
    (read : DirectiveFrom c directive after) : InOrder c directive.children after := by
  have flat {keyword : Keyword} {d : Cursor} (attempt : c ≤ d ∧ directive.Flat keyword c d) :
      InOrder c directive.children d := by
    rw [attempt.2.leaf]
    exact .nil attempt.1
  cases read with
  | layout read => exact flat ((onward_layoutDirective c).of_ok read)
  | useFile read => exact flat ((onward_useDirective c).of_ok read)
  | includeFile read => exact flat ((onward_includeFile c).of_ok read)
  | render read => exact flat ((onward_render c).of_ok read)
  | renderBody read => exact flat ((onward_renderBody c).of_ok read)
  | childContent read => exact flat ((onward_childContent c).of_ok read)
  | sectionValue opens enclosed value =>
    have inside := Code.enclosed_inner_partOf opens rfl enclosed
    exact flat ⟨(Code.lt_of_enclosed opens rfl enclosed).le, sectionValue?_flat inside value⟩
  | sectionBlock head block =>
    exact block.inOrder.2.widen ((onward_sectionHead c).of_ok head).1 (le_refl after)
  | raw opens closes =>
    obtain ⟨after, _⟩ := rawClose?_spec closes
    have start := (Cursor.le_skipBlank c).trans (Cursor.le_next c.skipBlank)
    exact .nil (start.trans (after.trans (Cursor.le_next _)))
  | function head block =>
    exact block.inOrder.2.widen ((onward_functionHead _ c).of_ok head).1 (le_refl after)

/-- A constant is a truth value or a number. -/
theorem constantValue?_eq {word : List Char} {value : ArgumentValue Node} (found : constantValue? word = some value) :
    value = .bool true ∨ value = .bool false ∨ ∃ text, value = .number text := by
  simp only [constantValue?] at found
  split at found
  · exact .inl (Option.some.inj found).symm
  · split at found
    · exact .inr (.inl (Option.some.inj found).symm)
    · split at found
      · exact .inr (.inr ⟨_, (Option.some.inj found).symm⟩)
      · simp at found

theorem constantValue?_nodes {word : List Char} {value : ArgumentValue Node} (found : constantValue? word = some value) :
    value.nodes = [] := by
  rcases constantValue?_eq found with rfl | rfl | ⟨text, rfl⟩ <;> rfl

theorem ValueFrom.inOrder {c after : Cursor} {value : ArgumentValue Node} (read : ValueFrom c value after) :
    InOrder c value.nodes after := by
  cases read with
  | string read => exact .nil ((onward_stringLiteral c).of_ok read).1
  | block block => exact block.inOrder.2
  | expression _ lt span => exact .single lt span
  | constant word =>
    rw [constantValue?_nodes word]
    exact .nil (Cursor.le_skipWhile _ c)

theorem AttributeFrom.inOrder {c after : Cursor} {argument : Argument Node} (read : AttributeFrom c argument after) :
    InOrder c argument.value.nodes after := by
  cases read with
  | flag => exact .nil (Cursor.le_skipWhile _ c)
  | valued sign reads =>
    have start := (Cursor.le_skipWhile isAttributePart c).trans
      ((Cursor.le_skipBlank _).trans ((Cursor.lt_of_eat? sign).le.trans (Cursor.le_skipBlank _)))
    exact reads.inOrder.widen start (le_refl after)

theorem argumentNodes_append (first second : List (Argument Node)) :
    argumentNodes (first ++ second) = argumentNodes first ++ argumentNodes second := by
  simp [argumentNodes]

theorem Attributes.inOrder {c place : Cursor} {arguments : List (Argument Node)}
    (attributes : Attributes c arguments place) : InOrder c (argumentNodes arguments) place := by
  induction attributes with
  | start => exact .nil (le_refl c)
  | @more arguments argument place after earlier _ _ next ih =>
    rw [argumentNodes_append]
    refine ih.append (InOrder.widen ?_ (Cursor.le_skipBlank place) (le_refl after))
    simpa [argumentNodes] using next.inOrder

/-! ## Constructs -/

theorem SigilTo.lt {raw : Bool} {c d : Cursor} (sigil : SigilTo raw c d) : c < d := by
  apply Cursor.lt_of_reads sigil
  cases raw <;> simp

theorem callArguments?_nodes {part : Cursor} {arguments : List (Argument Node)}
    (found : callArguments? part = some arguments) : argumentNodes arguments = [] := by
  rw [argumentNodes, List.flatMap_eq_nil_iff]
  intro argument member
  exact (callArguments?_within found argument member).1

/-- The attributes of a tag and what its body holds so far are in order from its `<`. -/
theorem Items.tag_inOrder {c place inside d : Cursor} {arguments : List (Argument Node)} {mode : TextMode}
    {state : TextState} {body : List Node} (items : Items mode inside body state d) (opens : c.atTagOpen = true)
    (attributes : Attributes c.next.skipTagName arguments place) (ends : place.skipBlank.eat? '>' = some inside) :
    c < d ∧ InOrder c (argumentNodes arguments ++ body) d := by
  have name := (Cursor.lt_next (Cursor.peek_of_atTagOpen opens)).trans_le (Cursor.le_skipTagName c.next)
  have head := attributes.inOrder
  have bracket := (Cursor.le_skipBlank place).trans_lt (Cursor.lt_of_eat? ends)
  have order := items.inOrder
  exact ⟨name.trans (head.le.trans_lt (bracket.trans_le order.le)), (head.widen name.le bracket.le).append order⟩

/-- A construct takes at least a character, its span is what it takes, and its children are in order there. -/
theorem Spells.inOrder {c d : Cursor} {node : Node} (spells : Spells c node d) :
    c < d ∧ node.span = c.spanTo d ∧ InOrder c node.children d := by
  cases spells with
  | comment opens closes =>
    have lt := Cursor.lt_of_reads opens (by simp)
    have le := (Cursor.le_of_commentClose? closes).trans (Cursor.le_skip 2 _)
    exact ⟨lt.trans_le le, rfl, .nil (lt.le.trans le)⟩
  | codeBlock sigil opens enclosed =>
    have lt := sigil.lt.trans (Code.lt_of_enclosed opens rfl enclosed)
    exact ⟨lt, rfl, .nil lt.le⟩
  | paren sigil opens enclosed =>
    have lt := sigil.lt.trans (Code.lt_of_enclosed opens rfl enclosed)
    exact ⟨lt, rfl, .nil lt.le⟩
  | simple sigil read =>
    have lt := sigil.lt.trans (Code.chain?_ok read)
    exact ⟨lt, rfl, .nil lt.le⟩
  | parameters sigil opens enclosed entries ends =>
    have lt := sigil.lt.trans ((Code.lt_of_enclosed opens rfl enclosed).trans_le
      ((Cursor.le_skipBlank _).trans (Cursor.lt_of_eat? ends).le))
    exact ⟨lt, rfl, .nil lt.le⟩
  | directive opens read =>
    have order := read.inOrder
    exact ⟨opens.lt.trans_le order.le, rfl, order.widen opens.lt.le (le_refl d)⟩
  | statement opens read =>
    have order := read.inOrder
    exact ⟨opens.lt.trans_le order.le, rfl, order.widen opens.lt.le (le_refl d)⟩
  | selfClosing opens attributes ends =>
    have start := (Cursor.lt_next (Cursor.peek_of_atTagOpen opens)).trans_le (Cursor.le_skipTagName c.next)
    have order := attributes.inOrder
    have onward := (Cursor.le_skipBlank _).trans (Cursor.le_of_reads (Cursor.reads_eatText? ends))
    refine ⟨start.trans_le (order.le.trans onward), rfl, ?_⟩
    exact (order.widen start.le onward).append (.nil (le_refl d))
  | tag opens attributes ends items closes _ _ =>
    obtain ⟨lt, order⟩ := items.tag_inOrder opens attributes ends
    have last := lt_readCloseTag closes
    exact ⟨lt.trans last, rfl, order.widen (le_refl c) last.le⟩
  | call sigil opens enclosed entries block =>
    have start := (Cursor.lt_next (Cursor.peek_of_atSigil sigil)).trans_le (Cursor.le_skipIdent c.next)
    have opener := start.trans_le ((Code.lt_of_enclosed opens rfl enclosed).le.trans (Cursor.le_skipBlank _))
    obtain ⟨lt, order⟩ := block.inOrder
    refine ⟨opener.trans lt, rfl, ?_⟩
    have none := callArguments?_nodes entries
    simp only [Node.children, Node.form, Form.children, none, List.nil_append]
    exact order.widen opener.le (le_refl d)
  | error lt order => exact ⟨lt, rfl, order⟩

theorem Spells.form_ne_text {c d : Cursor} {node : Node} (spells : Spells c node d) (content : String) :
    node.form ≠ .text content := by
  cases spells <;> simp [Node.form]

end SigilTemplate
