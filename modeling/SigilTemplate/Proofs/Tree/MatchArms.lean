import Mathlib
import SigilTemplate.Proofs.Tree.Conditionals

/-!
The arms of a match fill the place between its braces. In every tree that has
been read, the first of them comes after white space only, and behind each one
there is white space with one comma at most. An arm is written as its pattern,
an arrow and its body, and nothing of the body stands before the arrow or
beyond the arm; where the body is not a block, no white space is left at its
two ends.
-/

namespace SigilTemplate
open Text

/-! ## Gaps -/

/-- White space with one comma at most. -/
def IsSeparator (text : List Char) : Prop :=
  ∃ before comma after, text = before ++ (comma ++ after) ∧ (comma = [] ∨ comma = [',']) ∧
    before.all isBlank = true ∧ after.all isBlank = true

/-- White space around a separator belongs to it. -/
theorem IsSeparator.surround {first text second : List Char} (separator : IsSeparator text)
    (before : first.all isBlank = true) (after : second.all isBlank = true) : IsSeparator (first ++ (text ++ second)) := by
  obtain ⟨left, comma, right, rfl, sign, leftBlank, rightBlank⟩ := separator
  refine ⟨first ++ left, comma, right ++ second, by simp, sign, ?_, ?_⟩
  · rw [List.all_append, before, leftBlank, Bool.and_self]
  · rw [List.all_append, rightBlank, after, Bool.and_self]

/-- A comma after white space is taken along if it is there. -/
theorem Cursor.reads_separator (c : Cursor) : ∃ text, c.Reads text ((c.skipBlank.eat? ',').getD c) ∧ IsSeparator text := by
  cases found : c.skipBlank.eat? ',' with
  | none => exact ⟨[], .refl c, [], [], [], rfl, .inl rfl, rfl, rfl⟩
  | some after =>
    obtain ⟨blanks, reads, blank⟩ := Cursor.reads_skipBlank c
    exact ⟨blanks ++ [','], reads.trans (Cursor.reads_eat? found), blanks, [','], [], rfl, .inr rfl, blank, rfl⟩

/-! ## The ends of an inline body -/

/-- Where the nodes begin or end with text, it does not begin or end with white space. -/
structure SolidEnds (nodes : List Node) : Prop where
  first : ∀ content span, nodes.head? = some ⟨.text content, span⟩ →
    ∀ ch, content.toList.head? = some ch → isBlank ch = false
  last : ∀ content span, nodes.getLast? = some ⟨.text content, span⟩ →
    ∀ ch, content.toList.getLast? = some ch → isBlank ch = false

section

variable {mode : TextMode} {c d : Cursor} {nodes : List Node} {state : TextState} {content : String} {span : Span}

/-- A text that comes first is read from the start. -/
theorem Items.reads_head (items : Items mode c nodes state d) (first : nodes.head? = some ⟨.text content, span⟩) :
    ∃ x, c.Reads (escape content.toList) x := by
  induction items with
  | start => simp at first
  | @text nodes state x items atText ih =>
    cases nodes with
    | nil =>
      obtain rfl := items.of_nil.1
      obtain ⟨rfl, _⟩ : String.ofList (textRun mode state x).content = content ∧ _ := by simpa using first
      exact ⟨_, by simpa using reads_textRun mode state x⟩
    | cons node rest => exact ih (by simpa using first)
  | @construct nodes state x e node items _ _ _ other ih =>
    cases nodes with
    | nil =>
      obtain rfl : node = ⟨.text content, span⟩ := by simpa using first
      exact absurd rfl (other content)
    | cons node rest => exact ih (by simpa using first)

/-- Trimming shortens the last text, and leaves it out if nothing else is in it. -/
theorem exists_of_head?_trimTail (first : (trimTail nodes).head? = some ⟨.text content, span⟩) :
    ∃ whole blanks outer, nodes.head? = some ⟨.text whole, outer⟩ ∧ whole.toList = content.toList ++ blanks := by
  induction nodes using List.reverseRecOn with
  | nil => simp [trimTail] at first
  | append_singleton rest node _ =>
    cases rest with
    | cons other rest =>
      have same : (trimTail (other :: rest ++ [node])).head? = some other := by
        obtain ⟨form, inner⟩ := node
        cases form with
        | text written =>
          rw [trimTail_append_text]
          split <;> rfl
        | _ => rw [trimTail_append_other _ (by simp [Node.form])]; rfl
      obtain rfl := Option.some.inj (same.symm.trans first)
      exact ⟨content, [], span, rfl, by simp⟩
    | nil =>
      obtain ⟨form, inner⟩ := node
      cases form with
      | text written =>
        rw [trimTail_append_text] at first
        obtain ⟨blanks, split, _⟩ := exists_trimEnd_append written.toList
        split at first
        · simp at first
        · obtain ⟨rfl, _⟩ : String.ofList (trimEnd written.toList) = content ∧ _ := by simpa using first
          exact ⟨written, blanks, inner, rfl, by simpa using split⟩
      | _ =>
        rw [trimTail_append_other _ (by simp [Node.form])] at first
        simp at first

/-- A body that starts at no white space and is trimmed at its end has solid ends. -/
theorem Items.solidEnds (items : Items mode c nodes state d) (solid : ∀ ch, c.peek = some ch → isBlank ch = false) :
    SolidEnds (SigilTemplate.trimTail nodes) := by
  constructor
  · intro content span first ch head
    obtain ⟨whole, blanks, outer, before, longer⟩ := exists_of_head?_trimTail first
    obtain ⟨x, reads⟩ := items.reads_head before
    obtain ⟨rest, starts⟩ := List.head?_eq_some_iff.mp head
    apply solid
    rw [longer, starts, List.cons_append, escape_cons] at reads
    by_cases sigil : ch = '@'
    · subst sigil
      exact Cursor.peek_eq_some.mpr ⟨_, reads.rest_eq⟩
    · rw [escape_singleton sigil] at reads
      exact Cursor.peek_eq_some.mpr ⟨_, reads.rest_eq⟩
  · intro content span last ch ends
    cases items with
    | start => simp [SigilTemplate.trimTail] at last
    | @text nodes state x items atText =>
      rw [trimTail_append_text] at last
      split at last
      · -- A text that is left out uncovers no other text, since text goes on as long as it can.
        exact absurd atText (items.not_atText last)
      · obtain ⟨rfl, _⟩ : String.ofList (trimEnd (textRun mode state x).content) = content ∧ _ := by simpa using last
        exact not_isBlank_of_getLast?_trimEnd (by simpa using ends)
    | construct _ _ _ _ other =>
      rw [trimTail_append_other _ other] at last
      obtain rfl : _ = (⟨.text content, span⟩ : Node) := by simpa using last
      exact absurd rfl (other content)

/-- A trimmed body leaves nothing out up to the white space at its end. -/
theorem Items.trimTail_tile (items : Items mode c nodes state d) :
    ∃ x blanks, c ≤ x ∧ x.Reads blanks d ∧ blanks.all isBlank = true ∧
      SpansTile c.pos ((SigilTemplate.trimTail nodes).map (·.span)) x.pos := by
  have whole := items.spans_tile
  cases items with
  | start => exact ⟨c, [], le_refl c, .refl c, rfl, whole⟩
  | construct items _ lt span other =>
    rw [trimTail_append_other _ other]
    exact ⟨d, [], items.inOrder.le.trans lt.le, .refl d, rfl, whole⟩
  | @text nodes state y items atText =>
    obtain ⟨x, blanks, first, second, blank, cut⟩ := exists_reads_trimEnd (reads_textRun mode state y)
    rw [trimTail_append_text, String.toList_ofList]
    simp only [Cursor.spanTo, cut]
    split
    · next empty =>
      have nothing : trimEnd (textRun mode state y).content = [] := by simpa using empty
      rw [nothing] at first
      obtain rfl := Cursor.reads_nil first
      exact ⟨y, blanks, items.inOrder.le, second, blank, items.spans_tile⟩
    · next nonempty =>
      have solid : trimEnd (textRun mode state y).content ≠ [] := by simpa using nonempty
      have lt : y < x := Cursor.lt_of_reads first fun empty => solid (escape_eq_nil empty)
      refine ⟨x, blanks, items.inOrder.le.trans lt.le, second, blank, ?_⟩
      rw [List.map_append]
      exact items.spans_tile.append ⟨rfl, Cursor.pos_lt lt, rfl⟩

end

/-! ## One arm -/

/-- How an arm is written in the source. -/
structure Arm.WrittenIn (arm : Arm Node) (source : List Char) : Prop where
  pattern : arm.pattern.text ≠ ""
  /-- The arm is its pattern, an arrow perhaps with white space before it, and what follows; its nodes stand in order
  between the arrow and the end of the arm. -/
  text : ∃ blanks rest, slice? source arm.span = some (arm.pattern.text.toList ++ blanks ++ ['=', '>'] ++ rest) ∧
    blanks.all isBlank = true ∧
    SpansOrdered (arm.span.start + byteLength (arm.pattern.text.toList ++ blanks ++ ['=', '>']))
      (arm.body.nodes.map (·.span)) arm.span.stop
  ends : ∀ nodes, arm.body = .inline nodes → SolidEnds nodes

theorem SpansTile.stop_eq {start stop : Nat} {nodes : List Node} (tile : SpansTile start (nodes.map (·.span)) stop) :
    (nodes.getLast?.map (·.span.stop)).getD start = stop := by
  induction nodes generalizing start with
  | nil => exact tile
  | cons node rest ih =>
    have further := ih tile.2.2
    cases rest with
    | nil => exact further
    | cons next rest =>
      rw [List.getLast?_cons_cons, List.getLast?_cons]
      rw [List.getLast?_cons] at further
      exact further

/-- The body of an arm stands in order behind the arrow, and the arm ends with it, before white space at most. -/
theorem ArmFrom.exists_stop {c after : Cursor} {arm : Arm Node} (read : ArmFrom c arm after) :
    ∃ arrow stop blanks, ArrowAt c arrow ∧ arm.pattern = .trimmed (c.upTo arrow) ∧ arrow.skip 2 ≤ stop ∧
      arm.span = c.spanTo stop ∧ stop.Reads blanks after ∧ blanks.all isBlank = true ∧
      SpansOrdered (arrow.skip 2).pos (arm.body.nodes.map (·.span)) stop.pos ∧
      ∀ nodes, arm.body = .inline nodes → SolidEnds nodes := by
  cases read with
  | @block arrow _ body pattern block =>
    have gap : arrow.skip 2 ≤ arrow.afterArrow := Cursor.le_skipBlank _
    refine ⟨arrow, after, [], pattern, rfl, gap.trans block.inOrder.1.le, rfl, .refl after, rfl, ?_, by simp⟩
    exact (block.inOrder.2.widen gap (le_refl after)).spansOrdered
  | @unbalanced arrow _ nodes _ _ pattern items _ ends =>
    have gap : arrow.skip 2 ≤ arrow.afterArrow := Cursor.le_skipBlank _
    have lt := items.lt_of_unbalanced ends
    refine ⟨arrow, after, [], pattern, rfl, gap.trans lt.le, rfl, .refl after, rfl, ?_, ?_⟩
    · exact ((InOrder.single lt rfl).widen gap (le_refl after)).spansOrdered
    · rintro _ ⟨rfl⟩
      exact ⟨by simp, by simp⟩
  | @inline arrow _ nodes _ _ _ pattern items =>
    obtain ⟨blanks, skipped, white⟩ := Cursor.reads_skipBlank (arrow.skip 2)
    obtain ⟨x, further, le, reads, blank, tile⟩ := items.trimTail_tile
    have ends : ∀ body, ArmBody.inline (trimTail nodes) = .inline body → SolidEnds body := by
      rintro _ ⟨rfl⟩
      exact items.solidEnds fun ch => Cursor.eq_false_of_peek_skipWhile
    cases kept : trimTail nodes with
    | nil =>
      -- Nothing is left of the body, and the arm ends with its arrow.
      rw [kept] at tile ends
      have here : x.pos = arrow.afterArrow.pos := tile.symm
      obtain rfl : arrow.afterArrow = x := by
        by_contra different
        have := Cursor.pos_lt (lt_of_le_of_ne le different)
        omega
      refine ⟨arrow, arrow.skip 2, blanks ++ further, pattern, rfl, le_refl _, rfl, skipped.trans reads, ?_, ?_, ends⟩
      · rw [List.all_append, white, blank, Bool.and_self]
      · exact Nat.le_refl _
    | cons node rest =>
      rw [kept] at tile ends
      have stop : ((node :: rest).getLast?.map (·.span.stop)).getD (arrow.skip 2).pos = x.pos := by
        have same := tile.stop_eq
        rw [List.getLast?_cons] at same ⊢
        exact same
      refine ⟨arrow, x, further, pattern, rfl, (Cursor.le_skipBlank _).trans le, ?_, reads, blank, ?_, ends⟩
      · simp only [stop, Cursor.spanTo]
      · have order := tile.spansOrdered
        exact ⟨(Cursor.pos_le (Cursor.le_skipBlank _)).trans order.1, order.2⟩

/-- An arm that starts at no white space starts with its pattern. -/
theorem ArmFrom.writtenIn {source : List Char} {c after : Cursor} {arm : Arm Node} (place : Cursor.ofText source ≤ c)
    (solid : ∀ ch, c.peek = some ch → isBlank ch = false) (read : ArmFrom c arm after) :
    arm.WrittenIn source ∧ ∃ stop blanks, c < stop ∧ arm.span = c.spanTo stop ∧ stop.Reads blanks after ∧
      blanks.all isBlank = true := by
  obtain ⟨arrow, stop, last, pattern, same, onward, span, ends, white, order, solidEnds⟩ := read.exists_stop
  obtain ⟨x, y, before, blanks, start, text, gap, first, blank, _⟩ := Fragment.reads_trimmed pattern.le
  have whole := (start.trans text).trans gap
  have solidStart : before = [] := by
    cases before with
    | nil => rfl
    | cons ch more =>
      have white : isBlank ch = true := by
        rw [List.all_cons, Bool.and_eq_true] at first
        exact first.1
      rw [solid ch (Cursor.peek_eq_some.mpr ⟨_, start.rest_eq⟩)] at white
      simp at white
  subst solidStart
  rw [← same] at whole text
  rw [List.nil_append] at whole
  have head := whole.trans pattern.reads
  obtain ⟨rest, further⟩ := onward
  refine ⟨⟨?_, ⟨blanks, rest, ?_, blank, ?_⟩, solidEnds⟩, stop, last, ?_, span, ends, white⟩
  · intro empty
    have nothing := pattern.2
    rw [whole.textTo_eq, empty] at nothing
    simp [blank] at nothing
  · rw [span]
    exact (head.trans further).slice?_eq place
  · rw [span]
    simp only [Cursor.spanTo]
    rw [← head.pos_eq]
    exact order
  · exact (pattern.le.trans_lt pattern.lt).trans_le ⟨rest, further⟩

/-! ## All arms of a match -/

/-- Arms with all that stands around them between two offsets: a first gap of the given kind, and separators after. -/
def ArmsBetween (source : List Char) (first : List Char → Prop) (start : Nat) : List (Arm Node) → Nat → Prop
  | [], stop => ∃ gap, slice? source ⟨start, stop⟩ = some gap ∧ first gap
  | arm :: rest, stop => (∃ gap, slice? source ⟨start, arm.span.start⟩ = some gap ∧ first gap) ∧
      ArmsBetween source IsSeparator arm.span.stop rest stop

theorem ArmsBetween.append {source : List Char} {first : List Char → Prop} {start stop : Nat} {arms : List (Arm Node)}
    {arm : Arm Node} (before : ArmsBetween source first start arms arm.span.start)
    (after : ∃ gap, slice? source ⟨arm.span.stop, stop⟩ = some gap ∧ IsSeparator gap) :
    ArmsBetween source first start (arms ++ [arm]) stop := by
  induction arms generalizing first start with
  | nil => exact ⟨before, after⟩
  | cons earlier rest ih => exact ⟨before.1, ih before.2⟩

/-- Where there is a slice, its span is not reversed. -/
theorem le_of_slice? {source text : List Char} {span : Span} (found : slice? source span = some text) :
    span.start ≤ span.stop := by
  unfold slice? at found
  split at found
  · assumption
  · simp at found

theorem Arm.WrittenIn.start_lt {source : List Char} {arm : Arm Node} (written : arm.WrittenIn source) :
    arm.span.start < arm.span.stop := by
  obtain ⟨blanks, rest, _, _, order⟩ := written.text
  have le := order.le
  have arrow : byteLength ['=', '>'] = 2 := by decide
  rw [byteLength_append, arrow] at le
  omega

/-- Arms with gaps between them are in order and disjoint. -/
theorem ArmsBetween.spansOrdered {source : List Char} {first : List Char → Prop} {start stop : Nat}
    {arms : List (Arm Node)} (between : ArmsBetween source first start arms stop)
    (written : ∀ arm ∈ arms, arm.WrittenIn source) : SpansOrdered start (arms.map (·.span)) stop := by
  induction arms generalizing first start with
  | nil =>
    obtain ⟨gap, found, _⟩ := between
    exact le_of_slice? found
  | cons arm rest ih =>
    obtain ⟨⟨gap, found, _⟩, further⟩ := between
    exact ⟨le_of_slice? found, (written arm (by simp)).start_lt, ih further fun other among => written other (by simp [among])⟩

/-- The arms that have been read, up to any white space after them. -/
theorem Arms.between {source : List Char} {brace place : Cursor} {arms : List (Arm Node)}
    (opener : Cursor.ofText source ≤ brace) (read : Arms brace arms place) :
    (∀ arm ∈ arms, arm.WrittenIn source) ∧
      ∀ d blanks, place.Reads blanks d → blanks.all isBlank = true →
        ArmsBetween source (·.all isBlank = true) brace.next.pos arms d.pos := by
  induction read with
  | start =>
    have start := opener.trans (Cursor.le_next brace)
    exact ⟨by simp, fun d blanks reads blank => ⟨blanks, reads.slice?_eq start, blank⟩⟩
  | @more arms arm place after earlier next ih =>
    obtain ⟨written, between⟩ := ih
    obtain ⟨skipped, reads, white⟩ := Cursor.reads_skipBlank place
    have here := opener.trans (earlier.inOrder.le.trans (Cursor.le_skipBlank place))
    obtain ⟨own, stop, last, lt, span, ends, blank⟩ := next.writtenIn here fun ch => Cursor.eq_false_of_peek_skipWhile
    have start : arm.span.start = place.skipBlank.pos := by rw [span, Cursor.spanTo]
    constructor
    · intro other member
      rcases List.mem_append.mp member with among | same
      · exact written other among
      · obtain rfl := List.mem_singleton.mp same
        exact own
    · intro d blanks further clear
      obtain ⟨text, separates, separator⟩ := Cursor.reads_separator after
      have gap := ends.trans (separates.trans further)
      refine ArmsBetween.append ?_ ⟨last ++ (text ++ blanks), ?_, separator.surround blank clear⟩
      · rw [start]
        exact between _ skipped reads white
      · rw [span]
        exact gap.slice?_eq (here.trans lt.le)

/-- The arms of a match between the brace at one offset of the source and the brace at another. -/
structure DelimitedArms (source : List Char) (arms : List (Arm Node)) (start stop : Nat) : Prop where
  opens : slice? source ⟨start, start + 1⟩ = some ['{']
  ordered : SpansOrdered (start + 1) (arms.map (·.span)) stop
  /-- Before the first arm there is white space, and after each arm white space with one comma at most. -/
  covers : ArmsBetween source (·.all isBlank = true) (start + 1) arms stop
  closes : slice? source ⟨stop, stop + 1⟩ = some ['}']

/-- Match arms tile the body of their match: in every tree that has been read, the arms of a match stand in order
between a `{` right after the subject and the `}` that ends the match, with white space and single commas around them,
and each is written as its pattern, an arrow and its body. -/
theorem Tree.read_arms_tile {options : ReadOptions} {source : List Char} {tree : Tree}
    (read : Tree.read options source = .ok tree) :
    ∀ node ∈ tree.preorder, ∀ subject arms, node.form = .statement (.matchOn subject arms) →
      (∀ arm ∈ arms, arm.WrittenIn source) ∧
        ∃ start stop blanks, node.span.start < start ∧ node.span.stop = stop + 1 ∧ DelimitedArms source arms start stop ∧
          slice? source ⟨subject.span.stop, start⟩ = some blanks ∧ blanks.all isBlank = true := by
  intro node member subject arms form
  have grown := (Tree.read_grown read).of_mem_preorder node member
  cases grown with
  | text => simp [Node.form] at form
  | @construct c d _ place spells _ =>
    cases spells with
    | statement opens read =>
      obtain rfl := Form.statement.inj form
      have onward := place.trans opens.lt.le
      cases read with
      | @matchOn _ brace last _ _ ready arms_ closes =>
        obtain ⟨later, brace_, _⟩ := statementHead_ready ready
        have opener := onward.trans later
        obtain ⟨blanks, gap, blank⟩ := blank_of_statementHead onward ready
        obtain ⟨written, between⟩ := arms_.between opener
        obtain ⟨skipped, reads, white⟩ := Cursor.reads_skipBlank last
        have first := Cursor.reads_next_of_peek brace_
        have second := Cursor.reads_next_of_peek closes
        have after : brace.next.pos = brace.pos + 1 := first.pos_eq
        have beyond : last.skipBlank.next.pos = last.skipBlank.pos + 1 := second.pos_eq
        have covers := between _ skipped reads white
        rw [after] at covers
        refine ⟨written, brace.pos, last.skipBlank.pos, blanks, Cursor.pos_lt (opens.lt.trans_le later), beyond,
          ⟨?_, covers.spansOrdered written, covers, ?_⟩, gap, blank⟩
        · rw [← after]
          exact first.slice?_eq opener
        · rw [← beyond]
          exact second.slice?_eq (opener.trans (arms_.inOrder.le.trans (Cursor.le_skipBlank last)))
    | _ => simp [Node.form] at form

/-- An inline body, a block, and a body without nodes. -/
theorem Tree.read_arms_tile_sample :
    ∃ tree, Tree.read {} "@match x \x7b A => a b , B(c) => \x7b y \x7d D =>, \x7d".toList = .ok tree ∧
      ∃ node ∈ tree.preorder, ∃ subject arms, node.form = .statement (.matchOn subject arms) ∧ arms.length = 3 ∧
        (∀ arm ∈ arms, arm.WrittenIn "@match x \x7b A => a b , B(c) => \x7b y \x7d D =>, \x7d".toList) ∧
        ∃ start stop blanks, node.span.start < start ∧ node.span.stop = stop + 1 ∧
          DelimitedArms "@match x \x7b A => a b , B(c) => \x7b y \x7d D =>, \x7d".toList arms start stop ∧
          slice? "@match x \x7b A => a b , B(c) => \x7b y \x7d D =>, \x7d".toList ⟨subject.span.stop, start⟩ = some blanks ∧
          blanks.all isBlank = true := by
  have read : Tree.read {} "@match x \x7b A => a b , B(c) => \x7b y \x7d D =>, \x7d".toList =
      .ok ⟨[⟨.statement (.matchOn ⟨"x", ⟨7, 8⟩⟩
        [⟨⟨"A", ⟨11, 12⟩⟩, .inline [⟨.text "a b", ⟨16, 19⟩⟩], ⟨11, 19⟩⟩,
          ⟨⟨"B(c)", ⟨22, 26⟩⟩, .block [⟨.text " y ", ⟨31, 34⟩⟩], ⟨22, 35⟩⟩,
          ⟨⟨"D", ⟨36, 37⟩⟩, .inline [], ⟨36, 40⟩⟩]), ⟨0, 43⟩⟩],
        "@match x \x7b A => a b , B(c) => \x7b y \x7d D =>, \x7d".toList, 0⟩ := by cbv
  have root (node : Node) : node ∈ node.preorder := by
    rw [Node.preorder_eq]
    exact List.mem_cons_self
  exact ⟨_, read, _, List.mem_flatMap.mpr ⟨_, List.mem_cons_self, root _⟩, _, _, rfl, rfl,
    Tree.read_arms_tile read _ (List.mem_flatMap.mpr ⟨_, List.mem_cons_self, root _⟩) _ _ rfl⟩

end SigilTemplate
