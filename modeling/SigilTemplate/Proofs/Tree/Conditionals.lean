import Mathlib
import SigilTemplate.Proofs.Tree.Braces
import SigilTemplate.Proofs.Tree.Endings

/-!
An `else` belongs to the `if` right before it. Where a tree holds a condition
with what follows it, the word and the white space around it are all that the
source has between the two; where it holds a condition alone, the condition ends
with its block, and the source does not go on with an `else` that could follow.
-/

namespace SigilTemplate
open Text

/-! ## What can follow the block of a condition -/

/-- The text starts with the keyword `if`: white space, a parenthesis or a brace comes next. -/
def StartsIf (text : List Char) : Prop :=
  ∃ ch rest, text = 'i' :: 'f' :: ch :: rest ∧ (isBlank ch = true ∨ ch = '(' ∨ ch = '{')

/-- The text starts with an `else` and a block, or with an `else`, white space and another `if`. -/
def StartsElse (text : List Char) : Prop :=
  ∃ blanks after, text = ['e', 'l', 's', 'e'] ++ (blanks ++ after) ∧ blanks.all isBlank = true ∧
    (after.head? = some '{' ∨ blanks ≠ [] ∧ StartsIf after)

theorem StartsIf.head?_eq {text : List Char} (starts : StartsIf text) : text.head? = some 'i' := by
  obtain ⟨ch, rest, rfl, _⟩ := starts
  rfl

/-- The keyword is recognized just by its letters and the character after them. -/
theorem Keyword.recognize?_eq_ifBlock_iff {c : Cursor} : recognize? c.rest = some .ifBlock ↔ StartsIf c.rest := by
  constructor
  · intro found
    have reads := Cursor.reads_skipIdent c
    rw [identHead_of_recognize? found] at reads
    rw [recognize?_rest] at found
    have accepts := (Option.filter_eq_some_iff.mp found).2
    cases head : c.skipIdent.peek with
    | none => simp [head, follow, Follow.accepts] at accepts
    | some ch =>
      obtain ⟨rest, starts⟩ := Cursor.peek_eq_some.mp head
      refine ⟨ch, rest, by rw [reads.rest_eq, starts]; rfl, ?_⟩
      simpa [head, follow, Follow.accepts, or_assoc] using accepts
  · rintro ⟨ch, rest, starts, follows⟩
    have ends : isIdentPart ch = false := by
      rcases follows with blank | rfl | rfl
      · by_contra part
        rw [not_isBlank_of_isIdentPart (by simpa using part)] at blank
        simp at blank
      · decide
      · decide
    have name : identHead c.rest = ['i', 'f'] := by
      rw [starts, identHead, if_pos (by decide), List.takeWhile_cons_of_pos (by decide),
        List.takeWhile_cons_of_neg (by simp [ends])]
    have accepts : Follow.head.accepts (some ch) = true := by
      simpa [Follow.accepts, or_assoc] using follows
    have next : c.rest[(['i', 'f'] : List Char).length]? = some ch := by rw [starts]; rfl
    have word : ofWord? ['i', 'f'] = some .ifBlock := by decide
    rw [recognize?_rest, Cursor.peek_skipIdent, name, next, word]
    exact Option.filter_eq_some_iff.mpr ⟨rfl, accepts⟩

/-- Where reading finds nothing that could follow, the text does not start with it. -/
theorem not_startsElse {c : Cursor}
    (missing : ∀ afterElse, c.eatText? ['e', 'l', 's', 'e'] = some afterElse →
      afterElse.skipBlank.peek ≠ some '{' ∧ ¬(afterElse.pos < afterElse.skipBlank.pos ∧
        Keyword.recognize? afterElse.skipBlank.rest = some .ifBlock)) : ¬StartsElse c.rest := by
  rintro ⟨blanks, after, starts, blank, follows⟩
  have word := Cursor.eatText?_of_rest starts
  have reads := Cursor.reads_skip starts
  obtain ⟨notBlock, notIf⟩ := missing _ word
  generalize c.skip (['e', 'l', 's', 'e'] : List Char).length = afterElse at *
  have rest : afterElse.rest = blanks ++ after := List.append_cancel_left (reads.rest_eq.symm.trans starts)
  have solid : ∀ ch, after.head? = some ch → isBlank ch = false := by
    intro ch head
    rcases follows with brace | ⟨_, again⟩
    · obtain rfl := Option.some.inj (brace.symm.trans head)
      decide
    · obtain rfl := Option.some.inj (again.head?_eq.symm.trans head)
      decide
  have skipped : afterElse.skipBlank = ⟨afterElse.pos + byteLength blanks, after⟩ :=
    Cursor.skipWhile_eq_iff.mpr ⟨blanks, ⟨rest, rfl⟩, blank, solid⟩
  rw [skipped] at notBlock notIf
  rcases follows with brace | ⟨gap, again⟩
  · exact notBlock brace
  · refine notIf ⟨?_, Keyword.recognize?_eq_ifBlock_iff.mpr again⟩
    have := Cursor.byteLength_pos gap
    simp only
    omega

/-! ## The chained condition -/

/-- A construct starts with a sigil or with an angle bracket, unless it is a chained condition or was given up. -/
theorem Spells.head {c d : Cursor} {node : Node} (spells : Spells c node d) :
    c.peek = some '@' ∨ c.peek = some '<' ∨
      (∃ condition body otherwise, node.form = .statement (.conditional condition body otherwise)) ∨
      ∃ cause children, node.form = .error cause children := by
  have sigil {raw : Bool} {x : Cursor} (mark : SigilTo raw c x) : c.peek = some '@' := by
    cases raw <;> exact Cursor.peek_eq_some.mpr ⟨_, mark.rest_eq⟩
  cases spells with
  | comment opens => exact .inl (Cursor.peek_eq_some.mpr ⟨_, opens.rest_eq⟩)
  | codeBlock mark => exact .inl (sigil mark)
  | paren mark => exact .inl (sigil mark)
  | simple mark => exact .inl (sigil mark)
  | parameters mark => exact .inl (sigil mark)
  | @directive _ _ directive opens read =>
    generalize same : directive.keyword = keyword at opens
    cases opens with
    | sigil sigil => exact .inl (Cursor.peek_of_atSigil sigil)
    | chained => cases directive <;> simp [Directive.keyword] at same
  | statement opens read =>
    cases opens with
    | sigil sigil => exact .inl (Cursor.peek_of_atSigil sigil)
    | chained =>
      cases read with
      | conditional => exact .inr (.inr (.inl ⟨_, _, _, rfl⟩))
  | selfClosing opens => exact .inr (.inl (Cursor.peek_of_atTagOpen opens))
  | tag opens => exact .inr (.inl (Cursor.peek_of_atTagOpen opens))
  | call sigil => exact .inl (Cursor.peek_of_atSigil sigil)
  | error => exact .inr (.inr (.inr ⟨_, _, rfl⟩))

/-- What starts with an `if` and no sigil is a condition, or was given up as one. -/
theorem Grown.chained {source : List Char} {node : Node} {c after : Cursor} (grown : Grown source node)
    (place : Cursor.ofText source ≤ c) (next : StartsIf c.rest) (span : node.span = c.spanTo after)
    (other : ∀ content, node.form ≠ .text content) :
    (∃ condition body otherwise, node.form = .statement (.conditional condition body otherwise)) ∨
      ∃ cause children, node.form = .error cause children := by
  cases grown with
  | text => exact absurd rfl (other _)
  | @construct d _ _ start spells _ =>
    have here : d = c := Cursor.eq_of_pos_eq start place (congrArg Span.start (spells.inOrder.2.1.symm.trans span))
    have letter : d.peek = some 'i' := by rw [here]; exact next.head?_eq
    rcases spells.head with sigil | angle | form
    · simp [letter] at sigil
    · simp [letter] at angle
    · exact form

/-! ## Conditions in the source -/

/-- What the source has between the end of the block of a condition and the end of the condition. -/
inductive FollowedBy (source : List Char) (blockEnd : Nat) : Option (ElseClause Node) → Nat → Prop
  /-- The condition ends with its block, and what comes after any white space is no `else` that could follow. -/
  | nothing {rest : List Char} (ahead : slice? source ⟨blockEnd, byteLength source⟩ = some rest)
      (missing : ¬StartsElse (rest.dropWhile isBlank)) : FollowedBy source blockEnd none blockEnd
  /-- The word, perhaps with white space around it, and a block. -/
  | block {body : List Node} {before after : List Char} {start stop : Nat}
      (word : slice? source ⟨blockEnd, start⟩ = some (before ++ ['e', 'l', 's', 'e'] ++ after))
      (blank : before.all isBlank = true ∧ after.all isBlank = true) (delimited : DelimitedBody source body start stop) :
      FollowedBy source blockEnd (some (.block body)) (stop + 1)
  /-- The word, with white space after it, and a condition that may have been given up. -/
  | chained {node : Node} {before after rest : List Char}
      (word : slice? source ⟨blockEnd, node.span.start⟩ = some (before ++ ['e', 'l', 's', 'e'] ++ after))
      (blank : before.all isBlank = true ∧ after.all isBlank = true) (gap : after ≠ [])
      (ahead : slice? source ⟨node.span.start, byteLength source⟩ = some rest) (next : StartsIf rest)
      (form : (∃ condition body otherwise, node.form = .statement (.conditional condition body otherwise)) ∨
        ∃ cause children, node.form = .error cause children) :
      FollowedBy source blockEnd (some (.chained node)) node.span.stop

/-- The word and the white space around it. -/
theorem reads_else {c afterElse : Cursor} (word : c.skipBlank.eatText? ['e', 'l', 's', 'e'] = some afterElse) :
    ∃ before after, c.Reads (before ++ ['e', 'l', 's', 'e'] ++ after) afterElse.skipBlank ∧
      (before.all isBlank = true ∧ after.all isBlank = true) ∧ afterElse.Reads after afterElse.skipBlank := by
  obtain ⟨before, start, blank⟩ := Cursor.reads_skipBlank c
  obtain ⟨after, rest, further⟩ := Cursor.reads_skipBlank afterElse
  exact ⟨before, after, (start.trans (Cursor.reads_eatText? word)).trans rest, ⟨blank, further⟩, rest⟩

theorem Otherwise.followedBy {source : List Char} {c after : Cursor} {otherwise : Option (ElseClause Node)}
    (place : Cursor.ofText source ≤ c) (tail : Otherwise c otherwise after)
    (grown : ∀ node ∈ (otherwise.map ElseClause.nodes).getD [], Grown source node) :
    FollowedBy source c.pos otherwise after.pos := by
  cases tail with
  | none missing =>
    have absent := not_startsElse missing
    rw [Cursor.skipBlank, Cursor.rest_skipWhile] at absent
    exact .nothing (Cursor.slice?_rest place) absent
  | block word block =>
    obtain ⟨before, blanks, reads, blank, _⟩ := reads_else word
    obtain ⟨stop, delimited, ends⟩ := block.delimited_at (place.trans (Cursor.le_of_reads reads))
    rw [ends]
    exact .block (reads.slice?_eq place) blank delimited
  | @chained afterElse _ node word gap next lt span other =>
    obtain ⟨before, blanks, reads, blank, further⟩ := reads_else word
    have here := place.trans (Cursor.le_of_reads reads)
    have starts := Keyword.recognize?_eq_ifBlock_iff.mp next
    have form := (grown node (by simp [ElseClause.nodes])).chained here starts span other
    have start : node.span.start = afterElse.skipBlank.pos := by rw [span, Cursor.spanTo]
    have stop : node.span.stop = after.pos := by rw [span, Cursor.spanTo]
    have nonempty : blanks ≠ [] := by
      rintro rfl
      have same := further.pos_eq
      simp only [byteLength_nil, Nat.add_zero] at same
      omega
    rw [← stop]
    refine .chained ?_ blank nonempty ?_ starts form
    · rw [start]
      exact reads.slice?_eq place
    · rw [start]
      exact Cursor.slice?_rest here

/-- Between the code of a head and the `{` after it is only white space. -/
theorem blank_of_statementHead {source : List Char} {c brace : Cursor} {code : Fragment}
    (place : Cursor.ofText source ≤ c) (ready : statementHead c = .ready code brace) :
    ∃ blanks, slice? source ⟨code.span.stop, brace.pos⟩ = some blanks ∧ blanks.all isBlank = true := by
  obtain ⟨later, _, rfl⟩ := statementHead_ready ready
  obtain ⟨x, y, before, after, start, text, rest, _, blank, span⟩ := Fragment.reads_trimmed later
  refine ⟨after, ?_, blank⟩
  rw [span]
  exact rest.slice?_eq (place.trans ((Cursor.le_of_reads start).trans (Cursor.le_of_reads text)))

/-- An `else` goes to the `if` right before it. In every tree that has been read, the block of a condition stands between
braces right after its code, and what the condition goes on with is all that the source has between the end of the block
and the end of the condition. A condition without an `else` ends with its block, and no `else` that could follow is next. -/
theorem Tree.read_else_nearest {options : ReadOptions} {source : List Char} {tree : Tree}
    (read : Tree.read options source = .ok tree) :
    ∀ node ∈ tree.preorder, ∀ condition body otherwise,
      node.form = .statement (.conditional condition body otherwise) →
        ∃ start stop blanks, slice? source ⟨condition.span.stop, start⟩ = some blanks ∧ blanks.all isBlank = true ∧
          DelimitedBody source body start stop ∧ FollowedBy source (stop + 1) otherwise node.span.stop := by
  intro node member condition body otherwise form
  have grown := (Tree.read_grown read).of_mem_preorder node member
  have below := grown.children
  cases grown with
  | text => simp [Node.form] at form
  | @construct c d _ place spells _ =>
    cases spells with
    | statement opens read =>
      obtain rfl := Form.statement.inj form
      have onward := place.trans opens.lt.le
      cases read with
      | @conditional _ brace middle _ _ _ _ ready block tail =>
        have opened := onward.trans (statementHead_ready ready).1
        obtain ⟨blanks, gap, blank⟩ := blank_of_statementHead onward ready
        obtain ⟨stop, delimited, ends⟩ := block.delimited_at opened
        refine ⟨brace.pos, stop, blanks, gap, blank, delimited, ?_⟩
        rw [← ends]
        refine tail.followedBy (opened.trans block.inOrder.1.le) fun child among => below child ?_
        exact List.mem_append_right _ among
    | _ => simp [Node.form] at form

/-- The inner `else` goes to the inner `if`, the outer one to the outer `if`; the longer word goes to neither. -/
theorem Tree.read_else_nearest_sample :
    ∃ tree, Tree.read {} "@if a \x7b@if b \x7b\x7d else \x7bx\x7d\x7d else if c \x7b\x7d elsewhere".toList = .ok tree ∧
      ∃ node ∈ tree.preorder, ∃ condition body otherwise,
        node.form = .statement (.conditional condition body otherwise) ∧ otherwise.isSome = true ∧
          ∃ start stop blanks,
            slice? "@if a \x7b@if b \x7b\x7d else \x7bx\x7d\x7d else if c \x7b\x7d elsewhere".toList
              ⟨condition.span.stop, start⟩ = some blanks ∧ blanks.all isBlank = true ∧
            DelimitedBody "@if a \x7b@if b \x7b\x7d else \x7bx\x7d\x7d else if c \x7b\x7d elsewhere".toList body start stop ∧
            FollowedBy "@if a \x7b@if b \x7b\x7d else \x7bx\x7d\x7d else if c \x7b\x7d elsewhere".toList
              (stop + 1) otherwise node.span.stop := by
  have read : Tree.read {} "@if a \x7b@if b \x7b\x7d else \x7bx\x7d\x7d else if c \x7b\x7d elsewhere".toList =
      .ok ⟨[⟨.statement (.conditional ⟨"a", ⟨4, 5⟩⟩
          [⟨.statement (.conditional ⟨"b", ⟨11, 12⟩⟩ [] (some (.block [⟨.text "x", ⟨22, 23⟩⟩]))), ⟨7, 24⟩⟩]
          (some (.chained ⟨.statement (.conditional ⟨"c", ⟨34, 35⟩⟩ [] none), ⟨31, 38⟩⟩))), ⟨0, 38⟩⟩,
        ⟨.text " elsewhere", ⟨38, 48⟩⟩],
        "@if a \x7b@if b \x7b\x7d else \x7bx\x7d\x7d else if c \x7b\x7d elsewhere".toList, 0⟩ := by cbv
  have root (node : Node) : node ∈ node.preorder := by
    rw [Node.preorder_eq]
    exact List.mem_cons_self
  exact ⟨_, read, _, List.mem_flatMap.mpr ⟨_, List.mem_cons_self, root _⟩, _, _, _, rfl, rfl,
    Tree.read_else_nearest read _ (List.mem_flatMap.mpr ⟨_, List.mem_cons_self, root _⟩) _ _ _ rfl⟩

end SigilTemplate
