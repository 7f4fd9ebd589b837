import SigilTemplate.Proofs.Markup.Keyword
import SigilTemplate.Proofs.Markup.TagName
import SigilTemplate.Proofs.Tree.Postorder
import SigilTemplate.Proofs.Tree.Spelling

/-!
How constructs end. A construct in which nothing was given up has at least two
characters, and the last of them is no backslash: it is a delimiter, a quote or
part of a name. So a reader that takes a backslash and the next character
together, and that starts somewhere before a construct, does not cross its end.
-/

namespace SigilTemplate
open Text

/-- What stands between two places does not end with a backslash. -/
def Cursor.EndsPlain (c d : Cursor) : Prop := ∃ text, c.Reads text d ∧ text.getLast? ≠ some '\\'

section

variable {source : List Char} {c d e : Cursor} {ch : Char} {text : List Char}

namespace Cursor

theorem EndsPlain.refl (c : Cursor) : c.EndsPlain c := ⟨[], .refl c, by simp⟩

theorem EndsPlain.le (plain : c.EndsPlain d) : c ≤ d := by
  obtain ⟨text, reads, _⟩ := plain
  exact ⟨text, reads⟩

theorem EndsPlain.trans (first : c.EndsPlain d) (second : d.EndsPlain e) : c.EndsPlain e := by
  obtain ⟨text, reads, ends⟩ := first
  obtain ⟨more, further, last⟩ := second
  refine ⟨text ++ more, reads.trans further, ?_⟩
  rw [List.getLast?_append]
  cases same : more.getLast? with
  | none => simpa using ends
  | some ch => simpa [same] using last

/-- Only what is at the end counts. -/
theorem EndsPlain.of_le (le : c ≤ d) (lt : d < e) (plain : d.EndsPlain e) : c.EndsPlain e := by
  obtain ⟨before, first⟩ := le
  obtain ⟨text, reads, ends⟩ := plain
  have nonempty : text ≠ [] := by
    rintro rfl
    exact lt.ne (reads_nil reads)
  refine ⟨before ++ text, first.trans reads, ?_⟩
  rwa [List.getLast?_append, List.getLast?_eq_some_getLast nonempty, Option.some_or,
    ← List.getLast?_eq_some_getLast nonempty]

theorem EndsPlain.of_reads (reads : c.Reads text d) (ends : text.getLast? = some ch) (plain : ch ≠ '\\') :
    c.EndsPlain d :=
  ⟨text, reads, by simpa [ends] using plain⟩

theorem EndsPlain.next (head : c.peek = some ch) (plain : ch ≠ '\\') : c.EndsPlain c.next :=
  .of_reads (reads_next_of_peek head) rfl plain

theorem EndsPlain.eat? (found : c.eat? ch = some d) (plain : ch ≠ '\\') : c.EndsPlain d :=
  .of_reads (reads_eat? found) rfl plain

/-- What may follow ends plainly if it is there. -/
theorem EndsPlain.getD_inlineBlank_eat? (plain : ch ≠ '\\') (c : Cursor) :
    c.EndsPlain ((c.skipInlineBlank.eat? ch).getD c) := by
  cases found : c.skipInlineBlank.eat? ch with
  | none => exact .refl c
  | some after => exact .of_le (le_skipInlineBlank c) (lt_of_eat? found) (.eat? found plain)

theorem EndsPlain.skipWhile {p : Char → Bool} (plain : p '\\' = false) (c : Cursor) : c.EndsPlain (c.skipWhile p) := by
  refine ⟨_, reads_skipWhile p c, fun last => ?_⟩
  have holds := List.all_eq_true.mp List.all_takeWhile _ (List.mem_of_getLast? last)
  simp [plain] at holds

theorem EndsPlain.skipIdent (c : Cursor) : c.EndsPlain c.skipIdent := by
  cases starts : c.rest with
  | nil =>
    have stays : c.skipIdent = c := by simp [Cursor.skipIdent, starts]
    rw [stays]
    exact .refl c
  | cons ch rest =>
    simp only [Cursor.skipIdent, starts]
    split
    · next start =>
      have plain : ch ≠ '\\' := by
        rintro rfl
        exact absurd start (by decide)
      exact (EndsPlain.next (peek_eq_some.mpr ⟨rest, starts⟩) plain).trans (.skipWhile (by decide) _)
    · exact .refl c

/-- Two places of one source with the same offset are the same. -/
theorem eq_of_pos_eq (first : ofText source ≤ c) (second : ofText source ≤ d) (same : c.pos = d.pos) : c = d := by
  obtain ⟨text, reads⟩ := first
  obtain ⟨more, further⟩ := second
  have length : byteLength text = byteLength more := by
    have left := reads.pos_eq
    have right := further.pos_eq
    omega
  obtain ⟨gap, rfl, rest⟩ := exists_append_of_byteLength_le (reads.rest_eq.symm.trans further.rest_eq) (Nat.le_of_eq length)
  have empty : gap = [] := by
    by_contra nonempty
    have := byteLength_pos nonempty
    rw [byteLength_append] at length
    omega
  subst empty
  cases c
  cases d
  simp_all

end Cursor

/-! ## Code -/

theorem Code.endsPlain_enclosed {limit : Nat} {found : Enclosed} (head : c.peek = some ch)
    (opens : isOpener ch = true) (ok : enclosed limit c = .ok found) : c.EndsPlain found.after := by
  obtain ⟨close, after, closer, rfl⟩ := enclosed_ok head opens ok
  have plain : closerOf ch ≠ '\\' := by
    unfold closerOf
    split <;> decide
  exact .of_le ((Cursor.le_next c).trans after) (Cursor.lt_next closer) (.next closer plain)

theorem Code.endsPlain_named? {link : String → Segment} {segment : Segment} (found : named? link c = some (segment, d)) :
    c.EndsPlain d := by
  unfold named? at found
  split at found
  · simp at found
  · obtain ⟨_, rfl⟩ := Prod.mk.inj (Option.some.inj found)
    exact .skipIdent c

theorem Code.endsPlain_delimited? {link : String → Segment} {limit : Nat} {segment : Segment} (head : c.peek = some ch)
    (opens : isOpener ch = true) (found : delimited? link limit c = .ok (some (segment, d))) : c.EndsPlain d := by
  unfold delimited? at found
  split at found
  · next inside ok =>
    obtain ⟨_, rfl⟩ := Prod.mk.inj (Option.some.inj (Except.ok.inj found))
    exact endsPlain_enclosed head opens ok
  · simp at found

theorem Code.endsPlain_segment? {limit : Nat} {segment : Segment} (found : segment? limit c = .ok (some (segment, d))) :
    c.EndsPlain d := by
  have word : ∀ {link x}, c ≤ x → named? link x = some (segment, d) → c.EndsPlain d := fun le here =>
    .of_le le (named?_spec here) (endsPlain_named? here)
  unfold segment? at found
  split at found
  · exact word (Cursor.le_next c) (Except.ok.inj found)
  · exact word ((Cursor.le_next c).trans (Cursor.le_next _)) (Except.ok.inj found)
  · exact word (Cursor.le_next c) (Except.ok.inj found)
  · next starts => exact endsPlain_delimited? (Cursor.peek_eq_some.mpr ⟨_, starts⟩) rfl found
  · next starts => exact endsPlain_delimited? (Cursor.peek_eq_some.mpr ⟨_, starts⟩) rfl found
  · simp at found

theorem Code.endsPlain_segmentsFrom {limit : Nat} {done segments : List Segment}
    (found : segmentsFrom limit done c = .ok (segments, d)) : c.EndsPlain d := by
  fun_induction segmentsFrom limit done c with
  | case1 => simp at found
  | case2 =>
    obtain ⟨_, rfl⟩ := Prod.mk.inj (Except.ok.inj found)
    exact .refl _
  | case3 done c segment after link ih => exact (endsPlain_segment? link).trans (ih found)

theorem Code.endsPlain_chain? {limit : Nat} {chain : Chain} (found : chain? limit c = .ok (some chain)) :
    c.EndsPlain chain.after := by
  obtain ⟨_, _, name, links, _⟩ := exists_of_chain?_eq_some found
  have first := Cursor.EndsPlain.of_le (Cursor.le_skipWhile _ c) (named?_spec name) (endsPlain_named? name)
  exact first.trans (endsPlain_segmentsFrom links)

/-! ## Attempts -/

theorem endsPlain_expect (ok : expect ch c = .ok d) (plain : ch ≠ '\\') : c.EndsPlain d :=
  .eat? (eat?_of_expect ok) plain

theorem endsPlain_stringLiteral {value : Fragment} (ok : stringLiteral c = .ok (value, d)) : c.EndsPlain d := by
  unfold stringLiteral at ok
  split at ok
  · next quote rest starts =>
    split at ok
    · next isQuote =>
      split at ok
      · next close closes =>
        obtain ⟨_, rfl⟩ := Prod.mk.inj (Except.ok.inj ok)
        obtain ⟨inside, reads, more, mark⟩ := Code.reads_findQuote? closes
        have head : close.peek = some quote := Cursor.peek_eq_some.mpr ⟨more, mark⟩
        have plain : quote ≠ '\\' := by rcases isQuote with rfl | rfl <;> decide
        exact .of_le ((Cursor.le_next c).trans ⟨inside, reads⟩) (Cursor.lt_next head) (.next head plain)
      · simp at ok
    · simp at ok
  · simp at ok

theorem endsPlain_identifier {name : Fragment} (ok : identifier c = .ok (name, d)) : c.EndsPlain d := by
  unfold identifier at ok
  simp only at ok
  split at ok
  · obtain ⟨_, rfl⟩ := Prod.mk.inj (Except.ok.inj ok)
    exact .skipIdent c
  · simp at ok

theorem endsPlain_parenthesizedString {value : Fragment} (ok : parenthesizedString c = .ok (value, d)) :
    c.EndsPlain d := by
  obtain ⟨inside, opens, ok⟩ := exists_of_bind_ok ok
  obtain ⟨⟨text, after⟩, reads, ok⟩ := exists_of_bind_ok ok
  obtain ⟨last, closes, ok⟩ := exists_of_bind_ok ok
  obtain ⟨_, rfl⟩ := Prod.mk.inj (Except.ok.inj ok)
  have start := (lt_of_expect opens).le.trans (Cursor.le_skipBlank inside)
  have onward := (start.trans (endsPlain_stringLiteral reads).le).trans (Cursor.le_skipBlank after)
  exact .of_le onward (lt_of_expect closes) (endsPlain_expect closes (by decide))

theorem endsPlain_layoutDirective {directive : Directive Node} (ok : layoutDirective c = .ok (directive, d)) :
    c.EndsPlain d := by
  unfold layoutDirective at ok
  split at ok
  · obtain ⟨_, rfl⟩ := Prod.mk.inj (Except.ok.inj ok)
    exact .refl c
  · next inside opens =>
    have start := (Cursor.lt_of_eat? opens).le.trans (Cursor.le_skipBlank inside)
    split at ok
    · next after closes =>
      obtain ⟨_, rfl⟩ := Prod.mk.inj (Except.ok.inj ok)
      exact .of_le start (Cursor.lt_of_eat? closes) (.eat? closes (by decide))
    · obtain ⟨⟨path, after⟩, reads, ok⟩ := exists_of_bind_ok ok
      obtain ⟨last, closes, ok⟩ := exists_of_bind_ok ok
      obtain ⟨_, rfl⟩ := Prod.mk.inj (Except.ok.inj ok)
      have onward := (start.trans (endsPlain_stringLiteral reads).le).trans (Cursor.le_skipBlank after)
      exact .of_le onward (lt_of_expect closes) (endsPlain_expect closes (by decide))

theorem endsPlain_componentName {name : Option Fragment} (ok : componentName c = .ok (name, d)) : c.EndsPlain d := by
  unfold componentName at ok
  split at ok
  · next after word =>
    split at ok
    · obtain ⟨⟨own, last⟩, reads, ok⟩ := exists_of_bind_ok ok
      obtain ⟨_, rfl⟩ := Prod.mk.inj (Except.ok.inj ok)
      have start := (Cursor.le_skipInlineBlank c).trans (Cursor.le_of_reads (Cursor.reads_eatText? word))
      exact .of_le (start.trans (Cursor.le_skipInlineBlank after)) (lt_of_identifier reads) (endsPlain_identifier reads)
    · obtain ⟨_, rfl⟩ := Prod.mk.inj (Except.ok.inj ok)
      exact .refl c
  · obtain ⟨_, rfl⟩ := Prod.mk.inj (Except.ok.inj ok)
    exact .refl c

theorem endsPlain_useDirective {directive : Directive Node} (ok : useDirective c = .ok (directive, d)) :
    c.EndsPlain d := by
  obtain ⟨⟨path, afterPath⟩, reads, ok⟩ := exists_of_bind_ok ok
  obtain ⟨⟨component, after⟩, names, ok⟩ := exists_of_bind_ok ok
  obtain ⟨_, rfl⟩ := Prod.mk.inj (Except.ok.inj ok)
  have first := Cursor.EndsPlain.of_le (Cursor.le_skipInlineBlank c) (lt_of_stringLiteral reads)
    (endsPlain_stringLiteral reads)
  exact (first.trans (endsPlain_componentName names)).trans (.getD_inlineBlank_eat? (by decide) after)

theorem endsPlain_stringDirective {make : Fragment → Directive Node} {directive : Directive Node}
    (ok : stringDirective make c = .ok (directive, d)) : c.EndsPlain d := by
  obtain ⟨⟨text, after⟩, reads, ok⟩ := exists_of_bind_ok ok
  obtain ⟨_, rfl⟩ := Prod.mk.inj (Except.ok.inj ok)
  exact endsPlain_parenthesizedString reads

theorem endsPlain_bareDirective {bare directive : Directive Node} (ok : bareDirective bare c = .ok (directive, d)) :
    c.EndsPlain d := by
  obtain ⟨_, rfl⟩ := Prod.mk.inj (Except.ok.inj ok)
  cases found : c.eatText? ['(', ')'] with
  | none => exact .refl c
  | some after => exact .of_reads (Cursor.reads_eatText? found) rfl (by decide)

/-! ## Constructs -/

theorem Block.endsPlain {brace after : Cursor} {body : List Node} (block : Block brace body after) :
    brace.EndsPlain after := by
  cases block with
  | closed opens items _ closes =>
    have inside := (Cursor.le_next brace).trans items.inOrder.le
    exact .of_le inside (Cursor.lt_next closes) (.next closes (by decide))

/-- A block after something. -/
theorem Block.endsPlain_of_le {brace after : Cursor} {body : List Node} (block : Block brace body after)
    (le : c ≤ brace) : c.EndsPlain after :=
  .of_le le block.inOrder.1 block.endsPlain

theorem DirectiveFrom.endsPlain {directive : Directive Node} (read : DirectiveFrom c directive d) : c.EndsPlain d := by
  cases read with
  | layout read => exact endsPlain_layoutDirective read
  | useFile read => exact endsPlain_useDirective read
  | includeFile read => exact endsPlain_stringDirective read
  | render read => exact endsPlain_stringDirective read
  | renderBody read => exact endsPlain_bareDirective read
  | childContent read => exact endsPlain_bareDirective read
  | sectionValue opens enclosed _ => exact Code.endsPlain_enclosed opens rfl enclosed
  | sectionBlock head block => exact block.endsPlain_of_le ((onward_sectionHead c).of_ok head).1
  | raw opens closes =>
    obtain ⟨between, mark⟩ := rawClose?_spec closes
    have inside := (Cursor.le_skipBlank c).trans ((Cursor.le_next c.skipBlank).trans between)
    exact .of_le inside (Cursor.lt_next mark) (.next mark (by decide))
  | function head block => exact block.endsPlain_of_le ((onward_functionHead _ c).of_ok head).1

/-- A node ends plainly, wherever in the source it stands, unless it is text. -/
def Node.EndsPlain (source : List Char) (node : Node) : Prop :=
  (∀ content, node.form ≠ .text content) →
    ∀ c d, Cursor.ofText source ≤ c → c ≤ d → node.span = c.spanTo d → c.EndsPlain d

theorem Otherwise.endsPlain {otherwise : Option (ElseClause Node)} (tail : Otherwise c otherwise d)
    (place : Cursor.ofText source ≤ c) (below : ∀ node ∈ (otherwise.map ElseClause.nodes).getD [], node.EndsPlain source) :
    c.EndsPlain d := by
  cases tail with
  | none => exact .refl c
  | block word block =>
    have start := (Cursor.le_skipBlank c).trans (Cursor.le_of_reads (Cursor.reads_eatText? word))
    exact block.endsPlain_of_le (start.trans (Cursor.le_skipBlank _))
  | @chained afterElse _ node word _ _ lt span other =>
    have start := (Cursor.le_skipBlank c).trans (Cursor.le_of_reads (Cursor.reads_eatText? word))
    have onward := start.trans (Cursor.le_skipBlank afterElse)
    exact .of_le onward lt (below node (List.mem_singleton_self node) other _ _ (place.trans onward) lt.le span)

theorem StatementFrom.endsPlain {keyword : Keyword} {statement : Statement Node}
    (read : StatementFrom keyword c statement d) (place : Cursor.ofText source ≤ c)
    (below : ∀ child ∈ statement.children, child.EndsPlain source) : c.EndsPlain d := by
  cases read with
  | conditional head block tail =>
    have first := block.endsPlain_of_le (statementHead_ready head).1
    refine first.trans (tail.endsPlain (place.trans first.le) ?_)
    intro node among
    exact below node (List.mem_append_right _ among)
  | forLoop head block => exact block.endsPlain_of_le (statementHead_ready head).1
  | whileLoop head block => exact block.endsPlain_of_le (statementHead_ready head).1
  | matchOn head between closes =>
    have inside := (statementHead_ready head).1.trans (between.inOrder.le.trans (Cursor.le_skipBlank _))
    exact .of_le inside (Cursor.lt_next closes) (.next closes (by decide))
  | continueLoop => exact .refl c
  | breakLoop => exact .refl c

/-- A keyword has a letter at least, after a sigil or as its first character. -/
theorem Opens.next_lt {keyword : Keyword} (opens : Opens keyword c d) : c.next < d := by
  cases opens with
  | sigil _ word => exact Keyword.lt_skipIdent_of_recognize? word
  | chained word =>
    have reads := Keyword.reads_skip_two_of_recognize? word
    have second : c.next.peek = some 'f' := by simp [Cursor.peek, Cursor.next, reads.rest_eq]
    exact Cursor.lt_next second

theorem Opens.endsPlain {keyword : Keyword} (opens : Opens keyword c d) : c.EndsPlain d := by
  cases opens with
  | sigil sigil word =>
    exact .of_le (Cursor.le_next c) (Keyword.lt_skipIdent_of_recognize? word) (.skipIdent c.next)
  | chained word => exact .of_reads (Keyword.reads_skip_two_of_recognize? word) rfl (by decide)

/-- What is written from one place to another has a second character, and does not end with a backslash. -/
structure Solid (c d : Cursor) : Prop where
  next_lt : c.next < d
  plain : c.EndsPlain d

theorem Solid.of_lt (first : c < d) (second : d < e) (plain : d.EndsPlain e) : Solid c e :=
  ⟨(Cursor.next_le_of_lt first).trans_lt second, .of_le first.le second plain⟩

/-- A construct is solid unless it was given up, if the nodes below it end plainly. -/
theorem Spells.solid {node : Node} (spells : Spells c node d) (whole : ∀ cause children, node.form ≠ .error cause children)
    (place : Cursor.ofText source ≤ c) (below : ∀ child ∈ node.children, child.EndsPlain source) : Solid c d := by
  cases spells with
  | comment opens closes =>
    obtain ⟨rest, mark⟩ := Cursor.startsWith_of_commentClose? closes
    have last := Cursor.reads_skip mark
    have lt := (Cursor.lt_of_reads opens (by simp)).trans_le (Cursor.le_of_commentClose? closes)
    exact .of_lt lt (Cursor.lt_of_reads last (by simp)) (.of_reads last rfl (by decide))
  | codeBlock sigil opens enclosed =>
    exact .of_lt sigil.lt (Code.lt_of_enclosed opens rfl enclosed) (Code.endsPlain_enclosed opens rfl enclosed)
  | paren sigil opens enclosed =>
    exact .of_lt sigil.lt (Code.lt_of_enclosed opens rfl enclosed) (Code.endsPlain_enclosed opens rfl enclosed)
  | simple sigil read => exact .of_lt sigil.lt (Code.chain?_ok read) (Code.endsPlain_chain? read)
  | parameters sigil opens enclosed entries ends =>
    have lt := sigil.lt.trans_le ((Code.lt_of_enclosed opens rfl enclosed).le.trans (Cursor.le_skipBlank _))
    exact .of_lt lt (Cursor.lt_of_eat? ends) (.eat? ends (by decide))
  | directive opens read => exact ⟨opens.next_lt.trans_le read.endsPlain.le, opens.endsPlain.trans read.endsPlain⟩
  | statement opens read =>
    have rest := read.endsPlain (place.trans opens.lt.le) below
    exact ⟨opens.next_lt.trans_le rest.le, opens.endsPlain.trans rest⟩
  | selfClosing opens attributes ends =>
    have start := (Cursor.lt_next (Cursor.peek_of_atTagOpen opens)).trans_le (Cursor.le_skipTagName c.next)
    have lt := start.trans_le (attributes.inOrder.le.trans (Cursor.le_skipBlank _))
    have last := Cursor.reads_eatText? ends
    exact .of_lt lt (Cursor.lt_of_reads last (by simp)) (.of_reads last rfl (by decide))
  | tag opens attributes ends items closes _ complete =>
    obtain ⟨lt, _⟩ := items.tag_inOrder opens attributes ends
    obtain ⟨blanks, _, _, reads⟩ := reads_readCloseTag closes complete
    exact .of_lt lt (lt_readCloseTag closes) (.of_reads reads List.getLast?_concat (by decide))
  | call sigil opens enclosed entries block =>
    have start := (Cursor.lt_next (Cursor.peek_of_atSigil sigil)).trans_le (Cursor.le_skipIdent c.next)
    have lt := start.trans_le ((Code.lt_of_enclosed opens rfl enclosed).le.trans (Cursor.le_skipBlank _))
    exact .of_lt lt block.inOrder.1 block.endsPlain
  | error => exact absurd rfl (whole _ _)

end

/-- Where nothing was given up, nothing was given up below, and the node is no error node. -/
theorem Node.recoveries_eq_nil {node : Node} (clean : node.recoveries = []) :
    (∀ child ∈ node.children, child.recoveries = []) ∧ ∀ cause children, node.form ≠ .error cause children := by
  obtain ⟨below, own⟩ := List.append_eq_nil_iff.mp (node.recoveries_eq.symm.trans clean)
  refine ⟨List.flatMap_eq_nil_iff.mp below, ?_⟩
  intro cause children same
  obtain ⟨form, span⟩ := node
  obtain rfl : form = .error cause children := same
  simp [Node.recovery?, Node.malformation?, Node.form] at own

theorem Grown.endsPlain {source : List Char} {node : Node} (grown : Grown source node) (clean : node.recoveries = []) :
    node.EndsPlain source := by
  induction node using Node.induct with
  | step node ih =>
    intro construct c d place le span
    cases grown with
    | text => exact absurd rfl (construct _)
    | construct place' spells below =>
      obtain ⟨children, whole⟩ := Node.recoveries_eq_nil clean
      have solid := spells.solid whole place' fun child among => ih child among (below child among) (children child among)
      obtain ⟨lt, same, _⟩ := spells.inOrder
      obtain ⟨first, last⟩ := Span.mk.inj (span.symm.trans same)
      rw [Cursor.eq_of_pos_eq place place' first, Cursor.eq_of_pos_eq (place.trans le) (place'.trans lt.le) last]
      exact solid.plain

/-- A construct in which nothing was given up is solid. -/
theorem GrownFrom.solid {source : List Char} {c : Cursor} {read : ReadNode} (grown : GrownFrom source c read)
    (place : Cursor.ofText source ≤ c) (clean : read.1.recoveries = []) : Solid c read.2 := by
  obtain ⟨children, whole⟩ := Node.recoveries_eq_nil clean
  exact grown.1.solid whole place fun child among => (grown.2 child among).endsPlain (children child among)

end SigilTemplate
