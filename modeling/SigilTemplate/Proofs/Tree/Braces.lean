import Mathlib
import SigilTemplate.Proofs.Markup.Braces
import SigilTemplate.Proofs.Tree.Partition
import SigilTemplate.Proofs.Tree.Spelling

/-!
A body between braces ends at its first unmatched brace. In every tree that has
been read, each such body stands right between a `{` and a `}`, its nodes cover
everything from the one to the other, and the text directly in it is balanced:
a pair of literal braces never ends it, and the `}` that does has no partner.
-/

namespace SigilTemplate
open Text

/-! ## The bodies between braces -/

section

variable {α : Type}

def ElseClause.blocks : ElseClause α → List (List α)
  | chained _ => []
  | block body => [body]

def ArmBody.blocks : ArmBody α → List (List α)
  | block body => [body]
  | inline _ => []

def ArgumentValue.blocks : ArgumentValue α → List (List α)
  | block body => [body]
  | flag | bool _ | number _ | string _ | expression _ | code _ => []

def Directive.blocks : Directive α → List (List α)
  | sectionBlock _ body => [body]
  | function _ _ body => [body]
  | layout _ | useFile _ _ | includeFile _ | render _ | renderBody | childContent
  | sectionValue _ _ | raw _ => []

def Statement.blocks : Statement α → List (List α)
  | conditional _ body otherwise => body :: (otherwise.map ElseClause.blocks).getD []
  | forLoop _ body => [body]
  | whileLoop _ body => [body]
  | matchOn _ arms => arms.flatMap fun arm => arm.body.blocks
  | continueLoop | breakLoop => []

/-- The body of a component is between braces where the component is written as a call. -/
def Component.blocks (component : Component α) : List (List α) :=
  (component.arguments.flatMap fun argument => argument.value.blocks) ++
    match component.style with
    | .tag => []
    | .call => [component.body]

/-- The bodies of a form that are written between braces. -/
def Form.blocks : Form α → List (List α)
  | .directive d => d.blocks
  | .statement s => s.blocks
  | .component c => c.blocks
  | .text _ | .comment _ | .expression _ | .codeBlock _ | .parameters _ | .error _ _ => []

end

/-- Somewhere at or after `c`, the body is read as a block. -/
def BlockAfter (c : Cursor) (body : List Node) : Prop := ∃ brace after, c ≤ brace ∧ Block brace body after

theorem BlockAfter.mono {c d : Cursor} {body : List Node} (after : BlockAfter d body) (le : c ≤ d) :
    BlockAfter c body := by
  obtain ⟨brace, stop, later, block⟩ := after
  exact ⟨brace, stop, le.trans later, block⟩

theorem Otherwise.blocks {c after : Cursor} {otherwise : Option (ElseClause Node)} (tail : Otherwise c otherwise after) :
    ∀ body ∈ (otherwise.map ElseClause.blocks).getD [], BlockAfter c body := by
  intro body member
  cases tail with
  | none => simp at member
  | block word block =>
    obtain rfl := List.mem_singleton.mp member
    have start := (Cursor.le_skipBlank c).trans (Cursor.le_of_reads (Cursor.reads_eatText? word))
    exact ⟨_, after, start.trans (Cursor.le_skipBlank _), block⟩
  | chained => simp [ElseClause.blocks] at member

theorem Arms.blocks {brace place : Cursor} {arms : List (Arm Node)} (between : Arms brace arms place) :
    ∀ arm ∈ arms, ∀ body ∈ arm.body.blocks, BlockAfter brace body := by
  induction between with
  | start => simp
  | @more arms arm place after earlier next ih =>
    intro other member body among
    rcases List.mem_append.mp member with before | last
    · exact ih other before body among
    · obtain rfl := List.mem_singleton.mp last
      have start := earlier.inOrder.le.trans (Cursor.le_skipBlank place)
      cases next with
      | block pattern block =>
        obtain rfl := List.mem_singleton.mp among
        exact ⟨_, after, start.trans pattern.lt_afterArrow.le, block⟩
      | inline | unbalanced => simp [ArmBody.blocks] at among

theorem StatementFrom.blocks {keyword : Keyword} {c after : Cursor} {statement : Statement Node}
    (read : StatementFrom keyword c statement after) : ∀ body ∈ statement.blocks, BlockAfter c body := by
  intro body member
  cases read with
  | conditional head block tail =>
    have start := (statementHead_ready head).1
    rcases List.mem_cons.mp member with rfl | further
    · exact ⟨_, _, start, block⟩
    · exact (tail.blocks body further).mono (start.trans block.inOrder.1.le)
  | forLoop head block =>
    obtain rfl := List.mem_singleton.mp member
    exact ⟨_, after, (statementHead_ready head).1, block⟩
  | whileLoop head block =>
    obtain rfl := List.mem_singleton.mp member
    exact ⟨_, after, (statementHead_ready head).1, block⟩
  | matchOn head between =>
    obtain ⟨arm, among, inside⟩ := List.mem_flatMap.mp member
    exact (between.blocks arm among body inside).mono (statementHead_ready head).1
  | continueLoop | breakLoop => simp [Statement.blocks] at member

/-- Only sections and helpers have bodies. -/
theorem Directive.blocks_eq_nil {directive : Directive Node} (notSection : directive.keyword ≠ .sectionBlock)
    (notFunction : directive.keyword ≠ .function) : directive.blocks = [] := by
  cases directive with
  | sectionBlock | sectionValue => exact absurd rfl notSection
  | function => exact absurd rfl notFunction
  | _ => rfl

theorem sectionValue?_blocks {part : Cursor} {directive : Directive Node} (found : sectionValue? part = some directive) :
    directive.blocks = [] := by
  unfold sectionValue? at found
  split at found
  · simp only at found
    split at found
    · obtain rfl := Option.some.inj found
      rfl
    · simp at found
  · simp at found

theorem DirectiveFrom.blocks {c after : Cursor} {directive : Directive Node} (read : DirectiveFrom c directive after) :
    ∀ body ∈ directive.blocks, BlockAfter c body := by
  have flat {keyword : Keyword} {d : Cursor} (attempt : c ≤ d ∧ directive.Flat keyword c d)
      (notSection : keyword ≠ .sectionBlock) (notFunction : keyword ≠ .function) :
      ∀ body ∈ directive.blocks, BlockAfter c body := by
    have same := attempt.2.keyword_eq
    rw [Directive.blocks_eq_nil (same ▸ notSection) (same ▸ notFunction)]
    simp
  intro body member
  cases read with
  | layout read => exact flat ((onward_layoutDirective c).of_ok read) (by decide) (by decide) body member
  | useFile read => exact flat ((onward_useDirective c).of_ok read) (by decide) (by decide) body member
  | includeFile read => exact flat ((onward_includeFile c).of_ok read) (by decide) (by decide) body member
  | render read => exact flat ((onward_render c).of_ok read) (by decide) (by decide) body member
  | renderBody read => exact flat ((onward_renderBody c).of_ok read) (by decide) (by decide) body member
  | childContent read => exact flat ((onward_childContent c).of_ok read) (by decide) (by decide) body member
  | sectionValue _ _ value => simp [sectionValue?_blocks value] at member
  | raw => simp [Directive.blocks] at member
  | sectionBlock head block =>
    obtain rfl := List.mem_singleton.mp member
    exact ⟨_, after, ((onward_sectionHead c).of_ok head).1, block⟩
  | function head block =>
    obtain rfl := List.mem_singleton.mp member
    exact ⟨_, after, ((onward_functionHead _ c).of_ok head).1, block⟩

theorem ValueFrom.blocks {c after : Cursor} {value : ArgumentValue Node} (read : ValueFrom c value after) :
    ∀ body ∈ value.blocks, BlockAfter c body := by
  intro body member
  cases read with
  | string | expression => simp [ArgumentValue.blocks] at member
  | block block =>
    obtain rfl := List.mem_singleton.mp member
    exact ⟨c, after, le_refl c, block⟩
  | constant word => rcases constantValue?_eq word with rfl | rfl | ⟨text, rfl⟩ <;> simp [ArgumentValue.blocks] at member

theorem Attributes.blocks {c place : Cursor} {arguments : List (Argument Node)} (attributes : Attributes c arguments place) :
    ∀ argument ∈ arguments, ∀ body ∈ argument.value.blocks, BlockAfter c body := by
  induction attributes with
  | start => simp
  | @more arguments argument place after earlier _ _ next ih =>
    intro other member body among
    rcases List.mem_append.mp member with before | last
    · exact ih other before body among
    · obtain rfl := List.mem_singleton.mp last
      have start := earlier.inOrder.le.trans (Cursor.le_skipBlank place)
      cases next with
      | flag => simp [ArgumentValue.blocks] at among
      | valued sign reads =>
        have onward := (Cursor.le_skipWhile isAttributePart place.skipBlank).trans
          ((Cursor.le_skipBlank _).trans ((Cursor.lt_of_eat? sign).le.trans (Cursor.le_skipBlank _)))
        exact (reads.blocks body among).mono (start.trans onward)

theorem callArguments?_blocks {part : Cursor} {arguments : List (Argument Node)}
    (found : callArguments? part = some arguments) : ∀ argument ∈ arguments, argument.value.blocks = [] := by
  have code (value : Fragment) : (codeValue value).blocks = [] := by
    unfold codeValue
    simp only
    split
    · rfl
    · split
      · rfl
      · split
        · rfl
        · split <;> rfl
  intro argument member
  obtain ⟨entries, _, rest⟩ := Option.bind_eq_some_iff.mp found
  obtain rfl := Option.some.inj rest
  obtain ⟨⟨name, value⟩, _, rfl⟩ := List.mem_map.mp member
  exact code value

/-- Every body between braces of a construct is read as a block inside the construct. -/
theorem Spells.blocks {c d : Cursor} {node : Node} (spells : Spells c node d) :
    ∀ body ∈ node.form.blocks, BlockAfter c body := by
  have tag {place : Cursor} {arguments : List (Argument Node)} (opens : c.atTagOpen = true)
      (attributes : Attributes c.next.skipTagName arguments place) :
      ∀ body ∈ arguments.flatMap fun argument => argument.value.blocks, BlockAfter c body := by
    intro body member
    obtain ⟨argument, among, inside⟩ := List.mem_flatMap.mp member
    have name := (Cursor.le_next c).trans (Cursor.le_skipTagName c.next)
    exact (attributes.blocks argument among body inside).mono name
  intro body member
  cases spells with
  | directive opens read => exact (read.blocks body member).mono opens.lt.le
  | statement opens read => exact (read.blocks body member).mono opens.lt.le
  | selfClosing opens attributes =>
    exact tag opens attributes body (by simpa [Node.form, Form.blocks, Component.blocks] using member)
  | tag opens attributes =>
    exact tag opens attributes body (by simpa [Node.form, Form.blocks, Component.blocks] using member)
  | call sigil opens enclosed entries block =>
    have start := (Cursor.le_next c).trans ((Cursor.le_skipIdent c.next).trans
      ((Code.lt_of_enclosed opens rfl enclosed).le.trans (Cursor.le_skipBlank _)))
    rcases List.mem_append.mp member with among | last
    · obtain ⟨argument, here, inside⟩ := List.mem_flatMap.mp among
      simp [callArguments?_blocks entries argument here] at inside
    · obtain rfl := List.mem_singleton.mp last
      exact ⟨_, d, start, block⟩
  | _ => simp [Node.form, Form.blocks] at member

/-! ## Bodies in the source -/

/-- A body between the brace at one offset of the source and the brace at another. -/
structure DelimitedBody (source : List Char) (body : List Node) (start stop : Nat) : Prop where
  opens : slice? source ⟨start, start + 1⟩ = some ['{']
  /-- Nothing but the nodes of the body stands between the braces. -/
  covers : SpansTile (start + 1) (body.map (·.span)) stop
  closes : slice? source ⟨stop, stop + 1⟩ = some ['}']

/-- A block stands between two braces, the first where it starts and the second right before its end. -/
theorem Block.delimited_at {source : List Char} {brace after : Cursor} {body : List Node}
    (place : Cursor.ofText source ≤ brace) (block : Block brace body after) :
    ∃ stop, DelimitedBody source body brace.pos stop ∧ after.pos = stop + 1 := by
  cases block with
  | @closed state close opens items ends closes =>
    have within := items.inOrder.le
    have start := place.trans (Cursor.le_next brace)
    have first := Cursor.reads_next_of_peek opens
    have last := Cursor.reads_next_of_peek closes
    have onward : brace.next.pos = brace.pos + 1 := first.pos_eq
    have beyond : close.next.pos = close.pos + 1 := last.pos_eq
    refine ⟨close.pos, ⟨?_, ?_, ?_⟩, beyond⟩
    · rw [← onward]
      exact first.slice?_eq place
    · rw [← onward]
      exact items.spans_tile
    · rw [← beyond]
      exact last.slice?_eq (start.trans within)

theorem Block.delimited {source : List Char} {brace after : Cursor} {body : List Node}
    (place : Cursor.ofText source ≤ brace) (block : Block brace body after) :
    ∃ start stop, DelimitedBody source body start stop := by
  obtain ⟨stop, delimited, _⟩ := block.delimited_at place
  exact ⟨brace.pos, stop, delimited⟩

/-- The `}` that closes a block has no partner in the text of the block. -/
theorem Block.balanced {brace after : Cursor} {body : List Node} (block : Block brace body after) :
    BraceBalanced (directText body) := by
  cases block with
  | closed _ items ends _ => exact items.closeBrace_iff.mp ends

/-- A body between braces ends at its first unmatched brace: wherever a tree holds one, the source has a `{` right before
its nodes and a `}` right after them, and the text nodes directly in it, put together, are balanced. -/
theorem Tree.read_braces_balanced {options : ReadOptions} {source : List Char} {tree : Tree}
    (read : Tree.read options source = .ok tree) :
    ∀ node ∈ tree.preorder, ∀ body ∈ node.form.blocks,
      BraceBalanced (directText body) ∧ ∃ start stop, DelimitedBody source body start stop := by
  intro node member body among
  have grown := (Tree.read_grown read).of_mem_preorder node member
  cases grown with
  | text => simp [Node.form, Form.blocks] at among
  | construct place spells _ =>
    obtain ⟨brace, after, later, block⟩ := spells.blocks body among
    exact ⟨block.balanced, block.delimited (place.trans later)⟩

/-- A pair of literal braces around an expression does not end the body. -/
theorem Tree.read_braces_balanced_sample :
    ∃ tree, Tree.read {} "@if a \x7b x \x7b@b\x7d y \x7d".toList = .ok tree ∧
      ∃ node ∈ tree.preorder, ∃ body ∈ node.form.blocks, directText body = " x \x7b\x7d y ".toList ∧
        BraceBalanced (directText body) ∧
        ∃ start stop, DelimitedBody "@if a \x7b x \x7b@b\x7d y \x7d".toList body start stop := by
  have read : Tree.read {} "@if a \x7b x \x7b@b\x7d y \x7d".toList =
      .ok ⟨[⟨.statement (.conditional ⟨"a", ⟨4, 5⟩⟩
        [⟨.text " x \x7b", ⟨7, 11⟩⟩, ⟨.expression ⟨.simple 0 [.ident "b"], "b", false⟩, ⟨11, 13⟩⟩, ⟨.text "\x7d y ", ⟨13, 17⟩⟩]
        none), ⟨0, 18⟩⟩], "@if a \x7b x \x7b@b\x7d y \x7d".toList, 0⟩ := by cbv
  have root (node : Node) : node ∈ node.preorder := by
    rw [Node.preorder_eq]
    exact List.mem_cons_self
  exact ⟨_, read, _, List.mem_flatMap.mpr ⟨_, List.mem_cons_self, root _⟩, _, List.mem_cons_self, by decide,
    Tree.read_braces_balanced read _ (List.mem_flatMap.mpr ⟨_, List.mem_cons_self, root _⟩) _ List.mem_cons_self⟩

end SigilTemplate
