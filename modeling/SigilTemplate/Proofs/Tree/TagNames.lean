import Mathlib
import SigilTemplate.Proofs.Markup.TagName
import SigilTemplate.Proofs.Tree.Spelling

/-!
Every component that a tree holds is closed by the name that opens it. What the
source has at the span of a component written as a tag begins with an opening
tag of its name; it ends with a closing tag of the same name behind all of the
children, or with `/>` where there is no body. Since a text shows which name it
opens and closes with, no tag whose names differ becomes a component.
-/

namespace SigilTemplate
open Text

/-- The text at a component that is written as a tag. -/
structure Component.WrittenAs (component : Component Node) (span : Span) (text : List Char) : Prop where
  /-- The text opens with the name. -/
  opens : OpensWith component.name.text.toList text
  /-- With a body, the text closes with the name, and neither the opening tag nor a child reaches into the closing one. -/
  closes : component.selfClosing = false → ∃ before, ClosesWith component.name.text.toList before text ∧
    OpensWith component.name.text.toList before ∧
    ∀ child ∈ argumentNodes component.arguments ++ component.body, child.span.stop ≤ span.start + byteLength before
  /-- Without one, it ends as a self-closing tag. -/
  closesItself : component.selfClosing = true → component.body = [] ∧ ∃ before, text = before ++ ['/', '>']

/-- A text that a component is written as closes with no name but the one it opens with. -/
theorem Component.WrittenAs.name_eq {component : Component Node} {span : Span} {text opening closing before : List Char}
    (written : component.WrittenAs span text) (opens : OpensWith opening text) (closes : ClosesWith closing before text) :
    opening = closing := by
  cases self : component.selfClosing with
  | true =>
    obtain ⟨_, front, rfl⟩ := written.closesItself self
    exact absurd closes not_closesWith_of_slash
  | false =>
    obtain ⟨front, ends, _⟩ := written.closes self
    exact (opens.unique written.opens).trans (ends.unique closes)

theorem Spells.writtenAs {c d : Cursor} {node : Node} {component : Component Node} (spells : Spells c node d)
    (form : node.form = .component component) (tag : component.style = .tag) :
    component.WrittenAs node.span (c.textTo d) := by
  have order := spells.inOrder
  cases spells with
  | @selfClosing place _ arguments opens attributes ends =>
    obtain rfl := Form.component.inj form
    have reads := Cursor.reads_textTo order.1.le
    have slash := Cursor.reads_eatText? ends
    have head : place.skipBlank.peek = some '/' := Cursor.peek_eq_some.mpr ⟨_, slash.rest_eq⟩
    have last := Cursor.lt_of_reads slash (by simp)
    have name := attributes.opensWith opens head (by decide) reads last
    refine ⟨by simpa [Fragment.between, Fragment.ofChars] using name, by simp, ?_⟩
    have start := (Cursor.le_next c).trans ((Cursor.le_skipTagName _).trans
      (attributes.inOrder.le.trans (Cursor.le_skipBlank place)))
    have whole := (Cursor.reads_textTo start).trans slash
    intro _
    exact ⟨rfl, _, whole.textTo_eq⟩
  | @tag place inside close arguments mode state body opens attributes ends items closes same complete =>
    obtain rfl := Form.component.inj form
    have sign := Cursor.reads_eat? ends
    have head : place.skipBlank.peek = some '>' := Cursor.peek_eq_some.mpr ⟨_, sign.rest_eq⟩
    have bracket := Cursor.lt_of_reads sign (by simp)
    obtain ⟨lt, children⟩ := items.tag_inOrder opens attributes ends
    have front := Cursor.reads_textTo lt.le
    have before := attributes.opensWith opens head (by decide) front (bracket.trans_le items.inOrder.le)
    have reads := Cursor.reads_textTo order.1.le
    have name := attributes.opensWith opens head (by decide) reads
      (bracket.trans_le (items.inOrder.le.trans (lt_readCloseTag closes).le))
    obtain ⟨blanks, isName, blank, closing⟩ := reads_readCloseTag closes complete
    rw [same] at isName closing
    simp only [Fragment.between, Fragment.ofChars, String.toList_ofList] at isName closing
    refine ⟨by simpa [Fragment.between, Fragment.ofChars] using name, ?_, by simp⟩
    intro _
    refine ⟨c.textTo close, ?_, by simpa [Fragment.between, Fragment.ofChars] using before, ?_⟩
    · have whole := (front.trans closing).textTo_eq
      simpa [Fragment.between, Fragment.ofChars] using ⟨isName, blanks, whole, blank⟩
    · intro child member
      obtain ⟨x, y, _, _, within, span⟩ := children.exists_spanTo member
      have stop := Cursor.pos_le within
      have length := front.pos_eq
      rw [span]
      simp only [Node.span, Cursor.spanTo]
      omega
  | call => obtain rfl := Form.component.inj form; simp at tag
  | _ => simp [Node.form] at form

/-- Back-check of components: whatever a tree holds as a component written as a tag opens with its name and closes with
it behind all of its children, or closes itself and has no body; the name is dotted and starts with a capital, and no
other name can be read at either end. -/
theorem Tree.read_tag_names {options : ReadOptions} {source : List Char} {tree : Tree}
    (read : Tree.read options source = .ok tree) :
    ∀ node ∈ tree.preorder, ∀ component, node.form = .component component → component.style = .tag →
      ∃ text, slice? source node.span = some text ∧ component.WrittenAs node.span text ∧
        ∀ opening closing before, OpensWith opening text → ClosesWith closing before text → opening = closing := by
  intro node member component form tag
  have grown := (Tree.read_grown read).of_mem_preorder node member
  cases grown with
  | text => simp [Node.form] at form
  | @construct c d _ place spells _ =>
    obtain ⟨lt, span, _⟩ := spells.inOrder
    have written := spells.writtenAs form tag
    refine ⟨c.textTo d, ?_, written, fun opening closing before => written.name_eq⟩
    rw [span]
    exact Cursor.slice?_spanTo place lt.le

/-- A tag with a dotted name around one that closes itself, and white space in the closing tag. -/
theorem Tree.read_tag_names_sample :
    ∃ tree, Tree.read {} "<Ui.Card><B/></Ui.Card >".toList = .ok tree ∧
      ∃ node ∈ tree.preorder, ∃ component, node.form = .component component ∧ component.style = .tag ∧
        component.selfClosing = false ∧ ∃ text, slice? "<Ui.Card><B/></Ui.Card >".toList node.span = some text ∧
          component.WrittenAs node.span text ∧
          ∀ opening closing before, OpensWith opening text → ClosesWith closing before text → opening = closing := by
  have read : Tree.read {} "<Ui.Card><B/></Ui.Card >".toList =
      .ok ⟨[⟨.component ⟨⟨"Ui.Card", ⟨1, 8⟩⟩, .tag, [],
        [⟨.component ⟨⟨"B", ⟨10, 11⟩⟩, .tag, [], [], true⟩, ⟨9, 13⟩⟩], false⟩, ⟨0, 24⟩⟩],
        "<Ui.Card><B/></Ui.Card >".toList, 0⟩ := by cbv
  exact ⟨_, read, _, List.mem_flatMap.mpr ⟨_, List.mem_cons_self, by rw [Node.preorder_eq]; exact List.mem_cons_self⟩,
    _, rfl, rfl, rfl, Tree.read_tag_names read _ (List.mem_flatMap.mpr
      ⟨_, List.mem_cons_self, by rw [Node.preorder_eq]; exact List.mem_cons_self⟩) _ rfl rfl⟩

end SigilTemplate
