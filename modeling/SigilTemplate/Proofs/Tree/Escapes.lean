import Mathlib
import SigilTemplate.Proofs.Tree.Preorder

/-!
The text of a template is its written form: wherever a text node stands in the
tree that has been read, what its span covers of the source is its content with
every sigil doubled.
-/

namespace SigilTemplate
open Text

/-- A text node is written as its content with each sigil doubled. -/
theorem Grown.slice?_eq_escape {source : List Char} {node : Node} (grown : Grown source node) {content : String}
    (text : node.form = .text content) : slice? source node.span = some (escape content.toList) := by
  cases grown with
  | @text c d written place lt reads =>
    obtain rfl : written = content := by simpa [Node.form] using text
    rw [Node.span, Cursor.slice?_spanTo place lt.le, reads.textTo_eq]
  | construct _ spells _ => exact absurd text (spells.form_ne_text content)

/-- Escaping undoes what reading does to text: at every text node of the tree, at the top or at any depth in it, the
slice of the source is the escaped content. -/
theorem Tree.read_text_escapes {options : ReadOptions} {source : List Char} {tree : Tree}
    (read : Tree.read options source = .ok tree) :
    ∀ node ∈ tree.preorder, ∀ content, node.form = .text content →
      slice? source node.span = some (escape content.toList) := by
  intro node member content text
  exact ((Tree.read_grown read).of_mem_preorder node member).slice?_eq_escape text

/-- The body of an arm that starts with a doubled sigil, without the white space before its comma. -/
theorem Tree.read_text_escapes_arm :
    ∃ tree, Tree.read {} "@match n { 1 => @@é , }".toList = .ok tree ∧
      ∃ node ∈ tree.preorder, node.form = .text "@é" ∧
        slice? "@match n { 1 => @@é , }".toList node.span = some (escape "@é".toList) := by
  have read : Tree.read {} "@match n { 1 => @@é , }".toList =
      .ok ⟨[⟨.statement (.matchOn ⟨"n", ⟨7, 8⟩⟩
        [⟨⟨"1", ⟨11, 12⟩⟩, .inline [⟨.text "@é", ⟨16, 20⟩⟩], ⟨11, 20⟩⟩]), ⟨0, 24⟩⟩],
        "@match n { 1 => @@é , }".toList, 0⟩ := by cbv
  have member : (⟨.text "@é", ⟨16, 20⟩⟩ : Node) ∈ Tree.preorder
      ⟨[⟨.statement (.matchOn ⟨"n", ⟨7, 8⟩⟩
        [⟨⟨"1", ⟨11, 12⟩⟩, .inline [⟨.text "@é", ⟨16, 20⟩⟩], ⟨11, 20⟩⟩]), ⟨0, 24⟩⟩],
        "@match n { 1 => @@é , }".toList, 0⟩ := by
    simp [Tree.preorder, Node.preorder_eq, Node.children, Node.form, Form.children, Statement.children, armNodes,
      ArmBody.nodes]
  exact ⟨_, read, _, member, rfl, Tree.read_text_escapes read _ member "@é" rfl⟩

end SigilTemplate
