import SigilTemplate.Proofs.Reading.Soundness
import SigilTemplate.Tree.Visit

/-!
All nodes of a tree that has been read are written by the rules, at any depth.
What the rules say of one node therefore holds of every node of the tree.
-/

namespace SigilTemplate

/-- A node comes before all that is below it. -/
theorem Node.preorder_eq (node : Node) : node.preorder = node :: node.children.flatMap Node.preorder := by
  rw [preorder, visits_eq]
  simp only [if_true, List.filterMap_cons, List.filterMap_append, List.filterMap_flatMap, List.filterMap_nil,
    List.append_nil]
  rfl

theorem Tree.mem_preorder_of_mem_nodes {tree : Tree} {node : Node} (root : node ∈ tree.nodes) : node ∈ tree.preorder := by
  refine List.mem_flatMap.mpr ⟨node, root, ?_⟩
  rw [Node.preorder_eq]
  exact List.mem_cons_self

variable {source : List Char}

theorem Grown.children {node : Node} (grown : Grown source node) : ∀ child ∈ node.children, Grown source child := by
  cases grown with
  | text => simp [Node.children, Node.form, Form.children]
  | construct _ _ below => exact below

/-- What is below a node that the rules have written is written by them too. -/
theorem Grown.of_mem_preorder {node : Node} (grown : Grown source node) : ∀ inner ∈ node.preorder, Grown source inner := by
  induction node using Node.induct with
  | step node ih =>
    intro inner member
    rw [Node.preorder_eq] at member
    rcases List.mem_cons.mp member with rfl | deeper
    · exact grown
    · obtain ⟨child, among, inside⟩ := List.mem_flatMap.mp deeper
      exact ih child among (grown.children child among) inner inside

theorem Tree.Grown.of_mem_preorder {tree : Tree} (grown : tree.Grown source) :
    ∀ node ∈ tree.preorder, SigilTemplate.Grown source node := by
  intro node member
  obtain ⟨root, among, inside⟩ := List.mem_flatMap.mp member
  exact (grown.grown root among).of_mem_preorder node inside

/-- A node has its own two places in the source, and its children are in order between them. -/
theorem Grown.exists_inOrder {node : Node} (grown : Grown source node) :
    ∃ c d, Cursor.ofText source ≤ c ∧ c < d ∧ node.span = c.spanTo d ∧ InOrder c node.children d := by
  cases grown with
  | text place lt _ => exact ⟨_, _, place, lt, rfl, .nil lt.le⟩
  | construct place spells _ =>
    obtain ⟨lt, span, order⟩ := spells.inOrder
    exact ⟨_, _, place, lt, span, order⟩

end SigilTemplate
