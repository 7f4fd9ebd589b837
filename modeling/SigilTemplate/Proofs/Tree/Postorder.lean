import Mathlib.Data.List.Perm.Basic
import SigilTemplate.Proofs.Tree.Preorder
import SigilTemplate.Reading.Traced

/-!
Trees from the leaves up. In postorder a node comes after all that is below it,
as constructs are given up while they are read; the same nodes come in preorder
and in postorder. The layers of a tree bound how far up a node is from its leaves.
-/

namespace SigilTemplate

/-- All nodes of a tree, each after what is below it. -/
def Node.postorder (node : Node) : List Node :=
  (node.visits fun _ => true).filterMap fun
    | .enter _ => none
    | .leave node => some node

def Tree.postorder (tree : Tree) : List Node := tree.nodes.flatMap Node.postorder

/-- A node comes after all that is below it. -/
theorem Node.postorder_eq (node : Node) : node.postorder = node.children.flatMap Node.postorder ++ [node] := by
  rw [postorder, visits_eq]
  simp only [if_true, List.filterMap_cons, List.filterMap_append, List.filterMap_flatMap, List.filterMap_nil]
  rfl

/-- Both orders list the same nodes. -/
theorem Node.preorder_perm_postorder (node : Node) : node.preorder.Perm node.postorder := by
  induction node using Node.induct with
  | step node ih =>
    rw [preorder_eq, postorder_eq]
    have below : (node.children.flatMap Node.preorder).Perm (node.children.flatMap Node.postorder) :=
      List.Perm.flatMap_left _ ih
    exact (below.cons node).trans (List.perm_append_singleton _ _).symm

theorem Tree.preorder_perm_postorder (tree : Tree) : tree.preorder.Perm tree.postorder :=
  List.Perm.flatMap_left _ fun node _ => node.preorder_perm_postorder

/-! ## Recoveries -/

/-- The recovery that an error node stands for. -/
def Node.recovery? (node : Node) : Option Recovery := node.malformation?.map fun cause => ⟨cause.kind, node.span⟩

/-- The recoveries of the error nodes of a tree, inner ones first. -/
def Node.recoveries (node : Node) : List Recovery := node.postorder.filterMap Node.recovery?

theorem Node.recoveries_eq (node : Node) :
    node.recoveries = node.children.flatMap Node.recoveries ++ node.recovery?.toList := by
  rw [recoveries, postorder_eq, List.filterMap_append, List.filterMap_flatMap, List.filterMap_cons, List.filterMap_nil]
  cases node.recovery? <;> rfl

/-! ## Layers -/

/-- A node with at most so many layers of nodes in it, its own among them. -/
inductive Node.Layers : Nat → Node → Prop
  | node {bound : Nat} {node : Node} (children : ∀ child ∈ node.children, Layers bound child) : Layers (bound + 1) node

theorem Node.Layers.mono {low high : Nat} {node : Node} (layers : node.Layers low) (le : low ≤ high) : node.Layers high := by
  induction layers generalizing high with
  | @node bound node _ ih =>
    cases high with
    | zero => omega
    | succ high => exact .node fun child among => ih child among (by omega)

/-- The node stands in the tree with so many nodes above it. -/
inductive Tree.Lies (tree : Tree) : Nat → Node → Prop
  | root {node : Node} (among : node ∈ tree.nodes) : Lies tree 0 node
  | child {above : Nat} {node child : Node} (parent : Lies tree above node) (among : child ∈ node.children) :
    Lies tree (above + 1) child

/-- In a tree of few layers a node has fewer nodes above it. -/
theorem Tree.Lies.lt {tree : Tree} {bound above : Nat} {node : Node} (lies : tree.Lies above node)
    (layers : ∀ root ∈ tree.nodes, root.Layers bound) : above < bound := by
  have left : ∃ rest, above + rest = bound ∧ node.Layers rest := by
    induction lies with
    | root among => exact ⟨bound, by omega, layers _ among⟩
    | child _ among ih =>
      obtain ⟨rest, sum, inside⟩ := ih
      cases inside with
      | @node rest _ children => exact ⟨rest, by omega, children _ among⟩
  obtain ⟨rest, sum, inside⟩ := left
  cases inside with
  | node => omega

end SigilTemplate
