import SigilTemplate.Tree.Fold

/-!
Visits of a tree in document order. A visit enters a node, visits its children
unless they are to be skipped, and leaves the node.
-/

namespace SigilTemplate

inductive Visit where
  | enter (node : Node)
  | leave (node : Node)

/-- The visits of a node and of what is below it, as far as `descend` allows. -/
def Node.visits (descend : Node → Bool) (node : Node) : List Visit :=
  .enter node ::
    ((if descend node then node.children.attach.flatMap fun ⟨child, _⟩ => child.visits descend else []) ++
      [.leave node])
termination_by node
decreasing_by exact Node.sizeOf_lt_of_mem_children ‹_›

theorem Node.visits_eq (descend : Node → Bool) (node : Node) :
    node.visits descend =
      .enter node ::
        ((if descend node then node.children.flatMap (Node.visits descend) else []) ++ [.leave node]) := by
  conv => lhs; unfold Node.visits
  congr 3
  simp [List.flatMap_subtype]

/-- All nodes of a tree, each before what is below it. -/
def Node.preorder (node : Node) : List Node :=
  (node.visits fun _ => true).filterMap fun
    | .enter node => some node
    | .leave _ => none

def Tree.preorder (tree : Tree) : List Node := tree.nodes.flatMap Node.preorder

/-- The malformation of an error node. -/
def Node.malformation? (node : Node) : Option Malformation :=
  match node.form with
  | .error cause _ => some cause
  | _ => none

/-- The malformations of a tree in document order, with their spans. -/
def Tree.errors (tree : Tree) : List (Malformation × Span) :=
  tree.preorder.filterMap fun node => node.malformation?.map (·, node.span)

end SigilTemplate
