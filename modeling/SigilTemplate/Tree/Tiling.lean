import SigilTemplate.Tree.Fold

/-!
The spans of a tree as tiles of its source. A node without children is one
tile; a node with children gives the tiles of its children and one for each gap
before, between and after them, where its sigils, keywords and braces stand.

`Tree.check` compares neighbours only: every child with its parent and with the
child before it, every tile with the end of the tile before it.
-/

namespace SigilTemplate

/-- The tiles of a span from `place` on, around children whose spans and tiles are given. -/
def tilesFrom (stop : Nat) (place : Nat) : List (Span × List Span) → List Span
  | [] => if place < stop then [⟨place, stop⟩] else []
  | (child, tiles) :: rest =>
    (if place < child.start then [⟨place, child.start⟩] else []) ++ tiles ++
      tilesFrom stop child.stop rest

/-- The tiles of one form, given those of its children. -/
def Form.tiles (form : Form (Span × List Span)) (span : Span) : List Span :=
  match form.children with
  | [] => [span]
  | children => tilesFrom span.stop span.start children

/-- The tiles of a node: its leaves, and the gaps around its children. -/
def Node.tiles (node : Node) : List Span :=
  (node.fold fun form span => (span, form.tiles span)).2

def Tree.tiles (tree : Tree) : List Span := tree.nodes.flatMap Node.tiles

/-- Why the spans of a tree do not fit. -/
inductive SpanFault where
  | escapesParent (child parent : Span)
  | overlapsSibling (child : Span)
  /-- A tile does not start where the one before it ended. -/
  | leafStart (leaf : Span) (expected : Nat)
  /-- The last tile does not end at the end of the source. -/
  | leafEnd (last size : Nat)
deriving DecidableEq

/-- The written form of a span in a message about spans. -/
def Span.description (span : Span) : String :=
  "Span \x7b start: " ++ toString span.start ++ ", end: " ++ toString span.stop ++ " \x7d"

def SpanFault.message : SpanFault → String
  | escapesParent child parent => child.description ++ " escapes its parent " ++ parent.description
  | overlapsSibling child => child.description ++ " overlaps its previous sibling"
  | leafStart leaf expected =>
    "leaf " ++ leaf.description ++ " does not start at " ++ toString expected
  | leafEnd last size =>
    "leaves end at " ++ toString last ++ " but source is " ++ toString size ++ " bytes"

/-- The first fault among children from `place` on. Each comes with its span and its own first fault. -/
def siblingFault? (parent : Span) (place : Nat) : List (Span × Option SpanFault) → Option SpanFault
  | [] => none
  | (child, inner) :: rest =>
    if !parent.contains child then some (.escapesParent child parent)
    else if child.start < place then some (.overlapsSibling child)
    else
      match inner with
      | some fault => some fault
      | none => siblingFault? parent child.stop rest

/-- The first child, at any depth, that leaves its parent or overlaps its sibling. -/
def Node.nestingFault? (node : Node) : Option SpanFault :=
  (node.fold fun form span => (span, siblingFault? span span.start form.children)).2

/-- The first tile that does not start where the one before it ended. -/
def tilingFault? (size : Nat) (place : Nat) : List Span → Option SpanFault
  | [] => if place = size then none else some (.leafEnd place size)
  | tile :: rest =>
    if tile.start = place then tilingFault? size tile.stop rest else some (.leafStart tile place)

/-- The first fault in the spans of a tree: nesting first, then the tiles. -/
def Tree.spanFault? (tree : Tree) : Option SpanFault :=
  match tree.nodes.findSome? Node.nestingFault? with
  | some fault => some fault
  | none => tilingFault? (Text.byteLength tree.source) tree.contentStart tree.tiles

end SigilTemplate
