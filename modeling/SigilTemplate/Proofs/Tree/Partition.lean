import SigilTemplate.Proofs.Tree.Preorder
import SigilTemplate.Tree.Tiling

/-!
The spans of a tree that has been read partition its content: every child lies
inside its parent, siblings follow each other, and the tiles cover everything
from the start of the content to the end of the source, none of them empty.
-/

namespace SigilTemplate
open Text

/-- Spans that follow each other between two offsets, perhaps with gaps; none of them is empty. -/
def SpansOrdered (start : Nat) : List Span → Nat → Prop
  | [], stop => start ≤ stop
  | span :: rest, stop => start ≤ span.start ∧ span.start < span.stop ∧ SpansOrdered span.stop rest stop

/-- Spans that cover everything between two offsets, each from where the one before it ends; none of them is empty. -/
def SpansTile (start : Nat) : List Span → Nat → Prop
  | [], stop => start = stop
  | span :: rest, stop => span.start = start ∧ span.start < span.stop ∧ SpansTile span.stop rest stop

theorem SpansOrdered.le {start stop : Nat} {spans : List Span} (ordered : SpansOrdered start spans stop) :
    start ≤ stop := by
  induction spans generalizing start with
  | nil => exact ordered
  | cons span rest ih =>
    have further := ih ordered.2.2
    have after := ordered.1
    have lt := ordered.2.1
    omega

theorem SpansTile.append {start middle stop : Nat} {first second : List Span} (left : SpansTile start first middle)
    (right : SpansTile middle second stop) : SpansTile start (first ++ second) stop := by
  induction first generalizing start with
  | nil =>
    obtain rfl : start = middle := left
    exact right
  | cons span rest ih => exact ⟨left.1, left.2.1, ih left.2.2⟩

theorem SpansTile.spansOrdered {start stop : Nat} {spans : List Span} (tile : SpansTile start spans stop) :
    SpansOrdered start spans stop := by
  induction spans generalizing start with
  | nil => exact Nat.le_of_eq tile
  | cons span rest ih => exact ⟨Nat.le_of_eq tile.1.symm, tile.2.1, ih tile.2.2⟩

/-- The check of the tiles finds nothing in spans that tile. -/
theorem SpansTile.tilingFault?_eq_none {start size : Nat} {tiles : List Span} (tile : SpansTile start tiles size) :
    tilingFault? size start tiles = none := by
  induction tiles generalizing start with
  | nil => exact if_pos tile
  | cons span rest ih =>
    rw [tilingFault?, if_pos tile.1]
    exact ih tile.2.2

theorem InOrder.spansOrdered {c d : Cursor} {nodes : List Node} (order : InOrder c nodes d) :
    SpansOrdered c.pos (nodes.map (·.span)) d.pos := by
  induction order with
  | nil le => exact Cursor.pos_le le
  | cons le lt span _ ih =>
    simp only [List.map_cons, SpansOrdered, span]
    exact ⟨Cursor.pos_le le, Cursor.pos_lt lt, ih⟩

/-! ## The check, node by node -/

theorem Node.fold_span {β : Type} (f : Form (Span × β) → Span → β) (node : Node) :
    (node.fold fun form span => (span, f form span)).1 = node.span := by
  obtain ⟨form, span⟩ := node
  rw [Node.fold_mk]
  rfl

/-- A node has a fault where its children have one, at themselves or below. -/
theorem Node.nestingFault?_eq (node : Node) :
    node.nestingFault? =
      siblingFault? node.span node.span.start (node.children.map fun child => (child.span, child.nestingFault?)) := by
  obtain ⟨form, span⟩ := node
  rw [nestingFault?, Node.fold_mk]
  simp only [Form.children_map]
  congr 1
  refine List.map_congr_left fun child _ => ?_
  exact Prod.ext (Node.fold_span _ child) rfl

theorem Form.tiles_of_leaf {form : Form (Span × List Span)} (span : Span) (leaf : form.children = []) :
    form.tiles span = [span] := by
  unfold tiles
  rw [leaf]

theorem Form.tiles_of_inner {form : Form (Span × List Span)} (span : Span) (inner : form.children ≠ []) :
    form.tiles span = tilesFrom span.stop span.start form.children := by
  unfold tiles
  cases children : form.children with
  | nil => exact absurd children inner
  | cons child rest => rfl

/-- In a node, children come with their spans and their own tiles. -/
theorem Node.children_fold (node : Node) :
    (node.form.map (Node.fold fun form span => (span, form.tiles span))).children =
      node.children.map fun child => (child.span, child.tiles) := by
  rw [Form.children_map]
  refine List.map_congr_left fun child _ => ?_
  exact Prod.ext (Node.fold_span _ child) rfl

theorem Node.tiles_of_leaf {node : Node} (leaf : node.children = []) : node.tiles = [node.span] := by
  have none := node.children_fold
  rw [leaf, List.map_nil] at none
  obtain ⟨form, span⟩ := node
  rw [tiles, Node.fold_mk]
  exact Form.tiles_of_leaf span none

/-- The tiles of a node with children are theirs and the gaps around them. -/
theorem Node.tiles_of_inner {node : Node} (inner : node.children ≠ []) :
    node.tiles = tilesFrom node.span.stop node.span.start (node.children.map fun child => (child.span, child.tiles)) := by
  have some := node.children_fold
  rw [← some]
  have nonempty : (node.form.map (Node.fold fun form span => (span, form.tiles span))).children ≠ [] := by
    rw [some]
    simpa using inner
  obtain ⟨form, span⟩ := node
  rw [tiles, Node.fold_mk]
  exact Form.tiles_of_inner span nonempty

/-- Children in order between two offsets of their parent have no fault beyond those of their own. -/
theorem siblingFault?_eq_none {parent : Span} {place stop : Nat} {children : List Node}
    (ordered : SpansOrdered place (children.map (·.span)) stop) (start : parent.start ≤ place)
    (ends : stop ≤ parent.stop) (inner : ∀ child ∈ children, child.nestingFault? = none) :
    siblingFault? parent place (children.map fun child => (child.span, child.nestingFault?)) = none := by
  induction children generalizing place with
  | nil => rfl
  | cons child rest ih =>
    simp only [List.map_cons, SpansOrdered] at ordered
    obtain ⟨after, lt, further⟩ := ordered
    have within := further.le
    have contains : parent.contains child.span = true := by
      simp only [Span.contains, Bool.and_eq_true, decide_eq_true_eq]
      omega
    rw [List.map_cons, siblingFault?.eq_def]
    simp only [contains, Bool.not_true, inner child (by simp)]
    rw [if_neg (by simp), if_neg (by omega)]
    exact ih further (by omega) fun other member => inner other (by simp [member])

/-- The gaps around children in order, together with their own tiles, leave nothing out. -/
theorem tilesFrom_tile {place stop : Nat} {children : List Node}
    (ordered : SpansOrdered place (children.map (·.span)) stop)
    (inner : ∀ child ∈ children, SpansTile child.span.start child.tiles child.span.stop) :
    SpansTile place (tilesFrom stop place (children.map fun child => (child.span, child.tiles))) stop := by
  have gap {from_ to_ : Nat} (le : from_ ≤ to_) :
      SpansTile from_ (if from_ < to_ then [⟨from_, to_⟩] else []) to_ := by
    by_cases lt : from_ < to_
    · rw [if_pos lt]
      exact ⟨rfl, lt, rfl⟩
    · rw [if_neg lt]
      exact Nat.le_antisymm le (Nat.le_of_not_lt lt)
  induction children generalizing place with
  | nil => exact gap ordered
  | cons child rest ih =>
    simp only [List.map_cons, SpansOrdered] at ordered
    obtain ⟨after, _, further⟩ := ordered
    have later := ih further fun other member => inner other (by simp [member])
    exact ((gap after).append (inner child (by simp))).append later

variable {source : List Char}

theorem Grown.nestingFault?_eq_none {node : Node} (grown : Grown source node) : node.nestingFault? = none := by
  induction node using Node.induct with
  | step node ih =>
    obtain ⟨c, d, _, _, span, order⟩ := grown.exists_inOrder
    rw [Node.nestingFault?_eq, span]
    exact siblingFault?_eq_none order.spansOrdered (Nat.le_refl _) (Nat.le_refl _) fun child member =>
      ih child member (grown.children child member)

/-- The tiles of a node cover its span. -/
theorem Grown.tiles_tile {node : Node} (grown : Grown source node) :
    SpansTile node.span.start node.tiles node.span.stop := by
  induction node using Node.induct with
  | step node ih =>
    obtain ⟨c, d, _, lt, span, order⟩ := grown.exists_inOrder
    by_cases leaf : node.children = []
    · rw [Node.tiles_of_leaf leaf, span]
      exact ⟨rfl, Cursor.pos_lt lt, rfl⟩
    · rw [Node.tiles_of_inner leaf, span]
      exact tilesFrom_tile order.spansOrdered fun child member => ih child member (grown.children child member)

/-! ## Whole trees -/

/-- Where spans tile, their own tiles do. -/
theorem SpansTile.flatMap_tiles {start stop : Nat} {nodes : List Node}
    (tile : SpansTile start (nodes.map (·.span)) stop) (grown : ∀ node ∈ nodes, Grown source node) :
    SpansTile start (nodes.flatMap Node.tiles) stop := by
  induction nodes generalizing start with
  | nil => exact tile
  | cons node rest ih =>
    simp only [List.map_cons, SpansTile] at tile
    obtain ⟨here, _, further⟩ := tile
    have first := (grown node (by simp)).tiles_tile
    rw [here] at first
    rw [List.flatMap_cons]
    exact first.append (ih further fun other member => grown other (by simp [member]))

/-- The nodes of a region leave nothing out between its two places. -/
theorem Items.spans_tile {mode : TextMode} {c d : Cursor} {nodes : List Node} {state : TextState}
    (items : Items mode c nodes state d) : SpansTile c.pos (nodes.map (·.span)) d.pos := by
  induction items with
  | start => exact rfl
  | text _ atText ih =>
    rw [List.map_append]
    exact ih.append ⟨rfl, Cursor.pos_lt (lt_textRun_of_atText atText), rfl⟩
  | construct _ _ lt span _ ih =>
    rw [List.map_append, List.map_singleton, span]
    exact ih.append ⟨rfl, Cursor.pos_lt lt, rfl⟩

theorem Leading.spans_tile {c d : Cursor} {nodes : List Node} (leading : Leading c nodes d) :
    SpansTile c.pos (nodes.map (·.span)) d.pos := by
  cases leading with
  | nothing => exact rfl
  | header spells =>
    obtain ⟨lt, span, _⟩ := spells.inOrder
    have blank := Cursor.pos_le (Cursor.le_skipBlank c)
    have before : SpansTile c.pos ((leadingText c c.skipBlank).map (·.span)) c.skipBlank.pos := by
      unfold leadingText
      split
      · next gap => exact ⟨rfl, gap, rfl⟩
      · next none => exact Nat.le_antisymm blank (Nat.le_of_not_lt none)
    rw [List.map_append, List.map_singleton, span]
    exact before.append ⟨rfl, Cursor.pos_lt lt, rfl⟩

theorem Tree.Grown.spans_tile {tree : Tree} (grown : tree.Grown source) :
    SpansTile tree.contentStart (tree.nodes.map (·.span)) (byteLength source) := by
  obtain ⟨leading, nodes, c, state, d, same, before, items, ends⟩ := grown.nodes_eq
  have start := ofText_le_contentCursor source
  have finish : d.pos = byteLength source := by
    have total := Cursor.pos_add_rest (start.trans ((before.grown start).1.trans items.inOrder.le))
    simpa [ends, Cursor.ofText] using total
  rw [grown.contentStart_eq, same, List.map_append, ← finish]
  exact before.spans_tile.append items.spans_tile

/-- The spans of a tree partition its content: the check finds no fault in them, no node is empty, children follow
each other inside their parent, and the nodes of the tree as well as its tiles cover everything from the start of the
content to the end of the source. -/
theorem Tree.read_spans_partition {options : ReadOptions} {source : List Char} {tree : Tree}
    (read : Tree.read options source = .ok tree) :
    tree.spanFault? = none ∧
      (∀ node ∈ tree.preorder, node.span.start < node.span.stop ∧
        SpansOrdered node.span.start (node.children.map (·.span)) node.span.stop) ∧
      SpansTile tree.contentStart (tree.nodes.map (·.span)) (byteLength source) ∧
      SpansTile tree.contentStart tree.tiles (byteLength source) := by
  have grown := Tree.read_grown read
  have spans := grown.spans_tile
  have tiles : SpansTile tree.contentStart tree.tiles (byteLength source) := spans.flatMap_tiles grown.grown
  refine ⟨?_, ?_, spans, tiles⟩
  · have nesting : tree.nodes.findSome? Node.nestingFault? = none := by
      rw [List.findSome?_eq_none_iff]
      exact fun node member => (grown.grown node member).nestingFault?_eq_none
    rw [spanFault?, nesting, grown.source_eq]
    exact tiles.tilingFault?_eq_none
  · intro node member
    obtain ⟨c, d, _, lt, span, order⟩ := (grown.of_mem_preorder node member).exists_inOrder
    rw [span]
    exact ⟨Cursor.pos_lt lt, order.spansOrdered⟩

theorem Tree.read_spans_partition_sample :
    ∃ tree, Tree.read {} sampleTemplate = .ok tree ∧ tree.spanFault? = none ∧
      (∀ node ∈ tree.preorder, node.span.start < node.span.stop ∧
        SpansOrdered node.span.start (node.children.map (·.span)) node.span.stop) ∧
      SpansTile tree.contentStart (tree.nodes.map (·.span)) (byteLength sampleTemplate) ∧
      SpansTile tree.contentStart tree.tiles (byteLength sampleTemplate) := by
  obtain ⟨tree, read⟩ := Tree.exists_read_sample
  exact ⟨tree, read, Tree.read_spans_partition read⟩

end SigilTemplate
