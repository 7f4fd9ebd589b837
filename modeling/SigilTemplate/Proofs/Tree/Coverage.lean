import SigilTemplate.Proofs.Tree.Partition

/-!
What the check of the spans says of trees of any origin. The check compares
neighbours only, and a span may end before it starts. Over each offset the tiles
of a tree without a fault then go forward once more than they go back, if the
offset lies in the content, and as often if it does not. They partition the
content just where no span of a node is reversed.
-/

namespace SigilTemplate
open Text

/-- The offset lies in the span. -/
abbrev Span.Covers (offset : Nat) (span : Span) : Prop := span.start ≤ offset ∧ offset < span.stop

/-- The span goes back over the offset, from behind it. -/
abbrev Span.GoesBack (offset : Nat) (span : Span) : Prop := span.stop ≤ offset ∧ offset < span.start

/-- The span ends before it starts. -/
abbrev Span.Reversed (span : Span) : Prop := span.stop < span.start

/-- Every offset of the content lies in exactly one tile, and every tile lies in the content. -/
structure Tree.Partitioned (tree : Tree) : Prop where
  once : ∀ offset, tree.contentStart ≤ offset → offset < byteLength tree.source →
    tree.tiles.countP (Span.Covers offset) = 1
  within : ∀ tile ∈ tree.tiles, tree.contentStart ≤ tile.start ∧ tile.stop ≤ byteLength tree.source

variable {size place offset stop : Nat} {tile : Span} {tiles : List Span} {node child : Node}

/-! ## Tiles, each from where the one before it ends -/

/-- Tiles that lead from one offset to another go forward over an offset as often as they go back over it, and once more
or less if it lies between the two. -/
theorem countP_covers_of_tilingFault? (sound : tilingFault? size place tiles = none) (offset : Nat) :
    tiles.countP (Span.Covers offset) + (if size ≤ offset ∧ offset < place then 1 else 0) =
      tiles.countP (Span.GoesBack offset) + if place ≤ offset ∧ offset < size then 1 else 0 := by
  induction tiles generalizing place with
  | nil =>
    simp only [tilingFault?, ite_eq_left_iff, reduceCtorEq, imp_false, not_not] at sound
    subst sound
    rfl
  | cons tile tiles ih =>
    rw [tilingFault?] at sound
    split at sound
    · next here =>
      have later := ih sound
      subst here
      simp only [List.countP_cons, decide_eq_true_eq]
      split_ifs at later ⊢ <;> omega
    · simp at sound

/-- Tiles of which none is reversed lead forward only. -/
theorem within_of_tilingFault? (sound : tilingFault? size place tiles = none)
    (forward : ∀ tile ∈ tiles, ¬ tile.Reversed) :
    place ≤ size ∧ ∀ tile ∈ tiles, place ≤ tile.start ∧ tile.stop ≤ size := by
  induction tiles generalizing place with
  | nil =>
    simp only [tilingFault?, ite_eq_left_iff, reduceCtorEq, imp_false, not_not] at sound
    exact ⟨Nat.le_of_eq sound, by simp⟩
  | cons tile tiles ih =>
    rw [tilingFault?] at sound
    split at sound
    · next here =>
      obtain ⟨le, inside⟩ := ih sound fun other among => forward other (by simp [among])
      have first := forward tile (by simp)
      refine ⟨by omega, List.forall_mem_cons.mpr ⟨by omega, fun other among => ?_⟩⟩
      have bounds := inside other among
      omega
    · simp at sound

/-! ## Reversed tiles and reversed nodes -/

/-- The tiles around some children are theirs and gaps, and no gap is reversed. -/
theorem exists_child_of_mem_tilesFrom {children : List (Span × List Span)} (among : tile ∈ tilesFrom stop place children)
    (reversed : tile.Reversed) : ∃ child ∈ children, tile ∈ child.2 := by
  induction children generalizing place with
  | nil =>
    rw [tilesFrom] at among
    split at among
    · obtain rfl := List.mem_singleton.mp among
      exact absurd reversed (by simp; omega)
    · simp at among
  | cons child children ih =>
    rw [tilesFrom, List.mem_append, List.mem_append] at among
    rcases among with (gap | own) | later
    · split at gap
      · obtain rfl := List.mem_singleton.mp gap
        exact absurd reversed (by simp; omega)
      · simp at gap
    · exact ⟨child, by simp, own⟩
    · obtain ⟨other, member, inside⟩ := ih later
      exact ⟨other, by simp [member], inside⟩

theorem mem_tilesFrom_of_child {children : List (Span × List Span)} {child : Span × List Span} (member : child ∈ children)
    (own : tile ∈ child.2) : tile ∈ tilesFrom stop place children := by
  induction children generalizing place with
  | nil => simp at member
  | cons first children ih =>
    rw [tilesFrom, List.mem_append, List.mem_append]
    rcases List.mem_cons.mp member with rfl | later
    · exact .inl (.inr own)
    · exact .inr (ih later)

theorem Node.mem_tiles_of_mem_children (member : child ∈ node.children) (among : tile ∈ child.tiles) :
    tile ∈ node.tiles := by
  rw [tiles_of_inner (List.ne_nil_of_mem member)]
  exact mem_tilesFrom_of_child (List.mem_map_of_mem member) among

/-- Children among which the check finds no fault lie in their parent, and have no fault themselves. -/
theorem contains_of_siblingFault? {parent : Span} {children : List (Span × Option SpanFault)}
    (sound : siblingFault? parent place children = none) :
    ∀ child ∈ children, parent.contains child.1 = true ∧ child.2 = none := by
  induction children generalizing place with
  | nil => simp
  | cons child children ih =>
    rw [siblingFault?.eq_def] at sound
    simp only at sound
    split at sound
    · simp at sound
    · next inside =>
      split at sound
      · simp at sound
      · split at sound
        · simp at sound
        · next own =>
          exact List.forall_mem_cons.mpr ⟨⟨by simpa using inside, own⟩, ih sound⟩

theorem Node.contains_children (sound : node.nestingFault? = none) :
    ∀ child ∈ node.children, node.span.contains child.span = true ∧ child.nestingFault? = none := by
  rw [nestingFault?_eq] at sound
  intro child member
  exact contains_of_siblingFault? sound _ (List.mem_map_of_mem member)

/-- A tile is reversed just where a node is: a reversed parent holds reversed children only. -/
theorem Node.exists_reversed_iff (sound : node.nestingFault? = none) :
    (∃ tile ∈ node.tiles, tile.Reversed) ↔ ∃ inner ∈ node.preorder, inner.span.Reversed := by
  induction node using Node.induct with
  | step node ih =>
    have each := contains_children sound
    rw [preorder_eq]
    constructor
    · rintro ⟨tile, among, reversed⟩
      by_cases leaf : node.children = []
      · rw [tiles_of_leaf leaf, List.mem_singleton] at among
        subst among
        exact ⟨node, by simp, reversed⟩
      · rw [tiles_of_inner leaf] at among
        obtain ⟨_, pair, own⟩ := exists_child_of_mem_tilesFrom among reversed
        obtain ⟨child, member, rfl⟩ := List.mem_map.mp pair
        obtain ⟨inner, deeper, backward⟩ := (ih child member (each child member).2).mp ⟨tile, own, reversed⟩
        exact ⟨inner, List.mem_cons_of_mem _ (List.mem_flatMap.mpr ⟨child, member, deeper⟩), backward⟩
    · have below (child : Node) (member : child ∈ node.children)
          (some : ∃ inner ∈ child.preorder, inner.span.Reversed) : ∃ tile ∈ node.tiles, tile.Reversed := by
        obtain ⟨tile, among, reversed⟩ := (ih child member (each child member).2).mpr some
        exact ⟨tile, mem_tiles_of_mem_children member among, reversed⟩
      rintro ⟨inner, among, reversed⟩
      rcases List.mem_cons.mp among with rfl | deeper
      · cases children : inner.children with
        | nil => exact ⟨inner.span, by simp [tiles_of_leaf children], reversed⟩
        | cons child others =>
          have member : child ∈ inner.children := by simp [children]
          have inside := (each child member).1
          simp only [Span.contains, Bool.and_eq_true, decide_eq_true_eq] at inside
          have backward : child.span.Reversed := by omega
          exact below child member ⟨child, by rw [child.preorder_eq]; exact List.mem_cons_self, backward⟩
      · obtain ⟨child, member, inside⟩ := List.mem_flatMap.mp deeper
        exact below child member ⟨inner, inside, reversed⟩

/-! ## Whole trees -/

theorem Tree.nestingFault?_eq_none {tree : Tree} (sound : tree.spanFault? = none) :
    (∀ node ∈ tree.nodes, node.nestingFault? = none) ∧
      tilingFault? (byteLength tree.source) tree.contentStart tree.tiles = none := by
  rw [spanFault?] at sound
  split at sound
  · simp at sound
  · next nesting => exact ⟨List.findSome?_eq_none_iff.mp nesting, sound⟩

theorem Tree.exists_reversed_iff {tree : Tree} (sound : tree.spanFault? = none) :
    (∃ tile ∈ tree.tiles, tile.Reversed) ↔ ∃ node ∈ tree.preorder, node.span.Reversed := by
  have each := (nestingFault?_eq_none sound).1
  constructor
  · rintro ⟨tile, among, reversed⟩
    obtain ⟨root, member, own⟩ := List.mem_flatMap.mp among
    obtain ⟨node, inside, backward⟩ := (Node.exists_reversed_iff (each root member)).mp ⟨tile, own, reversed⟩
    exact ⟨node, List.mem_flatMap.mpr ⟨root, member, inside⟩, backward⟩
  · rintro ⟨node, among, reversed⟩
    obtain ⟨root, member, own⟩ := List.mem_flatMap.mp among
    obtain ⟨tile, inside, backward⟩ := (Node.exists_reversed_iff (each root member)).mpr ⟨node, own, reversed⟩
    exact ⟨tile, List.mem_flatMap.mpr ⟨root, member, inside⟩, backward⟩

/-- In whatever tree the check finds no fault, the tiles go forward over each offset of the content once more than they
go back over it, and over all other offsets as often. So they partition the content if no node of the tree ends before
it starts, and in no other case. -/
theorem Tree.partitioned_iff {tree : Tree} (fits : tree.contentStart ≤ byteLength tree.source)
    (sound : tree.spanFault? = none) :
    (∀ offset, tree.tiles.countP (Span.Covers offset) = tree.tiles.countP (Span.GoesBack offset) +
      if tree.contentStart ≤ offset ∧ offset < byteLength tree.source then 1 else 0) ∧
    (tree.Partitioned ↔ ∀ node ∈ tree.preorder, node.span.start ≤ node.span.stop) := by
  have tiling := (nestingFault?_eq_none sound).2
  have counts (offset : Nat) : tree.tiles.countP (Span.Covers offset) = tree.tiles.countP (Span.GoesBack offset) +
      if tree.contentStart ≤ offset ∧ offset < byteLength tree.source then 1 else 0 := by
    have both := countP_covers_of_tilingFault? tiling offset
    rwa [if_neg (by omega), Nat.add_zero] at both
  refine ⟨counts, ?_⟩
  have nodes : (∀ node ∈ tree.preorder, node.span.start ≤ node.span.stop) ↔ ∀ tile ∈ tree.tiles, ¬ tile.Reversed := by
    have neither := not_congr (exists_reversed_iff sound)
    simp only [not_exists, not_and, Nat.not_lt] at neither ⊢
    exact neither.symm
  rw [nodes]
  constructor
  · intro partitioned tile among reversed
    have back : 0 < tree.tiles.countP (Span.GoesBack tile.stop) :=
      List.countP_pos_iff.mpr ⟨tile, among, by simpa using reversed⟩
    have count := counts tile.stop
    by_cases inside : tree.contentStart ≤ tile.stop ∧ tile.stop < byteLength tree.source
    · -- A second tile goes over what the reversed one goes back over.
      have one := partitioned.once tile.stop inside.1 inside.2
      rw [if_pos inside] at count
      omega
    · rw [if_neg inside] at count
      obtain ⟨other, member, covers⟩ := List.countP_pos_iff.mp (by omega : 0 < tree.tiles.countP (Span.Covers tile.stop))
      have bounds := partitioned.within other member
      simp only [decide_eq_true_eq] at covers
      omega
  · intro forward
    refine ⟨fun offset start lt => ?_, (within_of_tilingFault? tiling forward).2⟩
    have never : tree.tiles.countP (Span.GoesBack offset) = 0 := by
      refine List.countP_eq_zero.mpr fun tile among => ?_
      have ordered := forward tile among
      simp only [decide_eq_true_eq]
      omega
    rw [counts, never, if_pos ⟨start, lt⟩]

/-- Children with gaps around them, one of them empty, behind a byte order mark. -/
theorem Tree.partitioned_iff_sample :
    let tree : Tree :=
      ⟨[⟨.text "a", ⟨3, 4⟩⟩, ⟨.error .invalidSigil [⟨.comment "c", ⟨5, 6⟩⟩, ⟨.text "", ⟨6, 6⟩⟩], ⟨4, 8⟩⟩],
        "\ufeffabcde".toList, 3⟩
    tree.spanFault? = none ∧ tree.tiles = [⟨3, 4⟩, ⟨4, 5⟩, ⟨5, 6⟩, ⟨6, 6⟩, ⟨6, 8⟩] ∧ tree.Partitioned := by
  intro tree
  have sound : tree.spanFault? = none := by decide +kernel
  have forward : ∀ node ∈ tree.preorder, node.span.start ≤ node.span.stop := by
    simp [tree, preorder, Node.preorder_eq, Node.children, Node.form, Form.children, Node.span]
  exact ⟨sound, by decide +kernel, (partitioned_iff (by decide +kernel) sound).2.mpr forward⟩

/-- With a reversed span between two others, the check finds no fault, and an offset lies in two tiles. -/
theorem Tree.not_partitioned_reversed :
    let tree : Tree :=
      ⟨[⟨.text "abcd", ⟨0, 4⟩⟩, ⟨.text "", ⟨4, 2⟩⟩, ⟨.text "cdef", ⟨2, 6⟩⟩], "abcdef".toList, 0⟩
    tree.contentStart ≤ byteLength tree.source ∧ tree.spanFault? = none ∧
      tree.tiles.countP (Span.Covers 3) = 2 ∧ ¬ tree.Partitioned := by
  intro tree
  have twice : tree.tiles.countP (Span.Covers 3) = 2 := by decide +kernel
  refine ⟨by decide +kernel, by decide +kernel, twice, fun partitioned => ?_⟩
  have once := partitioned.once 3 (by decide +kernel) (by decide +kernel)
  rw [twice] at once
  omega

end SigilTemplate
