import Mathlib
import SigilTemplate.Proofs.Alone.Region
import SigilTemplate.Proofs.Tree.Spelling

/-!
Constructs of a template on their own. The construct at the top of a template in
which nothing is malformed is cut out of it, and read as a template of its own:
that gives the same construct with offsets from its own start, and nothing else.
-/

namespace SigilTemplate
open Text

variable {source : List Char} {options : ReadOptions} {below : Below} {context : Context} {kind : RegionKind}
  {c d : Cursor} {node : Node}

theorem ReadsConstruct.grownFrom {read : ReadNode} (reads : ReadsConstruct below context c read)
    (sound : below.Sound source) (size : context.size = byteLength source) (place : Cursor.ofText source ≤ c) :
    GrownFrom source c read := by
  cases reads with
  | tag opens reads => exact (readTag_yields sound size place opens).of_clean reads
  | sigil sigil reads => exact (readSigil_yields sound size place sigil).of_clean reads

/-- A construct starts with one of two marks. -/
theorem ReadsConstruct.peek {read : ReadNode} (reads : ReadsConstruct below context c read) :
    c.peek = some '<' ∨ c.peek = some '@' := by
  cases reads with
  | tag opens => exact .inl (Cursor.peek_of_atTagOpen opens)
  | sigil sigil => exact .inr (Cursor.peek_of_atSigil sigil)

/-! ## Rounds over a template -/

/-- The nodes of a region so far are text, or have been read as constructs at places of the source. -/
structure RegionState.HoldsConstructs (source : List Char) (below : Below) (context : Context) (state : RegionState) :
    Prop where
  place : Cursor.ofText source ≤ state.place
  nodes : ∀ node ∈ state.nodes, (∀ content, node.form ≠ .text content) →
    ∃ c d, Cursor.ofText source ≤ c ∧ ReadsConstruct below context c (node, d)

theorem RegionState.HoldsConstructs.step {state next : RegionState} (sound : below.Sound source)
    (recording : below.Recording) (size : context.size = byteLength source)
    (holds : state.HoldsConstructs source below context) (goesOn : regionStep below context kind state = pure (.inl next)) :
    next.HoldsConstructs source below context := by
  obtain ⟨here, earlier⟩ := holds
  refine ⟨here.trans (lt_of_regionStep sound recording size here goesOn).le, ?_⟩
  rcases regionStep_eq_next_iff.mp goesOn with ⟨_, rfl⟩ | ⟨read, reads, rfl⟩
  · exact List.forall_mem_cons.mpr ⟨fun other => absurd rfl (other _), earlier⟩
  · exact List.forall_mem_cons.mpr ⟨fun _ => ⟨state.place, read.2, here, reads⟩, earlier⟩

/-- Every node of a region is text, or has been read as a construct at a place of the source. -/
theorem exists_readsConstruct {region : Region} (sound : below.Sound source) (recording : below.Recording)
    (size : context.size = byteLength source) (place : Cursor.ofText source ≤ c)
    (clean : readRegion below context kind c = pure region) :
    ∀ node ∈ region.nodes, (∀ content, node.form ≠ .text content) →
      ∃ c d, Cursor.ofText source ≤ c ∧ ReadsConstruct below context c (node, d) := by
  have answers := (readRegion_eq_pure_iff sound size place).mp clean
  have start : RegionState.HoldsConstructs source below context ⟨[], {}, c⟩ := ⟨place, by simp⟩
  obtain ⟨last, holds, ends⟩ := answers.exists_last start fun _ _ holds => holds.step sound recording size
  obtain ⟨stop, _, rfl⟩ := regionStep_eq_stop_iff.mp ends
  intro node among
  exact holds.nodes node (List.mem_reverse.mp among)

/-- A source that is one construct from its start to its end is a region of that construct. -/
theorem readRegion_of_readsConstruct (sound : below.Sound source) (size : context.size = byteLength source)
    (reads : ReadsConstruct below context (Cursor.ofText source) (node, d)) (ends : d.rest = []) :
    readRegion below context kind (Cursor.ofText source) = pure ⟨[node], .textEnd, d⟩ := by
  apply (readRegion_eq_pure_iff sound size (le_refl _)).mpr
  exact .next (regionStep_eq_next_iff.mpr (.inr ⟨_, reads, rfl⟩)) (.last (regionStep_of_endsAt (.textEnd ends)))

/-- Without a header, a template is the region after its mark. -/
theorem Tree.trace_of_not_header (header : options.header = false) (source : List Char) :
    Tree.trace options source =
      readRegion (.ofRoom options.maxDepth) (.outermost options source) .topLevel (contentCursor source) >>= fun region =>
        pure ⟨region.nodes, source, (contentCursor source).pos⟩ := by
  rw [Tree.trace, header, Level.withRoom_eq]
  rfl

/-- Where a tree has no errors, nothing was given up on the way. -/
theorem Tree.trace_eq_pure {tree : Tree} (read : Tree.read options source = .ok tree) (whole : tree.errors = []) :
    Tree.trace options source = pure tree := by
  have recorded := ((Tree.trace_records options source).of_outcome tree read).recoveries_eq
  have nothing : tree.postorder.filterMap Node.recovery? = [] := by
    have perm := tree.recovered_perm
    rw [Tree.recovered, whole] at perm
    exact perm.symm.eq_nil
  have listed : tree.nodes.flatMap Node.recoveries = [] := by
    rw [Tree.postorder, List.filterMap_flatMap] at nothing
    exact nothing
  cases trace : Tree.trace options source with
  | mk recoveries outcome =>
    rw [Tree.read, trace] at read
    rw [trace, listed] at recorded
    obtain rfl : recoveries = [] := recorded
    obtain rfl : outcome = .ok tree := read
    rfl

/-! ## Constructs on their own -/

/-- The start of a construct is no byte order mark. -/
theorem contentCursor_eq (head : (Cursor.ofText source).peek = some '<' ∨ (Cursor.ofText source).peek = some '@') :
    contentCursor source = Cursor.ofText source := by
  have other : (Cursor.ofText source).peek ≠ some byteOrderMark := by
    rcases head with starts | starts <;> rw [starts] <;> decide
  rw [contentCursor, Cursor.eat?, if_neg other, Option.getD_none]

/-- A template that is one construct from its start to its end is read as that construct. -/
theorem Tree.read_of_readsConstruct (header : options.header = false)
    (reads : ReadsConstruct (.ofRoom options.maxDepth) (.outermost options source) (Cursor.ofText source) (node, d))
    (ends : d.rest = []) : Tree.read options source = .ok ⟨[node], source, 0⟩ := by
  have sound := Below.ofRoom_sound source options.maxDepth
  rw [Tree.read, Tree.trace_of_not_header header, contentCursor_eq reads.peek,
    readRegion_of_readsConstruct sound rfl reads ends, Traced.pure_bind]
  rfl

/-- A stretch between two places of a source stands there. -/
theorem Cursor.Reads.eq_amid {part : List Char} (between : c.Reads part d) :
    c = (Cursor.ofText part).amid ⟨c.pos, d.rest⟩ ∧ d = (⟨byteLength part, []⟩ : Cursor).amid ⟨c.pos, d.rest⟩ := by
  obtain ⟨rest, pos⟩ := between
  cases c
  cases d
  simp_all [Cursor.amid, Cursor.ofText]

/-- A construct that has been read in a source is read alone from its own characters. -/
theorem ReadsConstruct.readsAlone {room : Nat} {part : List Char} (reads : ReadsConstruct (.ofRoom room) context c (node, d))
    (size : context.size = byteLength source) (place : Cursor.ofText source ≤ c) (between : c.Reads part d) :
    ∃ own, node = own.mapOffsets (c.pos + ·) ∧
      ReadsConstruct (.ofRoom room) (context.sized (byteLength part)) (Cursor.ofText part) (own, ⟨byteLength part, []⟩) := by
  obtain ⟨start, stop⟩ := between.eq_amid
  have stands : StandsIn part source ⟨c.pos, d.rest⟩ := start ▸ place
  rw [start, stop] at reads
  exact reads.alone stands (Below.ofRoom_alone stands room) (Below.ofRoom_recording room) size (le_refl _)

/-- Constructs do not depend on what stands around them: in a template that is read without a header and without an
error, every construct at the top is read alone as well, as the whole of a template that holds nothing else, and all of
its offsets are then less by the offset where it starts. -/
theorem Tree.read_alone {tree : Tree} (header : options.header = false) (read : Tree.read options source = .ok tree)
    (whole : tree.errors = []) :
    ∀ node ∈ tree.nodes, (∀ content, node.form ≠ .text content) →
      ∃ text own, slice? source node.span = some text ∧ Tree.read options text = .ok ⟨[own], text, 0⟩ ∧
        own = node.mapOffsets (· - node.span.start) ∧ node = own.mapOffsets (node.span.start + ·) := by
  intro node among construct
  have start := ofText_le_contentCursor source
  have clean := Tree.trace_eq_pure read whole
  rw [Tree.trace_of_not_header header] at clean
  obtain ⟨region, regionReads, same⟩ := Traced.exists_of_bind_eq_pure clean
  obtain rfl := Traced.pure_inj.mp same
  obtain ⟨c, d, place, reads⟩ := exists_readsConstruct (Below.ofRoom_sound source options.maxDepth)
    (Below.ofRoom_recording options.maxDepth) rfl start regionReads node among construct
  have grown := reads.grownFrom (Below.ofRoom_sound source options.maxDepth) rfl place
  have span : node.span = c.spanTo d := grown.1.inOrder.2.1
  have between := Cursor.reads_textTo grown.lt.le
  obtain ⟨own, shifted, alone⟩ := reads.readsAlone rfl place between
  have back : own = node.mapOffsets (· - c.pos) := by
    rw [shifted, Node.mapOffsets_mapOffsets]
    intro offset
    exact Nat.add_sub_cancel_left c.pos offset
  rw [span]
  refine ⟨c.textTo d, own, between.slice?_eq place, ?_, back, shifted⟩
  exact Tree.read_of_readsConstruct header alone rfl

/-- A block after text and before what is not quite an `else`; alone it is over where the block ends. -/
theorem Tree.read_alone_sample :
    ∃ tree, Tree.read ⟨3, false⟩ "é @if a \x7b<B c=\"d\"/>\x7d els".toList = .ok tree ∧ tree.errors = [] ∧
      ∃ node ∈ tree.nodes, node.span = ⟨3, 21⟩ ∧ ∃ text own,
        slice? "é @if a \x7b<B c=\"d\"/>\x7d els".toList node.span = some text ∧
          Tree.read ⟨3, false⟩ text = .ok ⟨[own], text, 0⟩ ∧ own = node.mapOffsets (· - node.span.start) ∧
          node = own.mapOffsets (node.span.start + ·) := by
  have read : Tree.read ⟨3, false⟩ "é @if a \x7b<B c=\"d\"/>\x7d els".toList =
      .ok ⟨[⟨.text "é ", ⟨0, 3⟩⟩, ⟨.statement (.conditional ⟨"a", ⟨7, 8⟩⟩ [⟨.component ⟨⟨"B", ⟨11, 12⟩⟩, .tag,
        [⟨⟨"c", ⟨13, 14⟩⟩, .string ⟨"d", ⟨16, 17⟩⟩, ⟨13, 18⟩⟩], [], true⟩, ⟨10, 20⟩⟩] none), ⟨3, 21⟩⟩,
        ⟨.text " els", ⟨21, 25⟩⟩], "é @if a \x7b<B c=\"d\"/>\x7d els".toList, 0⟩ := by cbv
  exact ⟨_, read, by cbv, _, List.mem_cons_of_mem _ List.mem_cons_self, rfl,
    Tree.read_alone rfl read (by cbv) _ (List.mem_cons_of_mem _ List.mem_cons_self) (by simp [Node.form])⟩

end SigilTemplate
