import Mathlib
import SigilTemplate.Proofs.Reading.Recoveries

/-!
A header is read at the start of a template or not at all. No construct is a
header, at any depth, so the parameters of a template stand before its region,
perhaps after white space. Where the attempt at a header fails it leaves nothing
behind: the reading is the same as one that does not look for a header.
-/

namespace SigilTemplate
open Text

/-- What may come before all else: nothing, or a header, perhaps with white space before it. -/
inductive IsHeader : List Node → Prop
  | nothing : IsHeader []
  | first {list : List Parameter} {span : Span} : IsHeader [⟨.parameters list, span⟩]
  | afterBlank {content : String} {list : List Parameter} {before span : Span} (nonempty : content ≠ "")
      (blank : content.toList.all isBlank = true) : IsHeader [⟨.text content, before⟩, ⟨.parameters list, span⟩]

theorem Leading.isHeader {c d : Cursor} {nodes : List Node} (leading : Leading c nodes d) : IsHeader nodes := by
  cases leading with
  | nothing => exact .nothing
  | header spells =>
    obtain ⟨blanks, reads, blank⟩ := Cursor.reads_skipBlank c
    unfold leadingText
    split
    · next gap =>
      rw [reads.textTo_eq]
      refine .afterBlank ?_ (by rw [String.toList_ofList]; exact blank)
      intro empty
      obtain rfl : blanks = [] := by simpa using congrArg String.toList empty
      rw [reads.pos_eq, byteLength_nil] at gap
      omega
    · exact .first

/-- A header that has been read leaves the parameters as its last node. -/
theorem exists_parameters_of_readHeader? {maxDepth : Nat} {c after : Cursor} {nodes : List Node}
    (found : readHeader? maxDepth c = some (nodes, after)) : ∃ list span, (⟨.parameters list, span⟩ : Node) ∈ nodes := by
  unfold readHeader? at found
  obtain ⟨sigil, _, rest⟩ := Option.bind_eq_some_iff.mp found
  split at rest
  · simp at rest
  · split at rest
    · simp at rest
    · obtain ⟨list, _, rest⟩ := Option.bind_eq_some_iff.mp rest
      obtain ⟨last, _, rest⟩ := Option.bind_eq_some_iff.mp rest
      obtain ⟨rfl, rfl⟩ := Prod.mk.inj (Option.some.inj rest)
      exact ⟨list, _, List.mem_append_right _ (List.mem_singleton_self _)⟩

/-- A tree is what stands before its region, and then nodes without a header at any depth. -/
theorem Tree.exists_leading {options : ReadOptions} {source : List Char} {tree : Tree}
    (read : Tree.read options source = .ok tree) :
    ∃ nodes, tree.nodes =
        ((if options.header then readHeader? options.maxDepth (contentCursor source) else none).getD
          ([], contentCursor source)).1 ++ nodes ∧ ∀ node ∈ nodes, node.Headerless := by
  have records : (Tree.trace options source).Records [] fun _ tree => ∃ nodes, tree.nodes =
      ((if options.header then readHeader? options.maxDepth (contentCursor source) else none).getD
        ([], contentCursor source)).1 ++ nodes ∧ ∀ node ∈ nodes, node.Headerless := by
    apply Traced.Records.bind ((Level.withRoom_recording options.maxDepth).region _ .topLevel _)
    intro all region recorded
    exact .pure ⟨region.nodes, rfl, recorded.headerless⟩
  exact records.of_outcome tree read

/-- Where no header is found, the reading is as if none had been looked for. -/
theorem Tree.trace_of_readHeader?_eq_none {maxDepth : Nat} {source : List Char}
    (none : readHeader? maxDepth (contentCursor source) = none) :
    Tree.trace ⟨maxDepth, true⟩ source = Tree.trace ⟨maxDepth, false⟩ source := by
  simp only [Tree.trace, none, if_true]
  rfl

/-- A failed attempt at a header is invisible. Parameters occur only before the region of a template, as its first node
or after a first node of white space, and nowhere below a node. Where a reading that looks for a header gives a tree
without parameters, it is in every respect the reading that does not look; and where no header is found, the same goes
for whatever tree or fault the reading ends with. -/
theorem Tree.read_header_attempt (maxDepth : Nat) (source : List Char) :
    (∀ header tree, Tree.read ⟨maxDepth, header⟩ source = .ok tree →
      ∃ front rest, tree.nodes = front ++ rest ∧ IsHeader front ∧ (header = false → front = []) ∧
        ∀ node ∈ rest.flatMap Node.preorder, ∀ list, node.form ≠ .parameters list) ∧
    (∀ tree, Tree.read ⟨maxDepth, true⟩ source = .ok tree →
      (∀ node ∈ tree.preorder, ∀ list, node.form ≠ .parameters list) →
        Tree.trace ⟨maxDepth, true⟩ source = Tree.trace ⟨maxDepth, false⟩ source) ∧
    (readHeader? maxDepth (contentCursor source) = none →
      Tree.trace ⟨maxDepth, true⟩ source = Tree.trace ⟨maxDepth, false⟩ source) := by
  refine ⟨?_, ?_, Tree.trace_of_readHeader?_eq_none⟩
  · intro header tree read
    obtain ⟨nodes, same, headerless⟩ := Tree.exists_leading read
    refine ⟨_, nodes, same, (leading_getD ⟨maxDepth, header⟩ (contentCursor source)).isHeader, ?_, ?_⟩
    · rintro rfl
      rfl
    · intro node member
      obtain ⟨root, among, inside⟩ := List.mem_flatMap.mp member
      exact headerless root among node inside
  · intro tree read without
    obtain ⟨nodes, same, _⟩ := Tree.exists_leading read
    apply Tree.trace_of_readHeader?_eq_none
    cases found : readHeader? maxDepth (contentCursor source) with
    | none => rfl
    | some header =>
      obtain ⟨list, span, member⟩ := exists_parameters_of_readHeader? found
      simp only [found, if_true, Option.getD_some] at same
      have among : (⟨.parameters list, span⟩ : Node) ∈ tree.preorder := by
        refine List.mem_flatMap.mpr ⟨_, ?_, by rw [Node.preorder_eq]; exact List.mem_cons_self⟩
        rw [same]
        exact List.mem_append_left _ member
      exact absurd rfl (without _ among list)

/-- A list without types is no header; it is read as an expression instead. -/
theorem Tree.read_header_attempt_sample :
    ∃ tree, Tree.read ⟨128, true⟩ " @(a, b);".toList = .ok tree ∧
      (∀ node ∈ tree.preorder, ∀ list, node.form ≠ .parameters list) ∧
      Tree.trace ⟨128, true⟩ " @(a, b);".toList = Tree.trace ⟨128, false⟩ " @(a, b);".toList := by
  have read : Tree.read ⟨128, true⟩ " @(a, b);".toList =
      .ok ⟨[⟨.text " ", ⟨0, 1⟩⟩, ⟨.expression ⟨.paren, "a, b", false⟩, ⟨1, 8⟩⟩, ⟨.text ";", ⟨8, 9⟩⟩],
        " @(a, b);".toList, 0⟩ := by cbv
  have without : ∀ node ∈ (⟨[⟨.text " ", ⟨0, 1⟩⟩, ⟨.expression ⟨.paren, "a, b", false⟩, ⟨1, 8⟩⟩, ⟨.text ";", ⟨8, 9⟩⟩],
      " @(a, b);".toList, 0⟩ : Tree).preorder, ∀ list, node.form ≠ .parameters list := by
    simp [Tree.preorder, Node.preorder_eq, Node.children, Node.form, Form.children]
  exact ⟨_, read, without, (Tree.read_header_attempt 128 " @(a, b);".toList).2.1 _ read without⟩

end SigilTemplate
