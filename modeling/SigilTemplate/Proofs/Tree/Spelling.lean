import SigilTemplate.Proofs.Tree.Bounds

/-!
A tree keeps to the letter what it takes from the source. Each fragment is the
slice at its span, inside the node that keeps it, and the leaves that hold code
or a comment are written as what they hold with their marks around it.
-/

namespace SigilTemplate
open Text

/-- The slice at the span of what has been read is what has been read. -/
theorem Cursor.Reads.slice?_eq {source text : List Char} {c d : Cursor} (reads : c.Reads text d)
    (place : ofText source ≤ c) : slice? source (c.spanTo d) = some text := by
  rw [slice?_spanTo place (le_of_reads reads), reads.textTo_eq]

/-- A span between two offsets of a stretch of text is contained in the span of that stretch. -/
theorem Span.Within.contains {span : Span} {c d : Cursor} (within : span.Within (c.upTo d)) (le : c ≤ d) :
    (c.spanTo d).contains span = true := by
  obtain ⟨text, reads⟩ := le
  rw [Cursor.upTo_eq reads] at within
  obtain ⟨before, _, _, start⟩ := within.start
  obtain ⟨upTo, after, split, stop⟩ := within.stop
  have length := congrArg byteLength split
  have last := reads.pos_eq
  simp only [byteLength_append] at length start stop
  have first : c.pos ≤ span.start := by omega
  have second : span.stop ≤ d.pos := by omega
  simp [Span.contains, Cursor.spanTo, first, second]

/-! ## Delimited code -/

/-- A fragment of code is written as its opening delimiter, what stands inside, and the closing one. -/
theorem Code.reads_enclosed_inner {limit : Nat} {c : Cursor} {ch : Char} {found : Enclosed} (head : c.peek = some ch)
    (opens : isOpener ch = true) (ok : enclosed limit c = .ok found) :
    c.Reads (ch :: (found.inner.rest ++ [closerOf ch])) found.after := by
  obtain ⟨close, after, closer, rfl⟩ := enclosed_ok head opens ok
  have inside := (Cursor.reads_textTo after).trans (Cursor.reads_next_of_peek closer)
  exact (Cursor.reads_next_of_peek head).trans inside

/-! ## Comments -/

/-- A comment is closed no later than at any `*@`. -/
theorem Cursor.commentClose?_go_le (pos : Nat) (before rest : List Char) :
    ∃ d, commentClose?.go pos (before ++ '*' :: '@' :: rest) = some d ∧ d.pos ≤ pos + byteLength before := by
  induction before generalizing pos with
  | nil => exact ⟨_, rfl, by simp⟩
  | cons ch before ih =>
    obtain ⟨d, found, le⟩ := ih (pos + ch.utf8Size)
    rw [List.cons_append]
    unfold commentClose?.go
    split
    · simp_all
    · exact ⟨_, rfl, by simp⟩
    · next other starts =>
      obtain ⟨rfl, rfl⟩ := List.cons.inj starts
      exact ⟨d, found, by rw [byteLength_cons]; omega⟩

/-- The mark that closes a comment occurs in the content and the mark together only at the end. -/
theorem Cursor.eq_nil_of_commentClose? {c d : Cursor} (found : c.commentClose? = some d) {before after : List Char}
    (occurs : c.textTo d ++ ['*', '@'] = before ++ (['*', '@'] ++ after)) : after = [] := by
  have reads := reads_textTo (le_of_commentClose? found)
  obtain ⟨rest, closes⟩ := startsWith_of_commentClose? found
  have again : c.rest = before ++ '*' :: '@' :: (after ++ rest) := by
    calc
      c.rest = (c.textTo d ++ ['*', '@']) ++ rest := by rw [reads.rest_eq, closes, List.append_assoc]
      _ = before ++ '*' :: '@' :: (after ++ rest) := by rw [occurs]; simp
  obtain ⟨first, same, le⟩ := commentClose?_go_le c.pos before (after ++ rest)
  rw [← again] at same
  obtain rfl : first = d := Option.some.inj (same.symm.trans found)
  have length := congrArg byteLength occurs
  have pos := reads.pos_eq
  simp only [byteLength_append] at length
  by_contra nonempty
  have more := byteLength_pos nonempty
  omega

/-! ## Leaves -/

/-- The sigil of an expression, with the mark for raw output or without. -/
def sigilText (raw : Bool) : List Char := if raw then ['@', '#'] else ['@']

/-- How a leaf is written that holds a comment or code. -/
def Form.spelling? {α : Type} : Form α → Option (List Char)
  | .comment content => some (['@', '*'] ++ content.toList ++ ['*', '@'])
  | .codeBlock code => some (['@', '{'] ++ code.toList ++ ['}'])
  | .expression ⟨.paren, code, raw⟩ => some (sigilText raw ++ ['('] ++ code.toList ++ [')'])
  | .expression ⟨.simple _ _, code, raw⟩ => some (sigilText raw ++ code.toList)
  | _ => none

/-- A construct whose form has a spelling is written by it. -/
theorem Spells.reads_spelling {c d : Cursor} {node : Node} {spelling : List Char} (spells : Spells c node d)
    (spelled : node.form.spelling? = some spelling) : c.Reads spelling d := by
  cases spells with
  | comment opens closes =>
    obtain ⟨rest, ends⟩ := Cursor.startsWith_of_commentClose? closes
    have inside := Cursor.reads_textTo (Cursor.le_of_commentClose? closes)
    obtain rfl := Option.some.inj spelled
    rw [String.toList_ofList]
    have close := Cursor.reads_skip ends
    exact (opens.trans inside).trans close
  | codeBlock sigil opens enclosed =>
    obtain rfl := Option.some.inj spelled
    rw [String.toList_ofList]
    exact sigil.trans (Code.reads_enclosed_inner opens rfl enclosed)
  | paren sigil opens enclosed =>
    obtain rfl := Option.some.inj spelled
    have all := sigil.trans (Code.reads_enclosed_inner opens rfl enclosed)
    simpa [sigilText, Code.closerOf] using all
  | simple sigil read =>
    obtain rfl := Option.some.inj spelled
    rw [String.toList_ofList]
    exact sigil.trans (Cursor.reads_textTo (Code.chain?_ok read).le)
  | _ => simp [Node.form, Form.spelling?] at spelled

/-- What a node keeps of the source it keeps to the letter. -/
structure Node.Faithful (source : List Char) (node : Node) : Prop where
  /-- A fragment is the slice at its span, and lies inside the node. -/
  fragment : ∀ fragment ∈ node.form.fragments,
    slice? source fragment.span = some fragment.text.toList ∧ node.span.contains fragment.span = true
  /-- A leaf is written as its spelling. -/
  leaf : ∀ spelling, node.form.spelling? = some spelling → slice? source node.span = some spelling
  /-- A comment ends where it can first. -/
  comment : ∀ content, node.form = .comment content → ∀ before after,
    content.toList ++ ['*', '@'] = before ++ (['*', '@'] ++ after) → after = []

theorem Grown.faithful {source : List Char} {node : Node} (grown : Grown source node) : node.Faithful source := by
  have within := grown.within
  cases grown with
  | text => exact ⟨by simp [Node.form, Form.fragments], by simp [Node.form, Form.spelling?], by simp [Node.form]⟩
  | @construct c d node place spells below =>
    obtain ⟨lt, span, order⟩ := spells.inOrder
    refine ⟨?_, ?_, ?_⟩
    · intro fragment member
      refine ⟨(within.fragment fragment member).slice?, ?_⟩
      rw [span]
      exact (spells.within.fragment fragment member).span.contains lt.le
    · intro spelling spelled
      rw [span]
      exact (spells.reads_spelling spelled).slice?_eq place
    · intro content comment before after occurs
      cases spells with
      | comment opens closes =>
        obtain rfl := Form.comment.inj comment
        rw [String.toList_ofList] at occurs
        exact Cursor.eq_nil_of_commentClose? closes occurs
      | _ => simp [Node.form] at comment

/-- Whatever a tree keeps of the source that was read is there: every fragment at its span and inside its node, and
every comment and piece of code in its spelling. -/
theorem Tree.read_faithful {options : ReadOptions} {source : List Char} {tree : Tree}
    (read : Tree.read options source = .ok tree) : ∀ node ∈ tree.preorder, node.Faithful source := by
  intro node member
  exact ((Tree.read_grown read).of_mem_preorder node member).faithful

set_option maxRecDepth 4000 in
/-- Of the sample, the header of its loop and its comment. -/
theorem Tree.read_faithful_sample :
    ∃ tree, Tree.read {} sampleTemplate = .ok tree ∧ (∀ node ∈ tree.preorder, node.Faithful sampleTemplate) ∧
      (∃ node ∈ tree.preorder, ∃ fragment ∈ node.form.fragments, fragment.text = "i in 0..n" ∧
        slice? sampleTemplate fragment.span = some "i in 0..n".toList ∧ node.span.contains fragment.span = true) ∧
      ∃ node ∈ tree.preorder, node.form.spelling? = some "@* c *@".toList ∧
        slice? sampleTemplate node.span = some "@* c *@".toList := by
  have holds : (Tree.read {} sampleTemplate).toOption.any (fun tree =>
      (tree.nodes.any fun node => node.form.fragments.any fun fragment => fragment.span = ⟨21, 30⟩) &&
        tree.nodes.any fun node => node.form.spelling? = some "@* c *@".toList) = true := by decide +kernel
  obtain ⟨tree, read⟩ := Tree.exists_read_sample
  simp only [read, Except.toOption, Option.any_some, Bool.and_eq_true, List.any_eq_true, decide_eq_true_eq] at holds
  obtain ⟨⟨loop, loopRoot, header, part, span⟩, comment, commentRoot, spelled⟩ := holds
  have faithful := Tree.read_faithful read
  have inLoop := Tree.mem_preorder_of_mem_nodes loopRoot
  have inComment := Tree.mem_preorder_of_mem_nodes commentRoot
  obtain ⟨slice, inside⟩ := (faithful loop inLoop).fragment header part
  have here : slice? sampleTemplate ⟨21, 30⟩ = some "i in 0..n".toList := by decide +kernel
  rw [span, here] at slice
  have text : header.text = "i in 0..n" := String.toList_inj.mp (Option.some.inj slice).symm
  exact ⟨tree, read, faithful, ⟨loop, inLoop, header, part, text, span ▸ here, inside⟩,
    comment, inComment, spelled, (faithful comment inComment).leaf _ spelled⟩

end SigilTemplate
