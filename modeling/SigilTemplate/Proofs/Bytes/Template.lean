import SigilTemplate.Proofs.Bytes.Region
import SigilTemplate.Proofs.Tree.Bounds

/-!
Whole templates, read by offsets: the byte order mark and the header before the
region. No access on the way is a breach, for any source and any options, so
the reading by offsets is the reading by characters, and its spans are pieces of
the source.
-/

namespace SigilTemplate.Bytes
open Text

section

variable (source : List Char)

/-- The white space before a header, as a text node. -/
def leadingText (c start : Cursor) : Checked (List Node) :=
  if c.pos < start.pos then do
    let text ← piece source c.pos start.pos
    pure [⟨.text (String.ofList text), c.spanTo start⟩]
  else pure []

/-- A header, perhaps after white space: the nodes for both, and the place after it. -/
def readHeader (maxDepth : Nat) (c : Cursor) : Checked (Option (List Node × Cursor)) := do
  let start := c.skipBlank
  match start.eat? '@' with
  | none => pure none
  | some sigil =>
    if sigil.peek ≠ some '(' then pure none
    else
      let opener ← moveTo source (start.pos + 1)
      match ← enclosed source maxDepth opener with
      | .error _ => pure none
      | .ok fragment =>
        let stop ← minus fragment.after.pos 1
        match ← templateParameters source (opener.pos + 1) stop with
        | none => pure none
        | some parameters =>
          match fragment.after.skipBlank.eat? ';' with
          | none => pure none
          | some after =>
            let leading ← leadingText source c start
            pure (some (leading ++ [⟨.parameters parameters, start.spanTo after⟩], after))

/-- What stands before the region, and the place where the region starts. -/
def leading (options : ReadOptions) (start : Cursor) : Checked (List Node × Cursor) := do
  let header ← if options.header then readHeader source options.maxDepth start else pure none
  let back ← moveTo source start.pos
  pure (header.getD ([], back))

/-- The place where the template starts. -/
def contentStart : Checked Cursor :=
  moveTo source (if (Cursor.ofText source).peek = some byteOrderMark then byteOrderMark.utf8Size else 0)

/-- Reads a template. -/
def trace (options : ReadOptions) : Run Tree := do
  let start ← contentStart source
  let (leading, c) ← leading source options start
  let region ← (Level.withRoom source options.maxDepth).region (.outermost options source) .topLevel c
  pure ⟨leading ++ region.nodes, source, start.pos⟩

end

variable {source : List Char}

theorem leadingText_eq {c start : Cursor} (place : Cursor.ofText source ≤ c) (le : c ≤ start) :
    leadingText source c start = .ok (SigilTemplate.leadingText c start) := by
  unfold leadingText SigilTemplate.leadingText
  by_cases gap : c.pos < start.pos
  · rw [if_pos gap, if_pos gap, piece_eq place le]
    rfl
  · rw [if_neg gap, if_neg gap]
    rfl

theorem readHeader_eq {maxDepth : Nat} {c : Cursor} (place : Cursor.ofText source ≤ c) :
    readHeader source maxDepth c = .ok (readHeader? maxDepth c) := by
  have start := place.trans (Cursor.le_skipBlank c)
  simp only [readHeader, readHeader?]
  cases sigil : c.skipBlank.eat? '@' with
  | none => rfl
  | some opener =>
    have onto := start.trans (Cursor.lt_of_eat? sigil).le
    have next : opener.pos = c.skipBlank.pos + 1 := (Cursor.reads_eat? sigil).pos_eq
    simp only [Option.bind_eq_bind, Option.bind_some]
    by_cases opens : opener.peek = some '('
    · rw [if_neg (not_not.mpr opens), if_neg (not_not.mpr opens), ← next, moveTo_eq onto, ok_bind,
        enclosed_eq maxDepth onto opens rfl, ok_bind]
      cases ok : Code.enclosed maxDepth opener with
      | error _ => rfl
      | ok fragment =>
        obtain ⟨first, last⟩ := offsets_of_enclosed opens rfl ok
        simp only
        rw [last, ok_bind, ← first, templateParameters_eq (inner_partOf_source onto opens rfl ok), ok_bind]
        cases templateParameters? fragment.inner with
        | none => rfl
        | some parameters =>
          simp only [Option.bind_some]
          cases fragment.after.skipBlank.eat? ';' with
          | none => rfl
          | some after =>
            simp only [leadingText_eq place (Cursor.le_skipBlank c), ok_bind]
            rfl
    · rw [if_pos opens, if_pos opens]
      rfl

theorem contentStart_eq : contentStart source = .ok (contentCursor source) := by
  have place := ofText_le_contentCursor source
  have pos : (contentCursor source).pos =
      if (Cursor.ofText source).peek = some byteOrderMark then byteOrderMark.utf8Size else 0 := by
    simp only [contentCursor, Cursor.eat?]
    by_cases mark : (Cursor.ofText source).peek = some byteOrderMark
    · rw [if_pos mark, if_pos mark, Option.getD_some, (Cursor.reads_next_of_peek mark).pos_eq]
      simp [Cursor.ofText]
    · rw [if_neg mark, if_neg mark]
      rfl
  rw [contentStart, ← pos, moveTo_eq place]

theorem leading_eq (options : ReadOptions) {start : Cursor} (place : Cursor.ofText source ≤ start) :
    leading source options start =
      .ok ((if options.header then readHeader? options.maxDepth start else none).getD ([], start)) := by
  unfold leading
  by_cases header : options.header = true
  · rw [if_pos header, if_pos header, readHeader_eq place, ok_bind, moveTo_eq place]
    rfl
  · rw [if_neg header, if_neg header, moveTo_eq place]
    rfl

/-- Reading by offsets never is a breach, and reads what reading by characters does. -/
theorem trace_follows (options : ReadOptions) (source : List Char) :
    Follows (.outermost options source) (trace source options) (Tree.trace options source) := by
  have start := ofText_le_contentCursor source
  have later := ((leading_getD options (contentCursor source)).grown start).1
  refine .check contentStart_eq (.check (leading_eq options start) ?_)
  apply Follows.bind ((withRoom_alike source options.maxDepth).region _ .topLevel _ rfl (start.trans later))
  intro region _
  exact .pure _

/-- Reading is safe for every source: no access is a breach, and all spans in the tree or in the fault have
both ends between two characters of the source. -/
theorem trace_safe (options : ReadOptions) (source : List Char) :
    (∃ braces, trace source options 0 = .ok (Tree.trace options source, braces)) ∧
      match Tree.read options source with
      | .ok tree => ∀ span ∈ tree.spans, span.Within (Cursor.ofText source)
      | .error fault => ∀ span ∈ fault.spans, span.Within (Cursor.ofText source) := by
  constructor
  · have unbraced : (Context.outermost options source).braced = true ↔ 0 < 0 := by simp [Context.outermost]
    obtain ⟨braces, run, _⟩ := trace_follows options source 0 unbraced
    exact ⟨braces, run⟩
  · cases read : Tree.read options source with
    | ok tree => exact (Tree.read_grown read).spans_within
    | error fault => exact (Tree.read_fault_within read).spans

end SigilTemplate.Bytes
