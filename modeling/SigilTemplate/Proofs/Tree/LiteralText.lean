import Mathlib
import SigilTemplate.Proofs.Alone.Run
import SigilTemplate.Proofs.Reading.Round
import SigilTemplate.Proofs.Tree.Header

/-!
Literal text written out. With every sigil doubled a text is read back as it is,
whatever brackets, quotes and commas it holds; only the start of a component
tag, which cannot be escaped, and a byte order mark in front are something else.
-/

namespace SigilTemplate
open Text

/-- In the text a `<` or a `</` stands in front of an ASCII capital. -/
def HoldsTag (text : List Char) : Prop :=
  ∃ before after, text = before ++ '<' :: after ∧ (opensTag after = true ∨ closesTag after = true)

variable {text rest : List Char} {ch : Char} {state : TextState}

theorem HoldsTag.cons (holds : HoldsTag rest) (ch : Char) : HoldsTag (ch :: rest) := by
  obtain ⟨before, after, rfl, tag⟩ := holds
  exact ⟨ch :: before, after, rfl, tag⟩

theorem holdsTag_cons_iff :
    HoldsTag (ch :: rest) ↔ (ch = '<' ∧ (opensTag rest = true ∨ closesTag rest = true)) ∨ HoldsTag rest := by
  constructor
  · rintro ⟨before, after, split, tag⟩
    cases before with
    | nil =>
      obtain ⟨rfl, rfl⟩ := List.cons.inj split
      exact .inl ⟨rfl, tag⟩
    | cons first before =>
      obtain ⟨_, rfl⟩ := List.cons.inj split
      exact .inr ⟨before, after, rfl, tag⟩
  · rintro (⟨rfl, tag⟩ | holds)
    · exact ⟨[], rest, rfl, tag⟩
    · exact holds.cons ch

/-! ## Written text and its first characters -/

theorem escape_cons_of_ne (plain : ch ≠ '@') : escape (ch :: rest) = ch :: escape rest := by
  rw [escape_cons, escape_singleton plain]
  rfl

theorem escape_cons_at (rest : List Char) : escape ('@' :: rest) = '@' :: '@' :: escape rest := rfl

theorem head?_escape (text : List Char) : (escape text).head? = text.head? := by
  cases text with
  | nil => rfl
  | cons ch rest =>
    by_cases sigil : ch = '@'
    · rw [sigil, escape_cons_at]
      rfl
    · rw [escape_cons_of_ne sigil]
      rfl

theorem opensTag_escape (text : List Char) : opensTag (escape text) = opensTag text := by
  rw [opensTag, opensTag, head?_escape]

theorem closesTag_escape (text : List Char) : closesTag (escape text) = closesTag text := by
  cases text with
  | nil => rfl
  | cons ch rest =>
    by_cases sigil : ch = '@'
    · rw [sigil]
      rfl
    · rw [escape_cons_of_ne sigil]
      by_cases slash : ch = '/'
      · rw [slash]
        exact opensTag_escape rest
      · simp [closesTag, slash]

/-- White space holds no sigil. -/
theorem dropWhile_isBlank_escape (text : List Char) :
    (escape text).dropWhile isBlank = escape (text.dropWhile isBlank) := by
  induction text with
  | nil => rfl
  | cons ch rest ih =>
    by_cases blank : isBlank ch = true
    · rw [escape_cons_of_ne (ne_sigil_of_isBlank blank), List.dropWhile_cons_of_pos blank, List.dropWhile_cons_of_pos blank, ih]
    · rw [List.dropWhile_cons_of_neg blank]
      by_cases sigil : ch = '@'
      · rw [sigil, escape_cons_at]
        rfl
      · rw [escape_cons_of_ne sigil, List.dropWhile_cons_of_neg blank]

/-! ## The run -/

/-- Outside all braces, a unit of written text is one character of what it stands for. -/
theorem textUnit?_escape_cons (outside : state.inString = false)
    (tag : ¬(ch = '<' ∧ (opensTag rest = true ∨ closesTag rest = true))) :
    textUnit? .free state (escape (ch :: rest)) = some ⟨[ch], state, escape rest⟩ := by
  by_cases sigil : ch = '@'
  · rw [sigil]
    rfl
  · rw [escape_cons_of_ne sigil]
    simp only [textUnit?, if_neg sigil, opensTag_escape, closesTag_escape, if_neg tag, outside]
    rfl

theorem textUnit?_escape_tag (tag : opensTag rest = true ∨ closesTag rest = true) :
    textUnit? .free state (escape ('<' :: rest)) = none := by
  rw [escape_cons_of_ne (by decide)]
  simp [textUnit?, opensTag_escape, closesTag_escape, tag]

/-- Without tags in it, a written text is a single run. -/
theorem textRunFrom_escape (outside : state.inString = false) (none : ¬HoldsTag text) (content : List Char) (pos : Nat) :
    textRunFrom .free state content pos (escape text) =
      ⟨content.reverse ++ text, state, ⟨pos + byteLength (escape text), []⟩⟩ := by
  induction text generalizing content pos with
  | nil =>
    rw [escape_nil, textRunFrom_of_none rfl]
    simp
  | cons ch rest ih =>
    rw [holdsTag_cons_iff, not_or] at none
    rw [textRunFrom_of_some (textUnit?_escape_cons outside none.1), ih none.2, escape_cons ch rest, byteLength_append]
    simp [Nat.add_assoc]

/-- A run does not go over a tag. -/
theorem rest_textRunFrom_ne_nil (outside : state.inString = false) (holds : HoldsTag text) (content : List Char)
    (pos : Nat) : (textRunFrom .free state content pos (escape text)).after.rest ≠ [] := by
  induction text generalizing content pos with
  | nil =>
    obtain ⟨before, after, split, _⟩ := holds
    simp at split
  | cons ch rest ih =>
    by_cases tag : ch = '<' ∧ (opensTag rest = true ∨ closesTag rest = true)
    · obtain ⟨rfl, tag⟩ := tag
      rw [textRunFrom_of_none (textUnit?_escape_tag tag)]
      exact fun empty => List.cons_ne_nil _ _ (escape_eq_nil empty)
    · rw [textRunFrom_of_some (textUnit?_escape_cons outside tag)]
      exact ih ((holdsTag_cons_iff.mp holds).resolve_left tag) _ _

/-! ## The template -/

/-- No header is found in written text: behind white space its first sigil is doubled. -/
theorem readHeader?_escape (maxDepth : Nat) (text : List Char) :
    readHeader? maxDepth (Cursor.ofText (escape text)) = none := by
  have behind : (Cursor.ofText (escape text)).skipBlank.rest = escape (text.dropWhile isBlank) := by
    rw [Cursor.skipBlank, Cursor.rest_skipWhile]
    exact dropWhile_isBlank_escape text
  have missing : ∀ sigil, (Cursor.ofText (escape text)).skipBlank.eat? '@' = some sigil → sigil.peek ≠ some '(' := by
    intro sigil found
    have reads := Cursor.reads_eat? found
    rw [Cursor.peek]
    cases solid : text.dropWhile isBlank with
    | nil =>
      rw [solid] at behind
      simp [reads.rest_eq] at behind
    | cons ch rest =>
      rw [solid, reads.rest_eq] at behind
      by_cases first : ch = '@'
      · rw [first, escape_cons_at] at behind
        have second : sigil.rest = '@' :: escape rest := by simpa using behind
        simp [second]
      · rw [escape_cons_of_ne first] at behind
        exact absurd (List.cons.inj behind).1.symm first
  unfold readHeader?
  cases found : (Cursor.ofText (escape text)).skipBlank.eat? '@' with
  | none => simp [found]
  | some sigil => simp [found, missing sigil found]

theorem contentCursor_escape (plain : text.head? ≠ some byteOrderMark) :
    contentCursor (escape text) = Cursor.ofText (escape text) := by
  have missing : (Cursor.ofText (escape text)).eat? byteOrderMark = none := by
    rw [Cursor.eat?, Cursor.peek, Cursor.ofText, head?_escape, if_neg plain]
  rw [contentCursor, missing]
  rfl

/-- Where the text is over after one run, the region is that run. -/
theorem readRegion_text (below : Below) (context : Context) {c : Cursor} (atText : AtText .free {} c)
    (ends : (textRun .free {} c).after.rest = []) (size : (textRun .free {} c).after.pos ≤ context.size) :
    readRegion below context .topLevel c =
      pure ⟨[⟨.text (String.ofList (textRun .free {} c).content), c.spanTo (textRun .free {} c).after⟩], .textEnd,
        (textRun .free {} c).after⟩ := by
  let first : RegionState := ⟨[], {}, c⟩
  have goesOn : regionStep below context .topLevel first = pure (.inl (first.afterText .free)) := regionStep_text atText
  have last : regionStep below context .topLevel (first.afterText .free) =
      pure (.inr ((first.afterText .free).stop .textEnd)) := regionStep_of_endsAt (.textEnd ends)
  have further : c.pos < (first.afterText .free).place.pos := Cursor.pos_lt (lt_textRun_of_atText atText)
  have within : (first.afterText .free).place.pos ≤ context.size := size
  rw [readRegion, Traced.iterate, Traced.iterate.go, goesOn]
  simp only [pure, further, within, and_self, if_true]
  rw [Traced.iterate.go, last]
  rfl

/-- Written text goes on as text from its first character. -/
theorem atText_escape (nonempty : text ≠ []) (none : ¬HoldsTag text) : AtText .free {} (Cursor.ofText (escape text)) := by
  obtain ⟨ch, rest, rfl⟩ := List.exists_cons_of_ne_nil nonempty
  rw [holdsTag_cons_iff, not_or] at none
  rw [← isSome_textUnit?_iff]
  change (textUnit? .free {} (escape (ch :: rest))).isSome = true
  rw [textUnit?_escape_cons rfl none.1]
  rfl

/-- Written text without tags is read back as one node that covers all of it. -/
theorem trace_escape (options : ReadOptions) (nonempty : text ≠ []) (plain : text.head? ≠ some byteOrderMark)
    (none : ¬HoldsTag text) :
    Tree.trace options (escape text) =
      pure ⟨[⟨.text (String.ofList text), ⟨0, byteLength (escape text)⟩⟩], escape text, 0⟩ := by
  have run : textRun .free {} (Cursor.ofText (escape text)) = ⟨text, {}, ⟨byteLength (escape text), []⟩⟩ := by
    rw [textRun, Cursor.ofText, textRunFrom_escape rfl none]
    simp
  have region (room : Nat) (context : Context) (size : context.size = byteLength (escape text)) :
      (Level.withRoom room).region context .topLevel (Cursor.ofText (escape text)) =
        pure ⟨[⟨.text (String.ofList text), ⟨0, byteLength (escape text)⟩⟩], .textEnd, ⟨byteLength (escape text), []⟩⟩ := by
    have whole := readRegion_text (.ofRoom room) context (atText_escape nonempty none)
    rw [run] at whole
    rw [Level.withRoom_eq]
    exact whole rfl size.ge
  simp only [Tree.trace, contentCursor_escape plain, readHeader?_escape, ite_self, Option.getD_none]
  rw [region _ _ rfl]
  rfl

/-- A region that is one run of text up to the end goes over no tag. -/
theorem Items.not_holdsTag {d : Cursor} {content : String} {span : Span}
    (items : Items .free (Cursor.ofText (escape text)) [⟨.text content, span⟩] state d) (ends : d.rest = []) :
    ¬HoldsTag text := by
  intro holds
  generalize single : [(⟨.text content, span⟩ : Node)] = nodes at items
  cases items with
  | start => simp at single
  | construct items _ _ _ other =>
    obtain ⟨_, same⟩ := List.append_eq_singleton_iff.mp single.symm |>.resolve_right (by simp)
    obtain rfl := List.singleton_inj.mp same
    exact other content rfl
  | text items =>
    obtain ⟨rfl, _⟩ := List.append_eq_singleton_iff.mp single.symm |>.resolve_right (by simp)
    obtain ⟨rfl, rfl⟩ := items.of_nil
    exact rest_textRunFrom_ne_nil rfl holds [] 0 ends

/-- What cannot be read back: nothing, a text with a byte order mark in front, and one with the start of a tag in it. -/
theorem Tree.plain_of_read_escape {options : ReadOptions} {content : String}
    (read : Tree.read options (escape text) =
      .ok ⟨[⟨.text content, ⟨0, byteLength (escape text)⟩⟩], escape text, 0⟩) :
    text ≠ [] ∧ text.head? ≠ some byteOrderMark ∧ ¬HoldsTag text := by
  have grown := Tree.read_grown read
  have plain : text.head? ≠ some byteOrderMark := by
    intro mark
    have start : 0 = (contentCursor (escape text)).pos := grown.contentStart_eq
    have head : (Cursor.ofText (escape text)).peek = some byteOrderMark := by
      rw [Cursor.peek, Cursor.ofText, head?_escape, mark]
    have behind := Cursor.pos_lt (Cursor.lt_next head)
    rw [contentCursor, Cursor.eat?, if_pos head, Option.getD_some] at start
    omega
  refine ⟨?_, plain, ?_⟩
  · rintro rfl
    obtain ⟨c, d, _, lt, span, _⟩ := (grown.grown _ List.mem_cons_self).exists_inOrder
    have before := Cursor.pos_lt lt
    obtain ⟨start, stop⟩ := Span.mk.inj span
    simp only [escape_nil, byteLength_nil] at stop
    omega
  · obtain ⟨leading, nodes, c, state, d, same, before, items, ends⟩ := grown.nodes_eq
    rw [contentCursor_escape plain] at before
    cases before with
    | nothing =>
      rw [List.nil_append] at same
      rw [← same] at items
      exact items.not_holdsTag ends
    | @header list span _ spells =>
      have among : (⟨.parameters list, span⟩ : Node) ∈
          leadingText (Cursor.ofText (escape text)) (Cursor.ofText (escape text)).skipBlank ++ [⟨.parameters list, span⟩] ++
            nodes := by simp
      rw [← same] at among
      simp at among

/-- Escaping encodes literal text. With each sigil doubled, a text is read as one text node that holds it and covers the
whole source, under all options and whatever it is made of, except if it is empty, begins with a byte order mark or
holds the start of a component tag; and then it is not read so. -/
theorem Tree.read_escape (options : ReadOptions) (text : List Char) :
    Tree.read options (escape text) =
        .ok ⟨[⟨.text (String.ofList text), ⟨0, byteLength (escape text)⟩⟩], escape text, 0⟩ ↔
      text ≠ [] ∧ text.head? ≠ some byteOrderMark ∧ ¬HoldsTag text := by
  constructor
  · exact Tree.plain_of_read_escape
  · rintro ⟨nonempty, plain, none⟩
    rw [Tree.read, trace_escape options nonempty plain none]
    rfl

end SigilTemplate
