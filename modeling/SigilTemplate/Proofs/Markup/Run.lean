import SigilTemplate.Markup.Run
import SigilTemplate.Proofs.Text.Order

/-!
Runs of markup and the text they stand for. A run reads exactly the written
form of its content, whatever mode it is read in and whatever its region has
opened before; trailing white space can be cut from both alike.
-/

namespace SigilTemplate
open Text

@[simp]
theorem escape_nil : escape [] = [] := rfl

@[simp]
theorem escape_append (a b : List Char) : escape (a ++ b) = escape a ++ escape b := by
  simp [escape]

theorem escape_cons (ch : Char) (rest : List Char) : escape (ch :: rest) = escape [ch] ++ escape rest := by
  rw [← escape_append]
  rfl

theorem escape_at : escape ['@'] = ['@', '@'] := rfl

theorem escape_singleton {ch : Char} (plain : ch ≠ '@') : escape [ch] = [ch] := by
  simp [escape, plain]

/-- A text without the sigil is written as it is. -/
theorem escape_eq_self {text : List Char} (plain : ∀ ch ∈ text, ch ≠ '@') : escape text = text := by
  induction text with
  | nil => rfl
  | cons ch rest ih =>
    rw [escape_cons, escape_singleton (plain ch (by simp)), ih (fun other member => plain other (by simp [member]))]
    rfl

theorem escape_eq_nil {text : List Char} (empty : escape text = []) : text = [] := by
  cases text with
  | nil => rfl
  | cons ch rest =>
    by_cases sigil : ch = '@'
    · subst sigil
      simp [escape] at empty
    · simp [escape, sigil] at empty

theorem ne_sigil_of_isBlank {ch : Char} (blank : isBlank ch = true) : ch ≠ '@' := by
  rintro rfl
  revert blank
  decide

/-- A text is what is left of it after trimming, and then white space. -/
theorem exists_trimEnd_append (text : List Char) :
    ∃ blanks, text = trimEnd text ++ blanks ∧ ∀ ch ∈ blanks, isBlank ch = true := by
  refine ⟨(text.reverse.takeWhile isBlank).reverse, ?_, ?_⟩
  · rw [trimEnd, ← List.reverse_append, List.takeWhile_append_dropWhile, List.reverse_reverse]
  · intro ch member
    have all : (text.reverse.takeWhile isBlank).all isBlank = true := List.all_takeWhile
    exact List.all_eq_true.mp all ch (List.mem_reverse.mp member)

/-- Trimmed text does not end in white space. -/
theorem not_isBlank_of_getLast?_trimEnd {text : List Char} {ch : Char} (last : (trimEnd text).getLast? = some ch) :
    isBlank ch = false := by
  rw [trimEnd, List.getLast?_reverse] at last
  have stops := List.head?_dropWhile_not isBlank text.reverse
  simpa [last] using stops

/-- The white space that trimming leaves out is written as it stands, at the end. -/
theorem exists_escape_trimEnd_append (text : List Char) :
    ∃ blanks, text = trimEnd text ++ blanks ∧ escape text = escape (trimEnd text) ++ blanks ∧
      blanks.all isBlank = true ∧ byteLength text - byteLength (trimEnd text) = byteLength blanks := by
  obtain ⟨blanks, split, blank⟩ := exists_trimEnd_append text
  have plain : escape blanks = blanks := escape_eq_self fun ch member => ne_sigil_of_isBlank (blank ch member)
  have length := congrArg byteLength split
  rw [byteLength_append] at length
  refine ⟨blanks, split, ?_, List.all_eq_true.mpr blank, by omega⟩
  conv => lhs; rw [split]
  rw [escape_append, plain]

/-- What a text is written as is what is left of it after trimming, and then white space. -/
theorem exists_reads_trimEnd {c d : Cursor} {content : List Char} (reads : c.Reads (escape content) d) :
    ∃ x blanks, c.Reads (escape (trimEnd content)) x ∧ x.Reads blanks d ∧ blanks.all isBlank = true ∧
      d.pos - (byteLength content - byteLength (trimEnd content)) = x.pos := by
  obtain ⟨blanks, _, written, blank, cut⟩ := exists_escape_trimEnd_append content
  have ends := reads.pos_eq
  rw [written, byteLength_append] at ends
  refine ⟨⟨c.pos + byteLength (escape (trimEnd content)), blanks ++ d.rest⟩, blanks, ⟨?_, rfl⟩, ⟨rfl, ?_⟩, blank, ?_⟩
  · rw [reads.rest_eq, written, List.append_assoc]
  · simp only
    omega
  · simp only
    omega

/-- A unit inside a string is written as it stands, for it never holds a sigil. -/
theorem stringUnit_spec (state : TextState) {ch : Char} (plain : ch ≠ '@') (rest : List Char) :
    (stringUnit state ch rest).content ≠ [] ∧
      ch :: rest = escape (stringUnit state ch rest).content ++ (stringUnit state ch rest).rest := by
  have one : escape [ch] = [ch] := escape_singleton plain
  unfold stringUnit
  by_cases ends : ch = '"' ∨ ch = '\n'
  · rw [if_pos ends]
    exact ⟨by simp, by simp [one]⟩
  · rw [if_neg ends]
    by_cases slash : ch = '\\'
    · rw [if_pos slash]
      cases rest with
      | nil => exact ⟨by simp, by simp [one]⟩
      | cons escaped after =>
        by_cases sigil : escaped = '@'
        · simp only [if_pos sigil]
          exact ⟨by simp, by simp [one]⟩
        · simp only [if_neg sigil]
          have pair : escape [ch, escaped] = [ch, escaped] := by
            rw [escape_cons, one, escape_singleton sigil]
            rfl
          exact ⟨by simp, by simp [pair]⟩
    · rw [if_neg slash]
      exact ⟨by simp, by simp [one]⟩

/-- A unit reads the written form of what it stands for. -/
theorem textUnit?_spec {mode : TextMode} {state : TextState} {text : List Char} {unit : TextUnit}
    (found : textUnit? mode state text = some unit) :
    unit.content ≠ [] ∧ text = escape unit.content ++ unit.rest := by
  unfold textUnit? at found
  split at found
  · simp at found
  · next ch rest =>
    split at found
    · next sigil =>
      split at found
      · next after =>
        obtain rfl := Option.some.inj found
        exact ⟨by simp, by simp [escape_at, sigil]⟩
      · simp at found
    · next plain =>
      split at found
      · simp at found
      · split at found
        · obtain rfl := Option.some.inj found
          exact stringUnit_spec state plain rest
        · obtain ⟨next, _, rfl⟩ := Option.map_eq_some_iff.mp found
          exact ⟨by simp, by simp [escape_singleton plain]⟩

theorem reads_textRunFrom (mode : TextMode) (state : TextState) (content : List Char) (pos : Nat)
    (text : List Char) :
    ∃ more, (textRunFrom mode state content pos text).content = content.reverse ++ more ∧
      Cursor.Reads ⟨pos, text⟩ (escape more) (textRunFrom mode state content pos text).after := by
  fun_induction textRunFrom mode state content pos text with
  | case1 => exact ⟨[], by simp, .refl _⟩
  | case2 state content pos text unit found ih =>
    obtain ⟨more, same, reads⟩ := ih
    obtain ⟨_, split⟩ := textUnit?_spec found
    refine ⟨unit.content ++ more, by rw [same]; simp, ?_⟩
    rw [escape_append]
    exact Cursor.Reads.trans ⟨split, rfl⟩ reads

theorem textUnit?_textRunFrom (mode : TextMode) (state : TextState) (content : List Char) (pos : Nat) (text : List Char) :
    textUnit? mode (textRunFrom mode state content pos text).state (textRunFrom mode state content pos text).after.rest =
      none := by
  fun_induction textRunFrom mode state content pos text with
  | case1 _ _ _ _ stops => exact stops
  | case2 _ _ _ _ _ _ ih => exact ih

/-- A run goes on as long as it can. -/
theorem textUnit?_textRun (mode : TextMode) (state : TextState) (c : Cursor) :
    textUnit? mode (textRun mode state c).state (textRun mode state c).after.rest = none :=
  textUnit?_textRunFrom mode state [] c.pos c.rest

/-- A run reads the written form of its content. -/
theorem reads_textRun (mode : TextMode) (state : TextState) (c : Cursor) :
    c.Reads (escape (textRun mode state c).content) (textRun mode state c).after := by
  obtain ⟨more, same, reads⟩ := reads_textRunFrom mode state [] c.pos c.rest
  rw [textRun, same]
  exact reads

/-- Where a unit can be read, the run is not empty. -/
theorem lt_textRun {mode : TextMode} {state : TextState} {c : Cursor} {unit : TextUnit}
    (found : textUnit? mode state c.rest = some unit) : c < (textRun mode state c).after := by
  obtain ⟨nonempty, split⟩ := textUnit?_spec found
  have first : c.Reads (escape unit.content) ⟨c.pos + byteLength (escape unit.content), unit.rest⟩ := ⟨split, rfl⟩
  obtain ⟨more, _, reads⟩ := reads_textRunFrom mode unit.state (unit.content.reverse ++ [])
    (c.pos + byteLength (escape unit.content)) unit.rest
  have same : (textRun mode state c).after = (textRunFrom mode unit.state (unit.content.reverse ++ [])
      (c.pos + byteLength (escape unit.content)) unit.rest).after := by
    rw [textRun, textRunFrom]
    split
    · next stops => simp [stops] at found
    · next other here =>
      obtain rfl : other = unit := by rw [here] at found; exact Option.some.inj found
      rfl
  rw [same]
  refine lt_of_lt_of_le (Cursor.lt_of_reads first ?_) (Cursor.le_of_reads reads)
  intro empty
  exact nonempty (escape_eq_nil empty)

/-- Where no unit can be read, the run is empty. -/
theorem textRun_after_eq {mode : TextMode} {state : TextState} {c : Cursor}
    (stops : textUnit? mode state c.rest = none) : (textRun mode state c).after = c := by
  rw [textRun, textRunFrom]
  split
  · rfl
  · next found => simp [stops] at found

end SigilTemplate
