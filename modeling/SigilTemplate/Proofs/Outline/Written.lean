import SigilTemplate.Proofs.Text.Quoted
import SigilTemplate.Tree.Outline

/-!
Written outlines can be read in one way only. A name ends at the first
character that no name holds, a quoted text shows where it ends, and what
follows the line of a form tells whether another form is below it.
-/

namespace SigilTemplate
open Text

namespace Outline

/-- A character that stands in a name or a word: it does not end the name of a form, and opens neither a text nor a
form. -/
def isWordChar (ch : Char) : Bool := ch != ' ' && ch != '"' && ch != '\n' && ch != '(' && ch != ')'

/-- A name or a word that can be told from what surrounds it. -/
abbrev IsWord (text : String) : Prop := text.toList.all isWordChar = true

/-- The names and words of an outline can be told from what surrounds them. -/
inductive Legible : Outline → Prop
  | form {name : String} {texts : List String} {word : Option String} {below : List Outline}
      (isName : IsWord name) (isWord : ∀ text ∈ word, IsWord text) (inside : ∀ outline ∈ below, Legible outline) :
      Legible (.form name texts word below)

/-- What can follow the line of a form: the next line, or its closing parenthesis. -/
def EndsLine (rest : List Char) : Prop := rest.head? = some '\n' ∨ rest.head? = some ')'

theorem EndsLine.notWord {rest : List Char} (ends : EndsLine rest) : rest.head?.all (!isWordChar ·) := by
  rcases ends with head | head <;> (rw [head]; decide)

theorem EndsLine.ne_cons {rest more : List Char} {ch : Char} (ends : EndsLine rest) (line : ch ≠ '\n')
    (close : ch ≠ ')') : rest ≠ ch :: more := by
  rintro rfl
  rcases ends with head | head
  · exact line (Option.some.inj head)
  · exact close (Option.some.inj head)

section

variable {name name' : String} {texts texts' : List String} {word word' : Option String} {rest rest' : List Char}

/-- What is written of a bare word. -/
def wordChars (word : Option String) : List Char := word.toList.flatMap fun word => ' ' :: word.toList

/-- What is written of some quoted texts. -/
def textChars (texts : List String) : List Char := texts.flatMap fun text => ' ' :: quote text.toList

theorem line_eq : line name texts word = name.toList ++ (textChars texts ++ wordChars word) := by
  simp [line, textChars, wordChars]

theorem wordChars_append_inj (isWord : ∀ text ∈ word, IsWord text) (isWord' : ∀ text ∈ word', IsWord text)
    (ends : EndsLine rest) (ends' : EndsLine rest') (same : wordChars word ++ rest = wordChars word' ++ rest') :
    word = word' ∧ rest = rest' := by
  cases word with
  | none =>
    cases word' with
    | none => exact ⟨rfl, same⟩
    | some text' => exact absurd same (ends.ne_cons (by decide) (by decide))
  | some text =>
    cases word' with
    | none => exact absurd same.symm (ends'.ne_cons (by decide) (by decide))
    | some text' =>
      have inside : text.toList ++ rest = text'.toList ++ rest' := by simpa [wordChars] using same
      obtain ⟨chars, onward⟩ :=
        append_inj_of_head? (isWord text rfl) (isWord' text' rfl) ends.notWord ends'.notWord inside
      exact ⟨congrArg some (String.toList_injective chars), onward⟩

/-- A bare word is not the start of a quoted text. -/
theorem wordChars_append_ne {text : List Char} {more : List Char} (isWord : ∀ text ∈ word, IsWord text)
    (ends : EndsLine rest) : wordChars word ++ rest ≠ ' ' :: (quote text ++ more) := by
  intro same
  cases word with
  | none => exact ends.ne_cons (by decide) (by decide) same
  | some bare =>
    have inside : bare.toList ++ rest = '"' :: (text.flatMap quoteChar ++ '"' :: more) := by
      simpa [wordChars, quote] using same
    have plain : bare.toList.all isWordChar = true := isWord bare rfl
    cases chars : bare.toList with
    | nil =>
      rw [chars] at inside
      exact ends.ne_cons (by decide) (by decide) inside
    | cons ch front =>
      rw [chars] at inside plain
      obtain rfl : ch = '"' := (List.cons.inj inside).1
      simp [isWordChar] at plain

theorem textChars_cons (text : String) (texts : List String) (more : List Char) :
    textChars (text :: texts) ++ more = ' ' :: (quote text.toList ++ (textChars texts ++ more)) := by
  simp [textChars]

theorem textChars_append_inj (isWord : ∀ text ∈ word, IsWord text) (isWord' : ∀ text ∈ word', IsWord text)
    (ends : EndsLine rest) (ends' : EndsLine rest')
    (same : textChars texts ++ (wordChars word ++ rest) = textChars texts' ++ (wordChars word' ++ rest')) :
    texts = texts' ∧ word = word' ∧ rest = rest' := by
  induction texts generalizing texts' with
  | nil =>
    cases texts' with
    | nil => exact ⟨rfl, wordChars_append_inj isWord isWord' ends ends' same⟩
    | cons text' texts' =>
      rw [textChars_cons] at same
      exact absurd same (wordChars_append_ne isWord ends)
  | cons text texts ih =>
    rw [textChars_cons] at same
    cases texts' with
    | nil => exact absurd same.symm (wordChars_append_ne isWord' ends')
    | cons text' texts' =>
      rw [textChars_cons] at same
      obtain ⟨chars, onward⟩ := quote_append_inj (List.cons.inj same).2
      obtain ⟨rfl, further⟩ := ih onward
      exact ⟨congrArg (· :: texts) (String.toList_injective chars), further⟩

/-- What follows a name on its line does not go on with it. -/
theorem notWord_of_line (ends : EndsLine rest) :
    (textChars texts ++ (wordChars word ++ rest)).head?.all (!isWordChar ·) := by
  cases texts with
  | cons text texts =>
    rw [textChars_cons]
    rfl
  | nil =>
    cases word with
    | some text => rfl
    | none => exact ends.notWord

/-- The line of a form is determined by the characters, and so is what follows it. -/
theorem line_append_inj (isName : IsWord name) (isName' : IsWord name') (isWord : ∀ text ∈ word, IsWord text)
    (isWord' : ∀ text ∈ word', IsWord text) (ends : EndsLine rest) (ends' : EndsLine rest')
    (same : line name texts word ++ rest = line name' texts' word' ++ rest') :
    name = name' ∧ texts = texts' ∧ word = word' ∧ rest = rest' := by
  simp only [line_eq, List.append_assoc] at same
  obtain ⟨chars, onward⟩ := append_inj_of_head? isName isName' (notWord_of_line ends) (notWord_of_line ends') same
  exact ⟨String.toList_injective chars, textChars_append_inj isWord isWord' ends ends' onward⟩

end

/-! ## Forms -/

theorem endsLine_charsBelow (depth : Nat) (below : List Outline) (rest : List Char) :
    EndsLine (charsBelow depth below ++ ')' :: rest) := by
  cases below with
  | nil => exact .inr rfl
  | cons outline below => exact .inl rfl

/-- If each of some forms is determined by the characters, so are all of them, up to the parenthesis behind them. -/
theorem charsBelow_append_inj {depth : Nat} {below below' : List Outline} {rest rest' : List Char}
    (each : ∀ outline ∈ below, ∀ other, other.Legible → ∀ rest rest',
      chars depth outline ++ rest = chars depth other ++ rest' → outline = other ∧ rest = rest')
    (legible' : ∀ outline ∈ below', Legible outline)
    (same : charsBelow depth below ++ ')' :: rest = charsBelow depth below' ++ ')' :: rest') :
    below = below' ∧ rest = rest' := by
  induction below generalizing below' with
  | nil =>
    cases below' with
    | nil => exact ⟨rfl, (List.cons.inj same).2⟩
    | cons first' below' => simp [charsBelow] at same
  | cons first below ih =>
    cases below' with
    | nil => simp [charsBelow] at same
    | cons first' below' =>
      simp only [charsBelow, List.cons_append, List.append_assoc, List.cons.injEq, true_and,
        List.append_cancel_left_eq] at same
      obtain ⟨rfl, further⟩ := each first (by simp) first' (legible' first' (by simp)) _ _ same
      obtain ⟨rfl, last⟩ := ih (fun outline member => each outline (by simp [member]))
        (fun outline member => legible' outline (by simp [member])) further
      exact ⟨rfl, last⟩

/-- An outline and what follows it are determined by the characters from its start on. By induction on the outline:
its line ends where the other's does, and then the forms below follow one by one. -/
theorem Legible.chars_append_inj {outline other : Outline} (legible : outline.Legible) (legible' : other.Legible)
    {depth : Nat} {rest rest' : List Char} (same : chars depth outline ++ rest = chars depth other ++ rest') :
    outline = other ∧ rest = rest' := by
  induction legible generalizing other depth rest rest' with
  | @form name texts word below isName isWord inside ih =>
    cases legible' with
    | @form name' texts' word' below' isName' isWord' inside' =>
      simp only [chars, List.cons_append, List.append_assoc, List.nil_append, List.cons.injEq, true_and] at same
      obtain ⟨rfl, rfl, rfl, onward⟩ := line_append_inj isName isName' isWord isWord'
        (endsLine_charsBelow (depth + 1) below rest) (endsLine_charsBelow (depth + 1) below' rest') same
      obtain ⟨rfl, last⟩ := charsBelow_append_inj
        (fun outline member other legible _ _ same => ih outline member legible same) inside' onward
      exact ⟨rfl, last⟩

end Outline

end SigilTemplate
