import Mathlib.Data.List.Basic
import SigilTemplate.Text.Lines

/-!
What stands where in the lines of a text. A text may be cut behind any line feed,
and the lines of the two parts follow each other; so the line at a place is what
stands around it up to the nearest line feeds, without the carriage return of a
line end.
-/

namespace SigilTemplate.Text

variable {text line before after : List Char}

/-- A line without the carriage return that belongs to its line end. -/
def chomp (line : List Char) : List Char := if line.getLast? = some '\r' then line.dropLast else line

/-- A text that ends where a line does. -/
abbrev EndsLine (text : List Char) : Prop := text = [] ∨ text.getLast? = some '\n'

theorem endedLine_reverse (line : List Char) : endedLine line.reverse = chomp line := by
  rcases List.eq_nil_or_concat line with rfl | ⟨front, last, rfl⟩
  · rfl
  · rw [List.concat_eq_append, List.reverse_append, List.reverse_singleton, List.singleton_append]
    by_cases carriage : last = '\r'
    · subst carriage
      simp [endedLine, chomp]
    · have whole : endedLine (last :: front.reverse) = (last :: front.reverse).reverse := by
        unfold endedLine
        split
        · next same => exact absurd (List.cons.inj same).1 carriage
        · rfl
      simp [whole, chomp, carriage]

theorem chomp_eq_self (open_ : line.getLast? ≠ some '\r') : chomp line = line := if_neg open_

theorem mem_chomp {ch : Char} (among : ch ∈ line) (other : ch ≠ '\r') : ch ∈ chomp line := by
  unfold chomp
  split
  · next last =>
    obtain ⟨front, rfl⟩ := List.getLast?_eq_some_iff.mp last
    simpa [other] using among
  · exact among

theorem unbroken_chomp (unbroken : '\n' ∉ line) : '\n' ∉ chomp line := by
  unfold chomp
  split
  · exact fun among => unbroken (List.dropLast_subset _ among)
  · exact unbroken

/-- A line and its line end. -/
theorem chomp_ending (line : List Char) : ∃ ending, line ++ ['\n'] = chomp line ++ ending ∧
    (ending = ['\n'] ∧ (chomp line).getLast? ≠ some '\r' ∨ ending = ['\r', '\n']) := by
  by_cases carriage : line.getLast? = some '\r'
  · obtain ⟨front, rfl⟩ := List.getLast?_eq_some_iff.mp carriage
    exact ⟨['\r', '\n'], by simp [chomp], .inr rfl⟩
  · rw [chomp_eq_self carriage]
    exact ⟨['\n'], rfl, .inl ⟨rfl, carriage⟩⟩

theorem linesFrom_of_not_mem (unbroken : '\n' ∉ line) (before rest : List Char) :
    linesFrom before (line ++ rest) = linesFrom (line.reverse ++ before) rest := by
  induction line generalizing before with
  | nil => rfl
  | cons ch line ih =>
    rw [List.mem_cons, not_or] at unbroken
    rw [List.cons_append, linesFrom, if_neg (Ne.symm unbroken.1), ih unbroken.2, List.reverse_cons, List.append_assoc]
    rfl

/-- The line that ends at a line feed. -/
theorem lines_lineFeed (unbroken : '\n' ∉ line) (rest : List Char) :
    lines (line ++ '\n' :: rest) = chomp line :: lines rest := by
  rw [lines, linesFrom_of_not_mem unbroken, linesFrom, if_pos rfl, List.append_nil, endedLine_reverse, lines]

/-- An empty line. -/
theorem lines_cons_lineFeed (rest : List Char) : lines ('\n' :: rest) = [] :: lines rest := rfl

/-- The line that ends with the text. -/
theorem lines_of_not_mem (unbroken : '\n' ∉ line) : lines line = if line = [] then [] else [line] := by
  have whole := linesFrom_of_not_mem unbroken [] []
  rw [List.append_nil, List.append_nil] at whole
  rw [lines, whole, linesFrom]
  simp

/-- Induction over the lines of a text. -/
theorem line_induct {motive : List Char → Prop} (last : ∀ line, '\n' ∉ line → motive line)
    (more : ∀ line rest, '\n' ∉ line → motive rest → motive (line ++ '\n' :: rest)) (text : List Char) : motive text := by
  induction length : text.length using Nat.strongRecOn generalizing text with
  | ind n ih =>
    by_cases broken : '\n' ∈ text
    · obtain ⟨line, rest, rfl, unbroken⟩ := List.eq_append_cons_of_mem broken
      refine more line rest unbroken (ih rest.length ?_ rest rfl)
      rw [← length, List.length_append, List.length_cons]
      omega
    · exact last text broken

theorem EndsLine.of_append_cons {rest : List Char} (ends : EndsLine (line ++ '\n' :: rest)) : EndsLine rest := by
  rcases List.eq_nil_or_concat rest with rfl | ⟨front, final, rfl⟩
  · exact .inl rfl
  · rcases ends with empty | last
    · simp at empty
    · rw [List.getLast?_append] at last
      exact .inr (by simpa [List.getLast?_cons] using last)

theorem EndsLine.eq_nil (ends : EndsLine line) (unbroken : '\n' ∉ line) : line = [] :=
  ends.resolve_right fun last => unbroken (List.mem_of_getLast? last)

/-- Behind a line feed, the lines of a text do not depend on what is before it. -/
theorem lines_append (ends : EndsLine before) (after : List Char) : lines (before ++ after) = lines before ++ lines after := by
  induction before using line_induct with
  | last line unbroken =>
    rw [ends.eq_nil unbroken]
    rfl
  | more line rest unbroken ih =>
    rw [List.append_assoc, List.cons_append, lines_lineFeed unbroken, lines_lineFeed unbroken, ih ends.of_append_cons,
      List.cons_append]

/-- A text that ends where a line does has as many lines as line feeds. -/
theorem length_lines (ends : EndsLine before) : (lines before).length = before.count '\n' := by
  induction before using line_induct with
  | last line unbroken =>
    rw [ends.eq_nil unbroken]
    rfl
  | more line rest unbroken ih =>
    rw [lines_lineFeed unbroken, List.length_cons, ih ends.of_append_cons, List.count_append, List.count_cons_self,
      List.count_eq_zero_of_not_mem unbroken, Nat.zero_add]

/-- A line stands between two line ends. -/
theorem exists_of_mem_lines (among : line ∈ lines text) :
    ∃ before whole after, text = before ++ (whole ++ after) ∧ EndsLine before ∧ '\n' ∉ whole ∧
      (line = chomp whole ∧ after.head? = some '\n' ∨ line = whole ∧ line ≠ [] ∧ after = []) := by
  induction text using line_induct with
  | last line' unbroken =>
    rw [lines_of_not_mem unbroken] at among
    split at among
    · simp at among
    · next nonempty =>
      obtain rfl := List.mem_singleton.mp among
      exact ⟨[], line, [], by simp, .inl rfl, unbroken, .inr ⟨rfl, nonempty, rfl⟩⟩
  | more line' rest unbroken ih =>
    rw [lines_lineFeed unbroken] at among
    rcases List.mem_cons.mp among with rfl | later
    · exact ⟨[], line', '\n' :: rest, rfl, .inl rfl, unbroken, .inl ⟨rfl, rfl⟩⟩
    · obtain ⟨before, whole, after, rfl, starts, single, ends⟩ := ih later
      refine ⟨line' ++ '\n' :: before, whole, after, by simp, ?_, single, ends⟩
      rcases starts with rfl | last
      · exact .inr (by simp)
      · obtain ⟨front, rfl⟩ := List.getLast?_eq_some_iff.mp last
        exact .inr (by simp [List.getLast?_append, List.getLast?_cons])

theorem unbroken_of_mem_lines (among : line ∈ lines text) : '\n' ∉ line := by
  obtain ⟨_, whole, _, _, _, unbroken, ends⟩ := exists_of_mem_lines among
  rcases ends with ⟨rfl, _⟩ | ⟨rfl, _⟩
  · exact unbroken_chomp unbroken
  · exact unbroken

end SigilTemplate.Text
