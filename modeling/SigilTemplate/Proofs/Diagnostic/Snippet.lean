import SigilTemplate.Diagnostic.Snippet
import SigilTemplate.Proofs.Text.Position

/-!
What a snippet shows of a span. Both ends of the span are moved back to a
boundary of characters, whatever they are; then the line is the one where the
span starts, and the mark is under the characters of the span on that line, or
under one character where the span has none there.
-/

namespace SigilTemplate
open Text

namespace Snippet

variable {source before upTo earlier front line : List Char} {span : Span} {snippet : Snippet}

/-- What a snippet says of a span in a source, where `before` is the text up to the start of the span and `upTo` is the
text up to its end. -/
structure Points (source before upTo : List Char) (snippet : Snippet) : Prop where
  /-- The line is that of the start, and the mark is as many characters into it as the start is. The start may be behind
  the line, inside its line end. -/
  place : ∃ earlier front ending later, IsLine source earlier snippet.line ending later ∧ before = earlier ++ front ∧
    front <+: snippet.line ++ ending ∧ '\n' ∉ front ∧ snippet.column = front.length
  number : snippet.number = before.count '\n' + 1
  /-- The span ends on the same line, behind its start. -/
  sameLine : ∀ marked, upTo = before ++ marked → marked ≠ [] → '\n' ∉ marked → snippet.width = marked.length
  /-- The span ends on the same line, at its start or before it. -/
  reversed : ∀ more, before = upTo ++ more → '\n' ∉ more → snippet.width = 1
  otherLine : upTo.count '\n' ≠ before.count '\n' → snippet.width = max (snippet.line.length - snippet.column) 1
  positive : 1 ≤ snippet.width

/-! ## The line -/

/-- There is a line for every place in a source but the end behind the last line feed. -/
theorem getElem?_lines_eq_none_iff (initial : before <+: source) :
    (lines source)[before.count '\n']? = none ↔ before = source ∧ EndsLine source := by
  obtain ⟨after, rfl⟩ := initial
  obtain ⟨earlier, front, last⟩ := exists_lastLine before
  by_cases broken : '\n' ∈ after
  · obtain ⟨back, later, rfl, unbroken⟩ := List.eq_append_cons_of_mem broken
    rw [last.getElem?_lines unbroken]
    simp
  · rw [last.getElem?_lines_last broken]
    constructor
    · intro none
      have empty : front = [] ∧ after = [] := by simpa using none
      have whole : before = earlier := by rw [last.split, empty.1, List.append_nil]
      rw [empty.2, List.append_nil]
      exact ⟨rfl, whole ▸ last.starts⟩
    · rintro ⟨same, ends⟩
      have empty : after = [] := by simpa using same
      subst empty
      rw [List.append_nil] at ends
      have front_nil : front = [] := by
        rcases ends with none | final
        · exact (List.append_eq_nil_iff.mp (last.split ▸ none)).2
        · by_contra nonempty
          rw [last.split, List.getLast?_append_of_ne_nil _ nonempty] at final
          exact last.unbroken (List.mem_of_getLast? final)
      simp [front_nil]

/-- The line of a place is the one around it. -/
theorem exists_isLine (initial : before <+: source) (found : (lines source)[before.count '\n']? = some line) :
    ∃ earlier front ending later, IsLine source earlier line ending later ∧ LastLine before earlier front ∧
      front <+: line ++ ending := by
  obtain ⟨after, rfl⟩ := initial
  obtain ⟨earlier, front, last⟩ := exists_lastLine before
  by_cases broken : '\n' ∈ after
  · obtain ⟨back, later, rfl, unbroken⟩ := List.eq_append_cons_of_mem broken
    rw [last.getElem?_lines unbroken] at found
    obtain rfl := Option.some.inj found
    obtain ⟨ending, whole, ends⟩ := chomp_ending (front ++ back)
    refine ⟨earlier, front, ending, later, ⟨?_, last.starts, ?_, ?_⟩, last, ?_⟩
    · rw [← List.append_assoc (chomp _), ← whole, last.split]
      simp
    · exact unbroken_chomp (last.append unbroken).unbroken
    · exact ends.imp_right .inl
    · rw [← whole, List.append_assoc]
      exact List.prefix_append _ _
  · rw [last.getElem?_lines_last broken] at found
    split at found
    · simp at found
    · obtain rfl := Option.some.inj found
      refine ⟨earlier, front, [], [], ⟨?_, last.starts, (last.append broken).unbroken, .inr (.inr ⟨rfl, rfl⟩)⟩, last, ?_⟩
      · simp [last.split]
      · simp

/-! ## The mark -/

section

variable (start : Clamped source span.start before) (stop : Clamped source span.stop upTo)
include start stop

theorem markWidth_sameLine {marked : List Char} (onward : upTo = before ++ marked) (nonempty : marked ≠ [])
    (unbroken : '\n' ∉ marked) (line : List Char) :
    markWidth (Position.locate source span.start) (Position.locate source span.stop) line = marked.length := by
  obtain ⟨earlier, front, last⟩ := exists_lastLine before
  have later := last.append unbroken
  rw [← onward] at later
  have positive := List.length_pos_iff.mpr nonempty
  rw [start.locate_eq last, stop.locate_eq later, markWidth, if_pos (by rw [last.count_eq, later.count_eq]),
    List.length_append]
  simp only
  omega

theorem markWidth_reversed {more : List Char} (back : before = upTo ++ more) (unbroken : '\n' ∉ more) (line : List Char) :
    markWidth (Position.locate source span.start) (Position.locate source span.stop) line = 1 := by
  obtain ⟨earlier, front, last⟩ := exists_lastLine upTo
  have later := last.append unbroken
  rw [← back] at later
  rw [start.locate_eq later, stop.locate_eq last, markWidth, if_pos (by rw [last.count_eq, later.count_eq]),
    List.length_append]
  simp only
  omega

theorem markWidth_otherLine (other : upTo.count '\n' ≠ before.count '\n') (line : List Char) :
    markWidth (Position.locate source span.start) (Position.locate source span.stop) line =
      max (line.length - (Position.locate source span.start).column) 1 := by
  obtain ⟨earlier, front, last⟩ := exists_lastLine before
  obtain ⟨earlier', front', last'⟩ := exists_lastLine upTo
  rw [start.locate_eq last, stop.locate_eq last', markWidth, if_neg other]

end

theorem one_le_markWidth (start stop : Position) (line : List Char) : 1 ≤ markWidth start stop line := by
  unfold markWidth
  split <;> exact Nat.le_max_right _ _

theorem line_locate (clamped : Clamped source span.start before) :
    (Position.locate source span.start).line = before.count '\n' := by
  obtain ⟨earlier, front, last⟩ := exists_lastLine before
  rw [clamped.locate_eq last]

/-- A span has no snippet just where it starts behind the last line. -/
theorem of?_eq_none_iff (start : Clamped source span.start before) :
    of? source span = none ↔ before = source ∧ EndsLine source := by
  rw [← getElem?_lines_eq_none_iff start.initial, ← line_locate start]
  exact Option.map_eq_none_iff

theorem points_of_of? (start : Clamped source span.start before) (stop : Clamped source span.stop upTo)
    (found : of? source span = some snippet) : Points source before upTo snippet := by
  obtain ⟨line, inLines, rfl⟩ := Option.map_eq_some_iff.mp found
  rw [line_locate start] at inLines
  obtain ⟨earlier, front, ending, later, isLine, last, within⟩ := exists_isLine start.initial inLines
  have place := start.locate_eq last
  exact {
    place := ⟨earlier, front, ending, later, isLine, last.split, within, last.unbroken, by rw [place]⟩
    number := by rw [place]
    sameLine := fun marked onward nonempty unbroken => markWidth_sameLine start stop onward nonempty unbroken line
    reversed := fun more back unbroken => markWidth_reversed start stop back unbroken line
    otherLine := fun other => markWidth_otherLine start stop other line
    positive := one_le_markWidth _ _ line }

/-- A start between the two characters of a line end is marked behind the line. -/
example : of? "ab\r\ncd\n".toList ⟨3, 99⟩ = some ⟨1, "ab".toList, 3, 1⟩ := by decide

end Snippet

end SigilTemplate
