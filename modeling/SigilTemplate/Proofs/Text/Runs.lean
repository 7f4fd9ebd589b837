import SigilTemplate.Proofs.Text.Order

/-!
What an operation takes, told by the characters: a run of characters of one
kind is what stands before the first of another kind, and a given text is eaten
where the characters start with it.
-/

namespace SigilTemplate.Cursor
open Text

variable {source text rest : List Char} {p : Char → Bool} {c d : Cursor} {ch : Char}

/-- What is read on after the first of two texts is the second. -/
theorem Reads.cancel_left {first second : List Char} {e : Cursor} (whole : c.Reads (first ++ second) e)
    (part : c.Reads first d) : d.Reads second e := by
  constructor
  · have both := part.rest_eq.symm.trans whole.rest_eq
    rw [List.append_assoc] at both
    exact List.append_cancel_left both
  · rw [whole.pos_eq, part.pos_eq, byteLength_append, Nat.add_assoc]

/-- Two texts are read one after the other. -/
theorem Reads.split {first second : List Char} (reads : c.Reads (first ++ second) d) :
    ∃ between, c.Reads first between ∧ between.Reads second d := by
  have starts : c.rest = first ++ (second ++ d.rest) := by rw [reads.rest_eq, List.append_assoc]
  have front := reads_skip starts
  exact ⟨_, front, reads.cancel_left front⟩

theorem Reads.of_next (reads : c.Reads (ch :: rest) d) : c.next.Reads rest d := by
  have whole : c.Reads ([ch] ++ rest) d := reads
  exact whole.cancel_left (reads_next reads.rest_eq)

theorem rest_skipWhile (p : Char → Bool) (c : Cursor) : (c.skipWhile p).rest = c.rest.dropWhile p := by
  have split := List.takeWhile_append_dropWhile (p := p) (l := c.rest)
  exact List.append_cancel_left ((reads_skipWhile p c).rest_eq.symm.trans split.symm)

/-- A run ends in front of the first character that is of another kind. -/
theorem eq_false_of_peek_skipWhile (head : (c.skipWhile p).peek = some ch) : p ch = false := by
  obtain ⟨more, starts⟩ := peek_eq_some.mp head
  rw [rest_skipWhile] at starts
  have stops := List.head_dropWhile_not (p := p) (l := c.rest) (by simp [starts])
  simpa [starts] using stops

theorem skipWhile_eq_iff :
    c.skipWhile p = d ↔ ∃ text, c.Reads text d ∧ text.all p = true ∧ ∀ ch, d.peek = some ch → p ch = false := by
  have runs := reads_skipWhile p c
  constructor
  · rintro rfl
    exact ⟨_, runs, List.all_takeWhile, fun ch => eq_false_of_peek_skipWhile⟩
  · rintro ⟨text, reads, all, stops⟩
    have same : c.rest.takeWhile p = text := by
      rw [reads.rest_eq, List.takeWhile_append_of_pos (by simpa using all)]
      cases starts : d.rest with
      | nil => simp
      | cons ch more =>
        rw [List.takeWhile_cons_of_neg (by simp [stops ch (by simp [peek, starts])]), List.append_nil]
    rw [same] at runs
    have pos := runs.pos_eq.trans reads.pos_eq.symm
    have left := runs.rest_eq.symm.trans reads.rest_eq
    cases here : c.skipWhile p
    cases d
    simp_all

/-- White space is passed over, and nothing else. -/
theorem reads_skipBlank (c : Cursor) : ∃ blanks, c.Reads blanks c.skipBlank ∧ blanks.all isBlank = true :=
  ⟨_, reads_skipWhile isBlank c, List.all_takeWhile⟩

/-- A text is eaten where the characters start with it. -/
theorem eatText?_of_rest (starts : c.rest = text ++ rest) : eatText? text c = some (c.skip text.length) := by
  induction text generalizing c with
  | nil => rfl
  | cons ch text ih =>
    have head : c.peek = some ch := peek_eq_some.mpr ⟨text ++ rest, starts⟩
    have after : c.next.rest = text ++ rest := by simp [next, starts]
    simp only [eatText?, eat?, if_pos head, Option.bind_some]
    exact ih after

/-- What can be read from a place of a source is its slice up to the end. -/
theorem slice?_rest (place : ofText source ≤ c) : slice? source ⟨c.pos, byteLength source⟩ = some c.rest := by
  have reads := reads_finish c
  have size : c.finish.pos = byteLength source := by
    have total := pos_add_rest (place.trans (le_of_reads reads))
    simpa [finish, ofText] using total
  rw [← size, ← reads.textTo_eq]
  exact slice?_spanTo place (le_of_reads reads)

end SigilTemplate.Cursor
