import SigilTemplate.Proofs.Text.Lines
import SigilTemplate.Proofs.Text.Order
import SigilTemplate.Text.Position

/-!
Where an offset is. It is moved back to the last boundary of characters first,
and the text before that boundary tells the rest: the line by the line feeds in
it, the column by what is behind the last of them.
-/

namespace SigilTemplate.Text

variable {source text before after earlier front back : List Char} {offset : Nat}

/-- The text before an offset that has been moved back to the last boundary of characters at or before it. -/
structure Clamped (source : List Char) (offset : Nat) (before : List Char) : Prop where
  initial : before <+: source
  fits : byteLength before ≤ offset
  greatest : ∀ other, other <+: source → byteLength other ≤ offset → byteLength other ≤ byteLength before

theorem Clamped.nil (offset : Nat) : Clamped [] offset [] where
  initial := List.prefix_refl []
  fits := Nat.zero_le offset
  greatest := by
    intro other initial _
    exact Nat.le_of_eq (congrArg byteLength (List.prefix_nil.mp initial))

theorem Clamped.cons {ch : Char} (size : ch.utf8Size ≤ offset) (clamped : Clamped source (offset - ch.utf8Size) before) :
    Clamped (ch :: source) offset (ch :: before) where
  initial := List.cons_prefix_cons.mpr ⟨rfl, clamped.initial⟩
  fits := by
    have fits := clamped.fits
    rw [byteLength_cons]
    omega
  greatest := by
    intro other initial fits
    cases other with
    | nil => exact Nat.zero_le _
    | cons first other =>
      obtain ⟨rfl, tail⟩ := List.cons_prefix_cons.mp initial
      rw [byteLength_cons] at fits
      have greatest := clamped.greatest other tail (by omega)
      rw [byteLength_cons, byteLength_cons]
      omega

theorem Clamped.stop {ch : Char} (size : offset < ch.utf8Size) : Clamped (ch :: source) offset [] where
  initial := List.nil_prefix
  fits := Nat.zero_le offset
  greatest := by
    intro other initial fits
    cases other with
    | nil => exact Nat.zero_le _
    | cons first other =>
      obtain ⟨rfl, _⟩ := List.cons_prefix_cons.mp initial
      rw [byteLength_cons] at fits
      omega

/-- Parts at the start of a text are told by their length. -/
theorem eq_of_byteLength_eq {other : List Char} (initial : before <+: source) (second : other <+: source)
    (same : byteLength before = byteLength other) : before = other := by
  have none (rest : List Char) (zero : byteLength rest = 0) : rest = [] := by
    by_contra nonempty
    have positive := Cursor.byteLength_pos nonempty
    omega
  rcases List.prefix_or_prefix_of_prefix initial second with ⟨rest, rfl⟩ | ⟨rest, rfl⟩
  · rw [byteLength_append] at same
    rw [none rest (by omega), List.append_nil]
  · rw [byteLength_append] at same
    rw [none rest (by omega), List.append_nil]

theorem Clamped.eq {other : List Char} (clamped : Clamped source offset before) (second : Clamped source offset other) :
    before = other :=
  eq_of_byteLength_eq clamped.initial second.initial
    (Nat.le_antisymm (second.greatest before clamped.initial clamped.fits)
      (clamped.greatest other second.initial second.fits))

theorem byteLength_le_of_prefix (initial : before <+: source) : byteLength before ≤ byteLength source := by
  obtain ⟨after, rfl⟩ := initial
  rw [byteLength_append]
  omega

/-- An offset behind the end stands for the end. -/
theorem Clamped.min_size (clamped : Clamped source offset before) : Clamped source (min offset (byteLength source)) before where
  initial := clamped.initial
  fits := Nat.le_min.mpr ⟨clamped.fits, byteLength_le_of_prefix clamped.initial⟩
  greatest := fun other initial fits => clamped.greatest other initial (Nat.le_trans fits (Nat.min_le_left _ _))

/-! ## The walk -/

/-- The walk goes over the text before the boundary. -/
theorem walkTo_clamped (source : List Char) (p : Position) (reached : p.byte ≤ offset) :
    ∃ before, Clamped source (offset - p.byte) before ∧ Position.walkTo offset p source = before.foldl Position.next p := by
  induction source generalizing p with
  | nil => exact ⟨[], .nil _, rfl⟩
  | cons ch rest ih =>
    by_cases fits : p.byte + ch.utf8Size ≤ offset
    · have byte : (p.next ch).byte = p.byte + ch.utf8Size := by
        unfold Position.next
        split <;> rfl
      obtain ⟨before, clamped, walked⟩ := ih (p.next ch) (by omega)
      rw [byte, ← Nat.sub_sub] at clamped
      refine ⟨ch :: before, .cons (by omega) clamped, ?_⟩
      rw [Position.walkTo, if_pos fits, walked, List.foldl_cons]
    · refine ⟨[], .stop (by omega), ?_⟩
      rw [Position.walkTo, if_neg fits, List.foldl_nil]

/-- A text cut where its last line begins. -/
structure LastLine (text earlier front : List Char) : Prop where
  split : text = earlier ++ front
  starts : EndsLine earlier
  unbroken : '\n' ∉ front

theorem exists_lastLine (text : List Char) : ∃ earlier front, LastLine text earlier front := by
  induction text using line_induct with
  | last line unbroken => exact ⟨[], line, rfl, .inl rfl, unbroken⟩
  | more line rest _ ih =>
    obtain ⟨earlier, front, rfl, starts, unbroken⟩ := ih
    refine ⟨line ++ '\n' :: earlier, front, by simp, .inr ?_, unbroken⟩
    rcases starts with rfl | last
    · simp
    · obtain ⟨more, rfl⟩ := List.getLast?_eq_some_iff.mp last
      simp [List.getLast?_append, List.getLast?_cons]

theorem LastLine.count_eq (last : LastLine text earlier front) : text.count '\n' = earlier.count '\n' := by
  rw [last.split, List.count_append, List.count_eq_zero_of_not_mem last.unbroken, Nat.add_zero]

/-- What goes on without a line feed is on the same line. -/
theorem LastLine.append (last : LastLine text earlier front) (unbroken : '\n' ∉ back) :
    LastLine (text ++ back) earlier (front ++ back) where
  split := by rw [last.split, List.append_assoc]
  starts := last.starts
  unbroken := by simp [last.unbroken, unbroken]

theorem foldl_next (text : List Char) (p : Position) :
    (text.foldl Position.next p).byte = p.byte + byteLength text ∧
      (text.foldl Position.next p).line = p.line + text.count '\n' := by
  induction text generalizing p with
  | nil => exact ⟨rfl, rfl⟩
  | cons ch text ih =>
    rw [List.foldl_cons, (ih (p.next ch)).1, (ih (p.next ch)).2, byteLength_cons, List.count_cons]
    by_cases feed : ch = '\n' <;> simp [Position.next, feed] <;> omega

theorem column_foldl_next (unbroken : '\n' ∉ text) (p : Position) :
    (text.foldl Position.next p).column = p.column + text.length := by
  induction text generalizing p with
  | nil => rfl
  | cons ch text ih =>
    rw [List.mem_cons, not_or] at unbroken
    rw [List.foldl_cons, ih unbroken.2, Position.next, if_neg (Ne.symm unbroken.1), List.length_cons]
    simp only
    omega

theorem EndsLine.column_eq (ends : EndsLine earlier) : (earlier.foldl Position.next ⟨0, 0, 0⟩).column = 0 := by
  rcases ends with rfl | last
  · rfl
  · obtain ⟨more, rfl⟩ := List.getLast?_eq_some_iff.mp last
    rw [List.foldl_append, List.foldl_cons, List.foldl_nil, Position.next, if_pos rfl]

theorem LastLine.foldl_next (last : LastLine before earlier front) :
    before.foldl Position.next ⟨0, 0, 0⟩ = ⟨byteLength before, before.count '\n', front.length⟩ := by
  have column : (before.foldl Position.next ⟨0, 0, 0⟩).column = front.length := by
    rw [last.split, List.foldl_append, column_foldl_next last.unbroken, last.starts.column_eq, Nat.zero_add]
  obtain ⟨byte, line⟩ := Text.foldl_next before ⟨0, 0, 0⟩
  rw [Nat.zero_add] at byte line
  rw [← byte, ← line, ← column]

/-- The place of an offset, told by the text before it. -/
theorem Clamped.locate_eq (clamped : Clamped source offset before) (last : LastLine before earlier front) :
    Position.locate source offset = ⟨byteLength before, before.count '\n', front.length⟩ := by
  obtain ⟨other, second, walked⟩ := walkTo_clamped source ⟨0, 0, 0⟩ (Nat.zero_le offset)
  obtain rfl := clamped.eq second
  rw [Position.locate, walked, last.foldl_next]

theorem exists_clamped (source : List Char) (offset : Nat) : ∃ before, Clamped source offset before := by
  obtain ⟨before, clamped, _⟩ := walkTo_clamped source ⟨0, 0, 0⟩ (Nat.zero_le offset)
  exact ⟨before, clamped⟩

/-! ## The line at a place -/

/-- A line of a text, with what is before it, its line end and what is behind that. -/
structure IsLine (source earlier line ending later : List Char) : Prop where
  split : source = earlier ++ (line ++ (ending ++ later))
  starts : EndsLine earlier
  unbroken : '\n' ∉ line
  ends : ending = ['\n'] ∧ line.getLast? ≠ some '\r' ∨ ending = ['\r', '\n'] ∨ ending = [] ∧ later = []

/-- The line of a place, when a line feed ends it. -/
theorem LastLine.getElem?_lines (last : LastLine before earlier front) (unbroken : '\n' ∉ back) (later : List Char) :
    (lines (before ++ (back ++ '\n' :: later)))[before.count '\n']? = some (chomp (front ++ back)) := by
  have line := (last.append unbroken).unbroken
  have split : before ++ (back ++ '\n' :: later) = earlier ++ ((front ++ back) ++ '\n' :: later) := by simp [last.split]
  rw [split, lines_append last.starts, lines_lineFeed line, last.count_eq, ← length_lines last.starts,
    List.getElem?_append_right (Nat.le_refl _), Nat.sub_self, List.getElem?_cons_zero]

/-- The line of a place, when the text ends it. There is none if it is empty. -/
theorem LastLine.getElem?_lines_last (last : LastLine before earlier front) (unbroken : '\n' ∉ back) :
    (lines (before ++ back))[before.count '\n']? = if front ++ back = [] then none else some (front ++ back) := by
  have line := (last.append unbroken).unbroken
  rw [last.split, List.append_assoc, lines_append last.starts, lines_of_not_mem line, ← last.split, last.count_eq,
    ← length_lines last.starts, List.getElem?_append_right (Nat.le_refl _), Nat.sub_self]
  split <;> rfl

end SigilTemplate.Text
