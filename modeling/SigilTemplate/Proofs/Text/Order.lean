import Mathlib.Order.Basic
import SigilTemplate.Markup.Marks

/-!
The places of a text in order. One cursor is at or before another if reading
leads from it there, and before it if that reading takes a character. Every
operation on cursors moves forward, so where a reading has come to is settled
by chains of inequalities; two places of one text compare as their offsets do.
-/

namespace SigilTemplate.Cursor
open Text

instance : LE Cursor := ⟨fun c d => ∃ text, c.Reads text d⟩

theorem le_of_reads {c d : Cursor} {text : List Char} (reads : c.Reads text d) : c ≤ d := ⟨text, reads⟩

theorem length_le {c d : Cursor} (le : c ≤ d) : d.rest.length ≤ c.rest.length := by
  obtain ⟨text, reads⟩ := le
  exact reads.length_le

theorem pos_le {c d : Cursor} (le : c ≤ d) : c.pos ≤ d.pos := by
  obtain ⟨text, reads⟩ := le
  rw [reads.pos_eq]
  omega

theorem pos_add_rest {c d : Cursor} (le : c ≤ d) :
    d.pos + byteLength d.rest = c.pos + byteLength c.rest := by
  obtain ⟨text, reads⟩ := le
  rw [reads.pos_eq, reads.rest_eq, byteLength_append]
  omega

/-- No place of a source lies behind its end. -/
theorem pos_le_size {source : List Char} {c : Cursor} (place : ofText source ≤ c) : c.pos ≤ byteLength source := by
  have total := pos_add_rest place
  simp only [ofText, Nat.zero_add] at total
  omega

theorem reads_nil {c d : Cursor} (reads : c.Reads [] d) : c = d := by
  obtain ⟨rest, pos⟩ := reads
  cases c
  cases d
  simp_all

instance : PartialOrder Cursor where
  le_refl c := ⟨[], .refl c⟩
  le_trans c d e := by
    rintro ⟨s, first⟩ ⟨t, second⟩
    exact ⟨s ++ t, first.trans second⟩
  le_antisymm c d := by
    rintro ⟨s, reads⟩ back
    have shorter := length_le back
    rw [reads.rest_eq, List.length_append] at shorter
    have none : s = [] := List.length_eq_zero_iff.mp (by omega)
    subst none
    exact reads_nil reads

theorem lt_of_reads {c d : Cursor} {text : List Char} (reads : c.Reads text d) (nonempty : text ≠ []) :
    c < d := by
  refine lt_of_le_not_ge ⟨text, reads⟩ ?_
  intro back
  have shorter := reads.length_lt nonempty
  have longer := length_le back
  omega

theorem lt_iff {c d : Cursor} : c < d ↔ ∃ text, text ≠ [] ∧ c.Reads text d := by
  constructor
  · intro lt
    obtain ⟨text, reads⟩ := lt.le
    refine ⟨text, ?_, reads⟩
    intro empty
    subst empty
    exact lt.ne (reads_nil reads)
  · rintro ⟨text, nonempty, reads⟩
    exact lt_of_reads reads nonempty

theorem length_lt {c d : Cursor} (lt : c < d) : d.rest.length < c.rest.length := by
  obtain ⟨text, nonempty, reads⟩ := lt_iff.mp lt
  exact reads.length_lt nonempty

theorem byteLength_pos {text : List Char} (nonempty : text ≠ []) : 0 < byteLength text := by
  cases text with
  | nil => exact absurd rfl nonempty
  | cons ch rest =>
    have := ch.utf8Size_pos
    rw [byteLength_cons]
    omega

theorem pos_lt {c d : Cursor} (lt : c < d) : c.pos < d.pos := by
  obtain ⟨text, nonempty, reads⟩ := lt_iff.mp lt
  have := byteLength_pos nonempty
  rw [reads.pos_eq]
  omega

theorem lt_of_pos_lt {c d : Cursor} (le : c ≤ d) (before : c.pos < d.pos) : c < d := by
  apply lt_of_le_of_ne le
  intro same
  rw [same] at before
  omega

/-- Two beginnings of one text are one the beginning of the other, the shorter of the longer. -/
theorem exists_append_of_byteLength_le {a b s t : List Char} (same : a ++ s = b ++ t)
    (shorter : byteLength a ≤ byteLength b) : ∃ more, b = a ++ more ∧ s = more ++ t := by
  rcases List.append_eq_append_iff.mp same with ⟨more, first, second⟩ | ⟨more, first, second⟩
  · exact ⟨more, first, second⟩
  · have empty : more = [] := by
      by_contra nonempty
      have := byteLength_pos nonempty
      rw [first, byteLength_append] at shorter
      omega
    subst empty
    exact ⟨[], by simpa using first.symm, by simpa using second.symm⟩

/-! ## Operations on cursors -/

theorem peek_eq_some {c : Cursor} {ch : Char} : c.peek = some ch ↔ ∃ rest, c.rest = ch :: rest := by
  unfold peek
  cases c.rest with
  | nil => simp
  | cons first rest => simp

theorem peek_eq_none {c : Cursor} : c.peek = none ↔ c.rest = [] := by
  unfold peek
  cases c.rest with
  | nil => simp
  | cons first rest => simp

@[simp]
theorem le_next (c : Cursor) : c ≤ c.next := by
  cases head : c.rest with
  | nil =>
    have stays : c.next = c := by simp only [next, head]
    rw [stays]
  | cons ch rest => exact ⟨_, reads_next head⟩

/-- What comes after a place comes at or after the next one. -/
theorem next_le_of_lt {c d : Cursor} (lt : c < d) : c.next ≤ d := by
  obtain ⟨text, nonempty, reads⟩ := lt_iff.mp lt
  cases text with
  | nil => exact absurd rfl nonempty
  | cons ch rest =>
    have starts : c.rest = ch :: (rest ++ d.rest) := reads.rest_eq
    refine ⟨rest, by simp [next, starts], ?_⟩
    simp only [next, starts]
    rw [reads.pos_eq, byteLength_cons]
    omega

theorem reads_next_of_peek {c : Cursor} {ch : Char} (head : c.peek = some ch) : c.Reads [ch] c.next := by
  obtain ⟨rest, starts⟩ := peek_eq_some.mp head
  exact reads_next starts

theorem lt_next {c : Cursor} {ch : Char} (head : c.peek = some ch) : c < c.next :=
  lt_of_reads (reads_next_of_peek head) (by simp)

@[simp]
theorem le_skip (n : Nat) (c : Cursor) : c ≤ c.skip n := by
  induction n generalizing c with
  | zero => exact le_refl c
  | succ n ih => exact (le_next c).trans (ih c.next)

@[simp]
theorem le_skipWhile (p : Char → Bool) (c : Cursor) : c ≤ c.skipWhile p := ⟨_, reads_skipWhile p c⟩

theorem lt_skipWhile {p : Char → Bool} {c : Cursor} {ch : Char} (head : c.peek = some ch) (holds : p ch = true) :
    c < c.skipWhile p := by
  obtain ⟨rest, starts⟩ := peek_eq_some.mp head
  apply lt_of_reads (reads_skipWhile p c)
  rw [starts, List.takeWhile_cons_of_pos holds]
  simp

@[simp]
theorem le_skipBlank (c : Cursor) : c ≤ c.skipBlank := le_skipWhile isBlank c

@[simp]
theorem le_skipInlineBlank (c : Cursor) : c ≤ c.skipInlineBlank := le_skipWhile isInlineBlank c

@[simp]
theorem le_skipIdent (c : Cursor) : c ≤ c.skipIdent := ⟨_, reads_skipIdent c⟩

@[simp]
theorem le_finish (c : Cursor) : c ≤ c.finish := ⟨_, reads_finish c⟩

theorem reads_eat? {c d : Cursor} {ch : Char} (found : c.eat? ch = some d) : c.Reads [ch] d := by
  unfold eat? at found
  split at found
  · next head =>
    obtain rfl := Option.some.inj found
    exact reads_next_of_peek head
  · simp at found

theorem lt_of_eat? {c d : Cursor} {ch : Char} (found : c.eat? ch = some d) : c < d :=
  lt_of_reads (reads_eat? found) (by simp)

theorem reads_eatText? {text : List Char} {c d : Cursor} (found : eatText? text c = some d) :
    c.Reads text d := by
  induction text generalizing c with
  | nil =>
    obtain rfl := Option.some.inj found
    exact .refl c
  | cons ch text ih =>
    obtain ⟨between, first, second⟩ := Option.bind_eq_some_iff.mp found
    exact (reads_eat? first).trans (ih second)

theorem le_getD_eat? (ch : Char) (c : Cursor) : c ≤ (c.eat? ch).getD c := by
  cases found : c.eat? ch with
  | none => exact le_refl c
  | some after => exact (lt_of_eat? found).le

/-- A character after white space is taken along if it is there. -/
theorem le_getD_skipBlank_eat? (ch : Char) (c : Cursor) : c ≤ (c.skipBlank.eat? ch).getD c := by
  cases found : c.skipBlank.eat? ch with
  | none => exact le_refl c
  | some after => exact (le_skipBlank c).trans (lt_of_eat? found).le

/-- The same after white space on the line. -/
theorem le_getD_inlineBlank_eat? (ch : Char) (c : Cursor) : c ≤ (c.skipInlineBlank.eat? ch).getD c := by
  cases found : c.skipInlineBlank.eat? ch with
  | none => exact le_refl c
  | some after => exact (le_skipInlineBlank c).trans (lt_of_eat? found).le

/-- A text that comes next is read by so many steps. -/
theorem reads_skip {text rest : List Char} {c : Cursor} (starts : c.rest = text ++ rest) :
    c.Reads text (c.skip text.length) := by
  induction text generalizing c with
  | nil => exact .refl c
  | cons ch text ih =>
    have first : c.Reads [ch] c.next := reads_next starts
    have after : c.next.rest = text ++ rest := by simp [next, starts]
    exact first.trans (ih after)

theorem startsWith_iff {text : List Char} {c : Cursor} :
    c.startsWith text = true ↔ ∃ rest, c.rest = text ++ rest := by
  unfold startsWith
  rw [List.isPrefixOf_iff_prefix]
  constructor
  · rintro ⟨rest, same⟩
    exact ⟨rest, same.symm⟩
  · rintro ⟨rest, same⟩
    exact ⟨rest, same.symm⟩

theorem peek_of_atTagOpen {c : Cursor} (opens : c.atTagOpen = true) : c.peek = some '<' := by
  simp only [atTagOpen, Bool.and_eq_true, beq_iff_eq] at opens
  exact opens.1

theorem peek_of_atTagClose {c : Cursor} (closes : c.atTagClose = true) : c.peek = some '<' := by
  simp only [atTagClose, Bool.and_eq_true, beq_iff_eq] at closes
  exact closes.1

theorem peek_of_atSigil {c : Cursor} (sigil : c.atSigil = true) : c.peek = some '@' := by
  simp only [atSigil, Bool.and_eq_true, beq_iff_eq] at sigil
  exact sigil.1

/-- What stands before the closing mark of a comment is read, and the mark is next. -/
theorem reads_commentClose?_go {pos : Nat} {text : List Char} {d : Cursor}
    (found : commentClose?.go pos text = some d) :
    ∃ inside, Reads ⟨pos, text⟩ inside d ∧ ∃ rest, d.rest = '*' :: '@' :: rest := by
  fun_induction commentClose?.go pos text with
  | case1 => simp at found
  | case2 pos rest =>
    obtain rfl := Option.some.inj found
    exact ⟨[], .refl _, rest, rfl⟩
  | case3 pos ch rest _ ih =>
    obtain ⟨inside, reads, head⟩ := ih found
    exact ⟨ch :: inside, Reads.trans (s := [ch]) ⟨rfl, by simp⟩ reads, head⟩

theorem le_of_commentClose? {c d : Cursor} (found : c.commentClose? = some d) : c ≤ d := by
  obtain ⟨inside, reads, _⟩ := reads_commentClose?_go found
  exact ⟨inside, reads⟩

theorem startsWith_of_commentClose? {c d : Cursor} (found : c.commentClose? = some d) :
    ∃ rest, d.rest = ['*', '@'] ++ rest := by
  obtain ⟨_, _, rest, head⟩ := reads_commentClose?_go found
  exact ⟨rest, head⟩

theorem le_skipTagName_go (pos : Nat) (text : List Char) :
    (⟨pos, text⟩ : Cursor) ≤ skipTagName.go pos text := by
  fun_induction skipTagName.go pos text with
  | case1 => exact le_refl _
  | case2 pos ch rest _ ih => exact le_trans ⟨[ch], rfl, by simp⟩ ih
  | case3 => exact le_refl _

@[simp]
theorem le_skipTagName (c : Cursor) : c ≤ c.skipTagName := le_skipTagName_go c.pos c.rest

/-! ## Texts between places -/

theorem takeBytesOnto_append (taken text rest : List Char) :
    takeBytesOnto taken (byteLength text) (text ++ rest) = text.reverse ++ taken := by
  induction text generalizing taken with
  | nil => cases rest <;> simp [takeBytesOnto]
  | cons ch text ih =>
    have positive := ch.utf8Size_pos
    obtain ⟨n, size⟩ : ∃ n, byteLength (ch :: text) = n + 1 :=
      Nat.exists_eq_succ_of_ne_zero (by rw [byteLength_cons]; omega)
    have left : n + 1 - ch.utf8Size = byteLength text := by
      rw [← size, byteLength_cons]
      omega
    have fits : ch.utf8Size ≤ n + 1 := by
      rw [← size, byteLength_cons]
      omega
    rw [size, List.cons_append, takeBytesOnto, if_pos fits, left, ih]
    simp

theorem takeBytes_append (text rest : List Char) : takeBytes (byteLength text) (text ++ rest) = text := by
  rw [takeBytes, takeBytesOnto_append]
  simp

theorem Reads.textTo_eq {c d : Cursor} {text : List Char} (reads : c.Reads text d) : c.textTo d = text := by
  have length : d.pos - c.pos = byteLength text := by
    rw [reads.pos_eq]
    omega
  rw [textTo, length, reads.rest_eq, takeBytes_append]

theorem reads_textTo {c d : Cursor} (le : c ≤ d) : c.Reads (c.textTo d) d := by
  obtain ⟨text, reads⟩ := le
  rw [reads.textTo_eq]
  exact reads

theorem dropBytes?_append (text rest : List Char) : dropBytes? (byteLength text) (text ++ rest) = some rest := by
  induction text with
  | nil => cases rest <;> rfl
  | cons ch text ih =>
    have positive := ch.utf8Size_pos
    obtain ⟨n, size⟩ : ∃ n, byteLength (ch :: text) = n + 1 :=
      Nat.exists_eq_succ_of_ne_zero (by rw [byteLength_cons]; omega)
    have left : n + 1 - ch.utf8Size = byteLength text := by
      rw [← size, byteLength_cons]
      omega
    have fits : ch.utf8Size ≤ n + 1 := by
      rw [← size, byteLength_cons]
      omega
    rw [size, List.cons_append, dropBytes?, if_pos fits, left, ih]

/-- A part of a text is the slice at the offsets where it begins and ends. -/
theorem slice?_append (before part after : List Char) :
    slice? (before ++ (part ++ after)) ⟨byteLength before, byteLength before + byteLength part⟩ = some part := by
  have length : Span.length ⟨byteLength before, byteLength before + byteLength part⟩ = byteLength part := by
    simp [Span.length]
  simp only [slice?, length, dropBytes?_append, Option.bind_some, takeBytes_append]
  simp

/-- The slice of a source between two of its places is the text that is read between them. -/
theorem slice?_spanTo {source : List Char} {c d : Cursor} (place : ofText source ≤ c) (le : c ≤ d) :
    slice? source (c.spanTo d) = some (c.textTo d) := by
  obtain ⟨before, start⟩ := place
  obtain ⟨text, reads⟩ := le
  have offset : c.pos = byteLength before := by
    rw [start.pos_eq, ofText]
    simp
  have split : source = before ++ (text ++ d.rest) := by
    rw [← reads.rest_eq]
    exact start.rest_eq
  have span : c.spanTo d = ⟨byteLength before, byteLength before + byteLength text⟩ := by
    rw [spanTo, reads.pos_eq, offset]
  rw [span, split, slice?_append, reads.textTo_eq]

end SigilTemplate.Cursor
