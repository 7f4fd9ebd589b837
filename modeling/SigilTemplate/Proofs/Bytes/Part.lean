import Mathlib.Data.List.TakeWhile
import SigilTemplate.Proofs.Bytes.Delimiter
import SigilTemplate.Proofs.Reading.Attempt

/-!
Parts of a source, byte by byte. A part is cut out of the source and read at
offsets of its own; what is found there is cut out of the source again, at the
offsets moved by where the part begins. None of these cuts is a breach.
-/

namespace SigilTemplate.Bytes
open Text

/-- A part is where it is, in the text around it. -/
theorem piece_part {inner outer : Cursor} (part : inner.PartOf outer) :
    piece outer.rest (inner.pos - outer.pos) (inner.finish.pos - outer.pos) = .ok inner.rest := by
  obtain ⟨before, after, rest, pos⟩ := part
  have start : inner.pos - outer.pos = byteLength before := by omega
  have stop : inner.finish.pos - outer.pos = byteLength before + byteLength inner.rest := by
    simp only [Cursor.finish]
    omega
  rw [piece, start, stop, rest, Cursor.slice?_append]

/-- The offsets of a part, counted from where the text around it begins, lead back to it. -/
theorem offsets_of_partOf {inner outer : Cursor} (part : inner.PartOf outer) :
    outer.pos + (inner.pos - outer.pos) = inner.pos ∧ outer.pos + (inner.finish.pos - outer.pos) = inner.finish.pos := by
  obtain ⟨before, _, _, pos⟩ := part
  simp only [Cursor.finish]
  omega

variable {source : List Char} {part : Cursor}

theorem piece_source (inside : part.PartOf (Cursor.ofText source)) : piece source part.pos part.finish.pos = .ok part.rest :=
  piece_part inside

/-! ## Parts between separators -/

/-- What has been split off so far, in reverse, and where the part begins that is being read. -/
structure SplitState where
  depth : Nat
  start : Nat
  parts : List (Nat × Nat)

def splitStep (separator : Char) (state : SplitState) (ch : Char) (i : Nat) : Checked (List (Nat × Nat) ⊕ SplitState) :=
  if Code.isOpener ch ∨ ch = '<' then .ok (.inr { state with depth := state.depth + 1 })
  else if Code.isCloser ch ∨ ch = '>' then .ok (.inr { state with depth := state.depth - 1 })
  else if ch = separator ∧ state.depth = 0 ∧ ch ≠ '\x27' then .ok (.inr ⟨0, i + 1, (state.start, i) :: state.parts⟩)
  else .ok (.inr state)

/-- The parts of a text between top-level separators. -/
def split (separator : Char) (text : List Char) : Checked (List (Nat × Nat)) :=
  let bytes := encode text
  scan (splitStep separator) (fun state => ((state.start, bytes.length) :: state.parts).reverse) bytes ⟨0, 0, []⟩ 0

/-- The offsets of a part, counted from a base. -/
def range (base : Nat) (part : Cursor) : Nat × Nat := (part.pos - base, part.finish.pos - base)

/-- Both have split off the same of a text, and the part that is being read begins no later than the place. -/
def SplitAlike (text : Cursor) (state : SplitState) (other : Nat × Cursor × List Cursor) (place : Cursor) : Prop :=
  state = ⟨other.1, other.2.1.pos - text.pos, other.2.2.map (range text.pos)⟩ ∧ text ≤ other.2.1 ∧ other.2.1 ≤ place

theorem pos_finish_upTo {c d : Cursor} (le : c ≤ d) : (c.upTo d).finish.pos = d.pos := by
  obtain ⟨text, reads⟩ := le
  rw [Cursor.upTo_eq reads, reads.pos_eq]
  rfl

theorem splitStep_alike {separator ch : Char} {text start place : Cursor} {depth : Nat} {parts : List Cursor}
    (reached : text ≤ start) (le : start ≤ place) (head : place.peek = some ch) (narrow : separator.toNat < 0x80) :
    StepsAlike (SplitAlike text) (fun answer (found : List Cursor) => answer = found.map (range text.pos))
      (splitStep separator ⟨depth, start.pos - text.pos, parts.map (range text.pos)⟩ ch (place.pos - text.pos)) place
      (if Code.isOpener ch || ch == '<' then .inr (depth + 1, start, parts)
      else if Code.isCloser ch || ch == '>' then .inr (depth - 1, start, parts)
      else if depth = 0 && ch == separator && ch != '\x27' then .inr (0, place.next, start.upTo place :: parts)
      else .inr (depth, start, parts)) := by
  have onward := le.trans (Cursor.le_next place)
  unfold splitStep
  have opening : (Code.isOpener ch || ch == '<') = true ↔ Code.isOpener ch ∨ ch = '<' := by simp
  have closing : (Code.isCloser ch || ch == '>') = true ↔ Code.isCloser ch ∨ ch = '>' := by simp
  have between : (depth = 0 && ch == separator && ch != '\x27') = true ↔ ch = separator ∧ depth = 0 ∧ ch ≠ '\x27' := by
    simp [and_assoc, and_left_comm]
  simp only [opening, closing, between]
  by_cases opens : Code.isOpener ch ∨ ch = '<'
  · rw [if_pos opens, if_pos opens]
    exact ⟨_, rfl, rfl, reached, onward⟩
  rw [if_neg opens, if_neg opens]
  by_cases closes : Code.isCloser ch ∨ ch = '>'
  · rw [if_pos closes, if_pos closes]
    exact ⟨_, rfl, rfl, reached, onward⟩
  rw [if_neg closes, if_neg closes]
  by_cases parting : ch = separator ∧ depth = 0 ∧ ch ≠ '\x27'
  · rw [if_pos parting, if_pos parting]
    obtain ⟨rest, starts⟩ := Cursor.peek_eq_some.mp head
    have single : ch.utf8Size = 1 := utf8Size_of_ascii (parting.1 ▸ narrow)
    have below := Cursor.pos_le (reached.trans le)
    have next : place.next.pos - text.pos = place.pos - text.pos + 1 := by
      simp only [Cursor.next, starts, single]
      omega
    refine ⟨_, rfl, ?_, (reached.trans le).trans (Cursor.le_next place), le_refl _⟩
    rw [← next]
    simp only [List.map_cons, range, pos_finish_upTo le]
    rfl
  · rw [if_neg parting, if_neg parting]
    exact ⟨_, rfl, rfl, reached, onward⟩

/-- The bytes of a text have the same separators as its characters. -/
theorem split_eq {separator : Char} (narrow : separator.toNat < 0x80) (text : Cursor) :
    split separator text.rest = .ok ((Code.split separator text).map (range text.pos)) := by
  have whole : ∃ answer,
      scan (splitStep separator) (fun state => ((state.start, (encode text.rest).length) :: state.parts).reverse)
        (encode text.rest) ⟨0, 0, []⟩ (text.pos - text.pos) = .ok answer ∧
      answer = (Code.split separator text).map (range text.pos) := by
    unfold Code.split
    refine scan_eq (SplitAlike text) (fun answer (found : List Cursor) => answer = found.map (range text.pos)) ?mono ?wide
      ?alike ?ends ⟨by simp, le_refl text, le_refl text⟩ (Aligned.self text)
    case mono =>
      intro state other c d alike lt
      exact ⟨alike.1, alike.2.1, alike.2.2.trans lt.le⟩
    case wide =>
      intro state ch i wide
      simp [splitStep, wide.not_opener, wide.not_closer, wide.ne (by decide : '<'.toNat < 0x80),
        wide.ne (by decide : '>'.toNat < 0x80), wide.ne narrow]
    case alike =>
      rintro _ ⟨depth, start, parts⟩ place ch ⟨rfl, reached, le⟩ _ head
      exact splitStep_alike reached le head narrow
    case ends =>
      rintro _ ⟨depth, start, parts⟩ place ⟨rfl, reached, _⟩
      have total : start.pos + byteLength start.rest = text.pos + byteLength text.rest := Cursor.pos_add_rest reached
      have size : (encode text.rest).length = start.finish.pos - text.pos := by
        simp only [length_encode, Cursor.finish]
        omega
      simp [range, size]
  obtain ⟨_, found, rfl⟩ := whole
  rw [Nat.sub_self] at found
  exact found

/-! ## White space at the ends -/

theorem trimEnd_eq_nil {text : List Char} (blank : text.all isBlank = true) : trimEnd text = [] := by
  have all : text.reverse.dropWhile isBlank = [] := by
    rw [List.dropWhile_eq_nil_iff]
    simpa using blank
  rw [trimEnd, all, List.reverse_nil]

theorem trimEnd_cons (ch : Char) (rest : List Char) :
    trimEnd (ch :: rest) = if rest.all isBlank then (if isBlank ch then [] else [ch]) else ch :: trimEnd rest := by
  have empty : (rest.reverse.dropWhile isBlank).isEmpty = rest.all isBlank := by
    rw [Bool.eq_iff_iff, List.isEmpty_iff, List.dropWhile_eq_nil_iff]
    simp
  rw [trimEnd, List.reverse_cons, List.dropWhile_append, empty]
  split
  · by_cases blank : isBlank ch = true <;> simp [blank]
  · simp [trimEnd]

theorem pos_trimmedEnd_go {d solid : Cursor} {pos : Nat} {text rest : List Char} (ends : d.pos = pos + byteLength text) :
    (Cursor.trimmedEnd.go d solid pos (text ++ rest)).pos =
      if text.all isBlank then solid.pos else pos + byteLength (trimEnd text) := by
  induction text generalizing solid pos with
  | nil =>
    cases rest with
    | nil => simp [Cursor.trimmedEnd.go]
    | cons ch rest =>
      simp only [byteLength_nil, Nat.add_zero] at ends
      simp [Cursor.trimmedEnd.go, ends]
  | cons ch text ih =>
    have size := Char.utf8Size_pos ch
    simp only [byteLength_cons] at ends
    rw [List.cons_append, Cursor.trimmedEnd.go, if_pos (by omega), trimEnd_cons]
    simp only
    rw [ih (by omega)]
    by_cases blank : isBlank ch = true <;> by_cases all : text.all isBlank = true <;> simp [blank, all] <;> omega

/-- The text up to a place ends, without its white space, that many bytes further on. -/
theorem pos_trimmedEnd {c d : Cursor} (le : c ≤ d) : (c.trimmedEnd d).pos = c.pos + byteLength (trimEnd (c.textTo d)) := by
  have reads := Cursor.reads_textTo le
  rw [Cursor.trimmedEnd, reads.rest_eq, pos_trimmedEnd_go reads.pos_eq]
  split
  · next all => rw [trimEnd_eq_nil all, byteLength_nil, Nat.add_zero]
  · rfl

/-- The place after the last character between two offsets that is not blank. -/
def trimmedEnd (source : List Char) (start stop : Nat) : Checked Cursor := do
  let consumed ← piece source start stop
  moveTo source (start + byteLength (trimEnd consumed))

theorem trimmedEnd_eq {c d : Cursor} (place : Cursor.ofText source ≤ c) (le : c ≤ d) :
    trimmedEnd source c.pos d.pos = .ok (c.trimmedEnd d) := by
  rw [trimmedEnd, piece_eq place le, ok_bind, ← pos_trimmedEnd le, moveTo_eq (place.trans (le_trimmedEnd le))]

/-- The text between two offsets, without the white space around it. -/
def trimmed (source : List Char) (start stop : Nat) : Checked Fragment := do
  let raw ← piece source start stop
  let lead ← minus (byteLength raw) (byteLength (trimStart raw))
  pure (.ofChars (start + lead) (trim raw))

theorem trimmed_eq (inside : part.PartOf (Cursor.ofText source)) :
    trimmed source part.pos part.finish.pos = .ok (.trimmed part) := by
  have reads : part.Reads (part.rest.takeWhile isBlank) part.skipBlank := Cursor.reads_skipWhile isBlank part
  have rest : part.skipBlank.rest = trimStart part.rest := by
    have split := reads.rest_eq
    conv at split => lhs; rw [← List.takeWhile_append_dropWhile (p := isBlank) (l := part.rest)]
    exact (List.append_cancel_left split).symm
  have length : byteLength part.rest = byteLength (part.rest.takeWhile isBlank) + byteLength (trimStart part.rest) := by
    rw [← rest, ← byteLength_append, ← reads.rest_eq]
  rw [trimmed, piece_source inside, ok_bind, minus_eq (by omega), ok_bind, Fragment.trimmed, trim, rest, reads.pos_eq,
    length, Nat.add_sub_cancel]
  rfl

end SigilTemplate.Bytes
