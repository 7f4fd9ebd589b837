import SigilTemplate.Proofs.Text.Order

/-!
Parts of a text. A cursor whose characters end early reads a part of a text, at
the offsets of the whole; an offset belongs to a part if a character of it
starts there or it ends there. Slicing answers exactly between such offsets.
-/

namespace SigilTemplate
open Text

namespace Cursor

/-- What the one cursor reads is a piece of what the other reads, at the same offsets. -/
def PartOf (inner outer : Cursor) : Prop :=
  ∃ before after, outer.rest = before ++ (inner.rest ++ after) ∧ inner.pos = outer.pos + byteLength before

theorem PartOf.trans {c d e : Cursor} (first : c.PartOf d) (second : d.PartOf e) : c.PartOf e := by
  obtain ⟨before, after, rest, pos⟩ := first
  obtain ⟨outerBefore, outerAfter, outerRest, outerPos⟩ := second
  refine ⟨outerBefore ++ before, after ++ outerAfter, ?_, ?_⟩
  · rw [outerRest, rest]
    simp only [List.append_assoc]
  · rw [pos, outerPos, byteLength_append]
    omega

theorem partOf_of_le {c d : Cursor} (le : c ≤ d) : d.PartOf c := by
  obtain ⟨text, reads⟩ := le
  exact ⟨text, [], by rw [List.append_nil]; exact reads.rest_eq, reads.pos_eq⟩

theorem upTo_eq {c d : Cursor} {text : List Char} (reads : c.Reads text d) : c.upTo d = ⟨c.pos, text⟩ := by
  rw [upTo, reads.textTo_eq]

theorem upTo_partOf {c d : Cursor} (le : c ≤ d) : (c.upTo d).PartOf c := by
  obtain ⟨text, reads⟩ := le
  rw [upTo_eq reads]
  exact ⟨[], d.rest, reads.rest_eq, by simp⟩

/-- A shorter stretch of a text is part of a longer one around it. -/
theorem upTo_partOf_upTo {c x y d : Cursor} (first : c ≤ x) (second : x ≤ y) (third : y ≤ d) :
    (x.upTo y).PartOf (c.upTo d) := by
  obtain ⟨before, toStart⟩ := first
  obtain ⟨text, reads⟩ := second
  obtain ⟨after, toEnd⟩ := third
  rw [upTo_eq reads, upTo_eq ((toStart.trans reads).trans toEnd)]
  exact ⟨before, after, by simp, toStart.pos_eq⟩

/-! ## Offsets in a part -/

/-- A character of the part starts at the offset, or the part ends there. -/
def HasOffset (part : Cursor) (offset : Nat) : Prop :=
  ∃ before after, part.rest = before ++ after ∧ offset = part.pos + byteLength before

theorem HasOffset.mono {inner outer : Cursor} {offset : Nat} (has : inner.HasOffset offset)
    (part : inner.PartOf outer) : outer.HasOffset offset := by
  obtain ⟨before, after, rest, pos⟩ := has
  obtain ⟨outerBefore, outerAfter, outerRest, outerPos⟩ := part
  refine ⟨outerBefore ++ before, after ++ outerAfter, ?_, ?_⟩
  · rw [outerRest, rest]
    simp only [List.append_assoc]
  · rw [pos, outerPos, byteLength_append]
    omega

theorem hasOffset_of_le {c d : Cursor} (le : c ≤ d) : c.HasOffset d.pos := by
  obtain ⟨text, reads⟩ := le
  exact ⟨text, d.rest, reads.rest_eq, reads.pos_eq⟩

end Cursor

/-- Both ends of the span are offsets in the part, in order. -/
structure Span.Within (span : Span) (part : Cursor) : Prop where
  start : part.HasOffset span.start
  stop : part.HasOffset span.stop
  le : span.start ≤ span.stop

namespace Span

theorem Within.mono {span : Span} {inner outer : Cursor} (within : span.Within inner)
    (part : inner.PartOf outer) : span.Within outer :=
  ⟨within.start.mono part, within.stop.mono part, within.le⟩

/-- The span of what is read from one place to another. -/
theorem spanTo_within {c x y : Cursor} (first : c ≤ x) (second : x ≤ y) : (x.spanTo y).Within c :=
  ⟨Cursor.hasOffset_of_le first, Cursor.hasOffset_of_le (first.trans second), Cursor.pos_le second⟩

theorem point_within {c d : Cursor} (le : c ≤ d) : (Span.point d.pos).Within c :=
  spanTo_within le (le_refl d)

theorem Within.cover {first second : Span} {part : Cursor} (left : first.Within part)
    (right : second.Within part) : (first.cover second).Within part := by
  have ordered := left.le
  constructor
  · simp only [Span.cover, Nat.min_def]
    split
    · exact left.start
    · exact right.start
  · simp only [Span.cover, Nat.max_def]
    split
    · exact right.stop
    · exact left.stop
  · simp only [Span.cover]
    omega

/-- Between two offsets of a source, its slice is some text. -/
theorem Within.slice? {span : Span} {source : List Char} (within : span.Within (Cursor.ofText source)) :
    ∃ text, Text.slice? source span = some text := by
  obtain ⟨before, rest, split, start⟩ := within.start
  obtain ⟨upTo, after, splitAgain, stop⟩ := within.stop
  have le := within.le
  simp only [Cursor.ofText, Nat.zero_add] at split start splitAgain stop
  obtain ⟨text, longer, same⟩ :=
    Cursor.exists_append_of_byteLength_le (split.symm.trans splitAgain) (by omega)
  have ends : span.stop = byteLength before + byteLength text := by
    rw [stop, longer, byteLength_append]
  refine ⟨text, ?_⟩
  have here : span = ⟨byteLength before, byteLength before + byteLength text⟩ := by
    rw [← ends, ← start]
  rw [here, split, same]
  exact Cursor.slice?_append before text after

end Span

end SigilTemplate
