import SigilTemplate.Proofs.Bytes.Encoding

/-!
Checked access by offset. A byte that is not there, a piece of a text that does
not begin and end between characters, and a difference below zero are breaches.
At the offset of a place none of them occurs: the bytes from there on are those
of the characters from there on.
-/

namespace SigilTemplate.Bytes
open Text

/-- What aborts a program that works with offsets. -/
inductive Breach where
  /-- There is no byte at the offset. -/
  | index (offset : Nat)
  /-- The text has no such piece. -/
  | piece (span : Span)
  /-- More is taken from a number than there is. -/
  | underflow (from_ taken : Nat)

abbrev Checked := Except Breach

@[simp]
theorem ok_bind {α β : Type} (answer : α) (f : α → Checked β) : (.ok answer : Checked α) >>= f = f answer := rfl

def byteAt (bytes : List UInt8) (i : Nat) : Checked UInt8 :=
  match bytes[i]? with
  | some byte => .ok byte
  | none => .error (.index i)

def minus (from_ taken : Nat) : Checked Nat :=
  if taken ≤ from_ then .ok (from_ - taken) else .error (.underflow from_ taken)

/-- The characters between two offsets of a text. -/
def piece (text : List Char) (start stop : Nat) : Checked (List Char) :=
  match slice? text ⟨start, stop⟩ with
  | some part => .ok part
  | none => .error (.piece ⟨start, stop⟩)

/-- Moves to an offset. Everything that is read next is read from there to the end of the text. -/
def moveTo (text : List Char) (offset : Nat) : Checked Cursor :=
  match Cursor.ofOffset? text offset with
  | some place => .ok place
  | none => .error (.piece ⟨offset, byteLength text⟩)

@[simp]
theorem minus_add (a b : Nat) : minus (a + b) b = .ok a := by
  simp [minus]

theorem minus_eq {a b : Nat} (le : b ≤ a) : minus a b = .ok (a - b) := if_pos le

theorem piece_eq {source : List Char} {c d : Cursor} (place : Cursor.ofText source ≤ c) (le : c ≤ d) :
    piece source c.pos d.pos = .ok (c.textTo d) := by
  have same := Cursor.slice?_spanTo place le
  simp only [piece, Cursor.spanTo] at same ⊢
  rw [same]

theorem moveTo_eq {source : List Char} {c : Cursor} (place : Cursor.ofText source ≤ c) :
    moveTo source c.pos = .ok c := by
  obtain ⟨before, reads⟩ := place
  have split : source = before ++ c.rest := reads.rest_eq
  have pos : c.pos = byteLength before := by simpa [Cursor.ofText] using reads.pos_eq
  rw [moveTo, Cursor.ofOffset?, split, pos, Cursor.dropBytes?_append]
  simp [← pos]

/-- The bytes from an offset on, which is counted from `base`, are those of what can be read at the place. -/
def Aligned (bytes : List UInt8) (base : Nat) (c : Cursor) : Prop :=
  ∃ before, bytes = before ++ encode c.rest ∧ base + before.length = c.pos

theorem Aligned.ofText {source : List Char} : Aligned (encode source) 0 (Cursor.ofText source) :=
  ⟨[], rfl, rfl⟩

/-- A part of a text on its own, with offsets from where the part begins. -/
theorem Aligned.self (c : Cursor) : Aligned (encode c.rest) c.pos c :=
  ⟨[], rfl, rfl⟩

theorem Aligned.of_le {bytes : List UInt8} {base : Nat} {c d : Cursor} (aligned : Aligned bytes base c) (le : c ≤ d) :
    Aligned bytes base d := by
  obtain ⟨before, split, pos⟩ := aligned
  obtain ⟨text, reads⟩ := le
  refine ⟨before ++ encode text, ?_, ?_⟩
  · rw [split, reads.rest_eq, encode_append, List.append_assoc]
  · rw [List.length_append, length_encode, reads.pos_eq]
    omega

theorem Aligned.length_eq {bytes : List UInt8} {base : Nat} {c : Cursor} (aligned : Aligned bytes base c) :
    base ≤ c.pos ∧ bytes.length = c.pos - base + byteLength c.rest := by
  obtain ⟨before, rfl, pos⟩ := aligned
  rw [List.length_append, length_encode]
  omega

/-- The bytes ahead of a place are those of the characters ahead of it. -/
theorem Aligned.getElem? {bytes : List UInt8} {base : Nat} {c : Cursor} (aligned : Aligned bytes base c) (n : Nat) :
    bytes[c.pos - base + n]? = (encode c.rest)[n]? := by
  obtain ⟨before, rfl, pos⟩ := aligned
  have offset : c.pos - base = before.length := by omega
  rw [offset, List.getElem?_append_right (by omega)]
  congr 1
  omega

/-- The byte at a place is the first one of the next character. -/
theorem Aligned.getElem?_first {bytes : List UInt8} {base : Nat} {c : Cursor} {ch : Char} {rest : List Char}
    (aligned : Aligned bytes base c) (starts : c.rest = ch :: rest) {first : UInt8} {tail : List UInt8}
    (leads : Leads ch first tail) : bytes[c.pos - base]? = some first := by
  have here := aligned.getElem? 0
  rw [starts, encode_cons, leads.bytes, Nat.add_zero, List.cons_append, List.getElem?_cons_zero] at here
  exact here

theorem Aligned.getElem?_end {bytes : List UInt8} {base : Nat} {c : Cursor} (aligned : Aligned bytes base c)
    (empty : c.rest = []) : bytes[c.pos - base]? = none := by
  have total := aligned.length_eq
  rw [empty, byteLength_nil] at total
  exact List.getElem?_eq_none (Nat.le_of_eq total.2)

/-- The byte at a place before an ASCII character is that character. -/
theorem Aligned.exists_ascii {bytes : List UInt8} {base : Nat} {c : Cursor} {ch : Char} {rest : List Char}
    (aligned : Aligned bytes base c) (starts : c.rest = ch :: rest) (narrow : ch.toNat < 0x80) :
    ∃ byte, bytes[c.pos - base]? = some byte ∧ asChar byte = ch := by
  obtain ⟨first, tail, leads⟩ := exists_leads ch
  exact ⟨first, aligned.getElem?_first starts leads, (leads.ascii narrow).1⟩

/-- An ASCII character is the byte at a place just where it is the next character. -/
theorem Aligned.map_asChar_iff {bytes : List UInt8} {base : Nat} {c : Cursor} {ascii : Char}
    (aligned : Aligned bytes base c) (narrow : ascii.toNat < 0x80) :
    bytes[c.pos - base]?.map asChar = some ascii ↔ c.peek = some ascii := by
  cases starts : c.rest with
  | nil => simp [aligned.getElem?_end starts, Cursor.peek, starts]
  | cons ch rest =>
    obtain ⟨first, tail, leads⟩ := exists_leads ch
    simp [aligned.getElem?_first starts leads, Cursor.peek, starts, leads.eq_iff narrow]

theorem Aligned.pos_next {bytes : List UInt8} {base : Nat} {c : Cursor} {ch : Char} {rest : List Char}
    (aligned : Aligned bytes base c) (starts : c.rest = ch :: rest) :
    c.next.pos - base = c.pos - base + ch.utf8Size := by
  have below := aligned.length_eq.1
  simp only [Cursor.next, starts]
  omega

theorem byteAt_of_getElem? {bytes : List UInt8} {i : Nat} {byte : UInt8} (here : bytes[i]? = some byte) :
    byteAt bytes i = .ok byte := by
  rw [byteAt, here]

theorem lt_of_getElem? {bytes : List UInt8} {i : Nat} {byte : UInt8} (here : bytes[i]? = some byte) :
    i < bytes.length :=
  (List.getElem?_eq_some_iff.mp here).1

/-! ## Going over bytes one by one -/

section

variable {γ : Type} {bytes : List UInt8} {base : Nat} {f : Nat → γ} {plain : Char → Prop}

theorem passes_over (passing : ∀ i byte, bytes[i]? = some byte → plain (asChar byte) → f i = f (i + 1)) (i n : Nat)
    (all : ∀ k, k < n → ∃ byte, bytes[i + k]? = some byte ∧ plain (asChar byte)) : f i = f (i + n) := by
  induction n with
  | zero => rfl
  | succ n ih =>
    obtain ⟨byte, here, holds⟩ := all n (by omega)
    rw [ih fun k less => all k (by omega), passing (i + n) byte here holds]
    rfl

/-- What goes on over all bytes that are not ASCII comes, from behind the first byte of a character, to
the next character. -/
theorem passes_tail (passing : ∀ i byte, bytes[i]? = some byte → plain (asChar byte) → f i = f (i + 1))
    (wide : ∀ ch, Wide ch → plain ch) {c : Cursor} {ch : Char} {rest : List Char} (aligned : Aligned bytes base c)
    (starts : c.rest = ch :: rest) : f (c.pos - base + 1) = f (c.next.pos - base) := by
  obtain ⟨first, tail, leads⟩ := exists_leads ch
  have size := String.length_utf8EncodeChar ch
  rw [leads.bytes, List.length_cons] at size
  have next : c.next.pos - base = c.pos - base + 1 + tail.length := by
    rw [aligned.pos_next starts]
    omega
  rw [next]
  apply passes_over passing
  intro k less
  have here := aligned.getElem? (1 + k)
  rw [starts, encode_cons, leads.bytes, List.cons_append, Nat.add_comm 1 k, List.getElem?_cons_succ,
    List.getElem?_append_left less, List.getElem?_eq_getElem less, ← Nat.add_assoc, Nat.add_right_comm] at here
  exact ⟨tail[k], here, wide _ (leads.tail _ (List.getElem_mem less))⟩

theorem passes_char (passing : ∀ i byte, bytes[i]? = some byte → plain (asChar byte) → f i = f (i + 1))
    (wide : ∀ ch, Wide ch → plain ch) {c : Cursor} {ch : Char} {rest : List Char} (aligned : Aligned bytes base c)
    (starts : c.rest = ch :: rest) (here : plain ch) : f (c.pos - base) = f (c.next.pos - base) := by
  obtain ⟨first, tail, leads⟩ := exists_leads ch
  have byte := aligned.getElem?_first starts leads
  have holds : plain (asChar first) := by
    rcases leads.lead with same | ⟨_, beyond⟩
    · rw [same]
      exact here
    · exact wide _ beyond
  rw [passing _ first byte holds]
  exact passes_tail passing wide aligned starts

/-- A backslash takes one byte along. If that is the first of several, the others are passed over. -/
theorem passes_escaped (passing : ∀ i byte, bytes[i]? = some byte → plain (asChar byte) → f i = f (i + 1))
    (wide : ∀ ch, Wide ch → plain ch)
    (skips : ∀ i byte, bytes[i]? = some byte → asChar byte = '\\' → f i = f (i + 2)) {pos : Nat} {escaped : Char}
    {rest : List Char} (aligned : Aligned bytes base ⟨pos, '\\' :: escaped :: rest⟩) :
    f (pos - base) = f (pos + 1 + escaped.utf8Size - base) := by
  have inside : Aligned bytes base ⟨pos + 1, escaped :: rest⟩ := aligned.of_le ⟨['\\'], rfl, rfl⟩
  have onward := passes_tail passing wide inside rfl
  have below := aligned.length_eq.1
  have offset : pos - base + 2 = pos + 1 - base + 1 := by
    simp only at below
    omega
  obtain ⟨byte, here, slash⟩ : ∃ byte, bytes[pos - base]? = some byte ∧ asChar byte = '\\' :=
    aligned.exists_ascii rfl (by decide)
  rw [skips _ byte here slash, offset, onward]
  rfl

end

end SigilTemplate.Bytes
