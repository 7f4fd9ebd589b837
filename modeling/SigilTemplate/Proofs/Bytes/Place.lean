import SigilTemplate.Proofs.Bytes.Access
import SigilTemplate.Proofs.Text.Position

/-!
Lines and columns by offset. An offset goes back byte by byte until a character
begins there, the text before it is cut out, and the column is counted in the
piece from the last line feed on. The beginning of a text is always a boundary,
so no step of this is a breach.
-/

namespace SigilTemplate.Bytes
open Text

variable {source before earlier front : List Char} {offset : Nat}

/-- A character begins at an offset, or the text ends there. -/
def isBoundary (source : List Char) (offset : Nat) : Bool := (dropBytes? offset source).isSome

/-- Goes back byte by byte to a boundary. -/
def retreat (source : List Char) (byte : Nat) : Checked Nat :=
  if isBoundary source byte then .ok byte
  else
    match byte with
    | 0 => .error (.underflow 0 1)
    | byte + 1 => retreat source byte

/-- The offset of the last line feed. -/
def lastFeed? : List Char → Option Nat
  | [] => none
  | ch :: rest =>
    match lastFeed? rest with
    | some offset => some (ch.utf8Size + offset)
    | none => if ch = '\n' then some 0 else none

/-- The place of an offset. -/
def locate (source : List Char) (offset : Nat) : Checked Position := do
  let byte ← retreat source (min offset (byteLength source))
  let before ← piece source 0 byte
  let lineStart := (lastFeed? before).elim 0 (· + 1)
  let onLine ← piece source lineStart byte
  pure ⟨byte, before.count '\n', onLine.length⟩

/-! ## Boundaries -/

theorem exists_of_dropBytes? {text rest : List Char} (found : dropBytes? offset text = some rest) :
    ∃ before, text = before ++ rest ∧ byteLength before = offset := by
  induction text generalizing offset with
  | nil =>
    cases offset with
    | zero => exact ⟨[], Option.some.inj found, rfl⟩
    | succ => simp [dropBytes?] at found
  | cons ch text ih =>
    cases offset with
    | zero => exact ⟨[], Option.some.inj found, rfl⟩
    | succ n =>
      rw [dropBytes?] at found
      split at found
      · next fits =>
        obtain ⟨before, rfl, length⟩ := ih found
        refine ⟨ch :: before, rfl, ?_⟩
        rw [byteLength_cons, length]
        omega
      · simp at found

theorem isBoundary_iff : isBoundary source offset = true ↔ ∃ before, before <+: source ∧ byteLength before = offset := by
  constructor
  · intro boundary
    obtain ⟨rest, found⟩ := Option.isSome_iff_exists.mp boundary
    obtain ⟨before, rfl, length⟩ := exists_of_dropBytes? found
    exact ⟨before, List.prefix_append _ _, length⟩
  · rintro ⟨before, ⟨rest, rfl⟩, rfl⟩
    rw [isBoundary, Cursor.dropBytes?_append]
    rfl

/-- Going back stops at the boundary that the offset is clamped to. -/
theorem retreat_eq (clamped : Clamped source offset before) : retreat source offset = .ok (byteLength before) := by
  induction offset with
  | zero =>
    have start : isBoundary source 0 = true := isBoundary_iff.mpr ⟨[], List.nil_prefix, rfl⟩
    rw [retreat, if_pos start, Nat.le_zero.mp clamped.fits]
  | succ n ih =>
    rw [retreat]
    split
    · next boundary =>
      obtain ⟨other, initial, length⟩ := isBoundary_iff.mp boundary
      have reached := clamped.greatest other initial (Nat.le_of_eq length)
      rw [length] at reached
      rw [Nat.le_antisymm clamped.fits reached]
    · next inside =>
      have shorter : byteLength before ≠ n + 1 := fun same => inside (isBoundary_iff.mpr ⟨before, clamped.initial, same⟩)
      have fits := clamped.fits
      exact ih ⟨clamped.initial, by omega, fun other initial fits => clamped.greatest other initial (by omega)⟩

/-! ## The start of a line -/

theorem lastFeed?_of_not_mem (unbroken : '\n' ∉ front) : lastFeed? front = none := by
  induction front with
  | nil => rfl
  | cons ch front ih =>
    rw [List.mem_cons, not_or] at unbroken
    rw [lastFeed?, ih unbroken.2]
    exact if_neg (Ne.symm unbroken.1)

theorem lastFeed?_append (unbroken : '\n' ∉ front) (text : List Char) :
    lastFeed? (text ++ '\n' :: front) = some (byteLength text) := by
  induction text with
  | nil =>
    rw [List.nil_append, lastFeed?, lastFeed?_of_not_mem unbroken]
    exact if_pos rfl
  | cons ch text ih => rw [List.cons_append, lastFeed?, ih, byteLength_cons]

theorem lineStart_eq (last : LastLine before earlier front) : (lastFeed? before).elim 0 (· + 1) = byteLength earlier := by
  rw [last.split]
  rcases last.starts with rfl | ends
  · rw [List.nil_append, lastFeed?_of_not_mem last.unbroken]
    rfl
  · obtain ⟨text, rfl⟩ := List.getLast?_eq_some_iff.mp ends
    rw [List.append_assoc, List.singleton_append, lastFeed?_append last.unbroken, byteLength_append]
    rfl

/-- Every offset has a place, and the place that is found by offsets is the one found by characters. -/
theorem locate_eq (source : List Char) (offset : Nat) : locate source offset = .ok (Position.locate source offset) := by
  obtain ⟨before, clamped⟩ := exists_clamped source offset
  obtain ⟨earlier, front, last⟩ := exists_lastLine before
  obtain ⟨after, split⟩ := clamped.initial
  have whole : piece source 0 (byteLength before) = .ok before := by
    have found := Cursor.slice?_append [] before after
    rw [List.nil_append, split, byteLength_nil, Nat.zero_add] at found
    rw [piece, found]
  have onLine : piece source (byteLength earlier) (byteLength before) = .ok front := by
    have found := Cursor.slice?_append earlier front after
    rw [← List.append_assoc, ← last.split, split, ← byteLength_append, ← last.split] at found
    rw [piece, found]
  rw [locate, retreat_eq clamped.min_size, ok_bind, whole, ok_bind]
  simp only [lineStart_eq last, onLine, ok_bind]
  rw [clamped.locate_eq last]
  rfl

end SigilTemplate.Bytes
