import Mathlib
import SigilTemplate.Proofs.Text.Part

/-!
The bytes of a text. A byte of a character beyond ASCII is never the byte of an
ASCII character, so a scanner that looks for ASCII marks may look at all bytes
alike; and the first byte of a character tells how many it has.
-/

namespace SigilTemplate.Bytes
open Text

/-- The bytes of a text in UTF-8. -/
def encode (text : List Char) : List UInt8 := text.flatMap String.utf8EncodeChar

@[simp]
theorem encode_nil : encode [] = [] := rfl

@[simp]
theorem encode_cons (ch : Char) (rest : List Char) : encode (ch :: rest) = String.utf8EncodeChar ch ++ encode rest := rfl

@[simp]
theorem encode_append (a b : List Char) : encode (a ++ b) = encode a ++ encode b := by
  simp [encode]

@[simp]
theorem length_encode (text : List Char) : (encode text).length = byteLength text := by
  induction text with
  | nil => rfl
  | cons ch rest ih => simp [ih]

/-- A byte, taken for the character with its number. -/
def asChar (byte : UInt8) : Char := Char.ofNat byte.toNat

/-- A character beyond ASCII, and so none that any scanner looks for. -/
def Wide (ch : Char) : Prop := 0x80 ≤ ch.toNat

theorem Wide.ne {ch ascii : Char} (wide : Wide ch) (narrow : ascii.toNat < 0x80) : ch ≠ ascii := by
  rintro rfl
  unfold Wide at wide
  omega

theorem toNat_asChar (byte : UInt8) : (asChar byte).toNat = byte.toNat := by
  have small := byte.toNat_lt
  have valid : byte.toNat.isValidChar := .inl (by omega)
  simp [asChar, Char.ofNat, valid, Char.toNat, Char.ofNatAux]

theorem wide_asChar {byte : UInt8} : Wide (asChar byte) ↔ 0x80 ≤ byte.toNat := by
  rw [Wide, toNat_asChar]

/-- The number of bytes of a character, judged by the first of them. -/
def width (lead : UInt8) : Nat :=
  if lead.toNat < 0x80 then 1
  else if 0xC0 ≤ lead.toNat ∧ lead.toNat < 0xE0 then 2
  else if 0xE0 ≤ lead.toNat ∧ lead.toNat < 0xF0 then 3
  else 4

/-- How a character is encoded: an ASCII character as itself, any other by bytes that are not ASCII. -/
structure Leads (ch : Char) (first : UInt8) (tail : List UInt8) : Prop where
  bytes : String.utf8EncodeChar ch = first :: tail
  lead : asChar first = ch ∨ (Wide ch ∧ Wide (asChar first))
  tail : ∀ byte ∈ tail, Wide (asChar byte)
  width : width first = ch.utf8Size

theorem asChar_ofNat_toNat {ch : Char} (ascii : ch.toNat < 0x80) : asChar (UInt8.ofNat ch.toNat) = ch := by
  have small : (UInt8.ofNat ch.toNat).toNat = ch.toNat := by simp; omega
  rw [asChar, small, Char.ofNat_toNat]

theorem toNat_ofNat_byte {n : Nat} (small : n < 0x100) : (UInt8.ofNat n).toNat = n := by
  rw [UInt8.toNat_ofNat']
  omega

/-- A character beyond ASCII: none of its bytes is an ASCII character, and the first tells how many there are. -/
theorem leads_of_wide {ch : Char} {first : UInt8} {tail : List UInt8} (wide : Wide ch)
    (bytes : String.utf8EncodeChar ch = first :: tail) (beyond : ∀ byte ∈ first :: tail, 0x80 ≤ byte.toNat)
    (count : width first = tail.length + 1) : Leads ch first tail where
  bytes := bytes
  lead := .inr ⟨wide, wide_asChar.mpr (beyond first List.mem_cons_self)⟩
  tail := fun byte member => wide_asChar.mpr (beyond byte (List.mem_cons_of_mem _ member))
  width := by rw [count, ← String.length_utf8EncodeChar, bytes, List.length_cons]

theorem leads_of_ascii {ch : Char} (narrow : ch.toNat < 0x80)
    (bytes : String.utf8EncodeChar ch = [UInt8.ofNat ch.toNat]) : Leads ch (UInt8.ofNat ch.toNat) [] where
  bytes := bytes
  lead := .inl (asChar_ofNat_toNat narrow)
  tail := by simp
  width := by rw [← String.length_utf8EncodeChar, bytes, Bytes.width, toNat_ofNat_byte (by omega), if_pos narrow]; rfl

theorem exists_leads (ch : Char) : ∃ first tail, Leads ch first tail := by
  have number : ch.val.toNat = ch.toNat := rfl
  have limit : ch.toNat < 0x110000 := by
    have valid := ch.valid
    simp only [UInt32.isValidChar, Nat.isValidChar, number] at valid
    omega
  by_cases one : ch.toNat ≤ 0x7f
  · have bytes : String.utf8EncodeChar ch = [UInt8.ofNat ch.toNat] := by
      simp only [String.utf8EncodeChar, number, if_pos one]
    exact ⟨_, _, leads_of_ascii (by omega) bytes⟩
  have wide : Wide ch := by
    unfold Wide
    omega
  by_cases two : ch.toNat ≤ 0x7ff
  · have bytes : String.utf8EncodeChar ch =
        [UInt8.ofNat (ch.toNat / 64 % 32 + 192), UInt8.ofNat (ch.toNat % 64 + 128)] := by
      simp only [String.utf8EncodeChar, number, if_neg one, if_pos two]
    refine ⟨_, _, leads_of_wide wide bytes ?_ ?_⟩
    · simp only [List.mem_cons, List.not_mem_nil, or_false, forall_eq_or_imp, forall_eq, UInt8.toNat_ofNat']
      omega
    · rw [width, toNat_ofNat_byte (by omega), if_neg (by omega), if_pos (by omega)]
      rfl
  by_cases three : ch.toNat ≤ 0xffff
  · have bytes : String.utf8EncodeChar ch =
        [UInt8.ofNat (ch.toNat / 4096 % 16 + 224), UInt8.ofNat (ch.toNat / 64 % 64 + 128),
          UInt8.ofNat (ch.toNat % 64 + 128)] := by
      simp only [String.utf8EncodeChar, number, if_neg one, if_neg two, if_pos three]
    refine ⟨_, _, leads_of_wide wide bytes ?_ ?_⟩
    · simp only [List.mem_cons, List.not_mem_nil, or_false, forall_eq_or_imp, forall_eq, UInt8.toNat_ofNat']
      omega
    · rw [width, toNat_ofNat_byte (by omega), if_neg (by omega), if_neg (by omega), if_pos (by omega)]
      rfl
  · have bytes : String.utf8EncodeChar ch =
        [UInt8.ofNat (ch.toNat / 262144 % 8 + 240), UInt8.ofNat (ch.toNat / 4096 % 64 + 128),
          UInt8.ofNat (ch.toNat / 64 % 64 + 128), UInt8.ofNat (ch.toNat % 64 + 128)] := by
      simp only [String.utf8EncodeChar, number, if_neg one, if_neg two, if_neg three]
    refine ⟨_, _, leads_of_wide wide bytes ?_ ?_⟩
    · simp only [List.mem_cons, List.not_mem_nil, or_false, forall_eq_or_imp, forall_eq, UInt8.toNat_ofNat']
      omega
    · rw [width, toNat_ofNat_byte (by omega), if_neg (by omega), if_neg (by omega), if_neg (by omega)]
      rfl

theorem utf8Size_of_ascii {ch : Char} (narrow : ch.toNat < 0x80) : ch.utf8Size = 1 :=
  Char.utf8Size_eq_one_iff.mpr (UInt32.le_iff_toNat_le.mpr (Nat.le_of_lt_succ narrow))

/-- An ASCII character has one byte. -/
theorem Leads.ascii {ch : Char} {first : UInt8} {tail : List UInt8} (leads : Leads ch first tail)
    (narrow : ch.toNat < 0x80) : asChar first = ch ∧ tail = [] := by
  constructor
  · rcases leads.lead with same | ⟨wide, _⟩
    · exact same
    · unfold Wide at wide
      omega
  · have size := String.length_utf8EncodeChar ch
    rw [leads.bytes, utf8Size_of_ascii narrow] at size
    exact List.eq_nil_of_length_eq_zero (Nat.succ.inj size)

/-- The first byte of a character is an ASCII character just where the character is. -/
theorem Leads.eq_iff {ch ascii : Char} {first : UInt8} {tail : List UInt8} (leads : Leads ch first tail)
    (narrow : ascii.toNat < 0x80) : asChar first = ascii ↔ ch = ascii := by
  rcases leads.lead with same | ⟨wide, beyond⟩
  · rw [same]
  · exact ⟨fun same => absurd same (beyond.ne narrow), fun same => absurd same (wide.ne narrow)⟩

end SigilTemplate.Bytes
