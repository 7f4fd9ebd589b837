import Mathlib
import SigilTemplate.Text.Blank
import SigilTemplate.Text.Identifier

/-!
The characters of identifiers among all characters: letters, digits and the
underscore of ASCII, none of them blank.
-/

namespace SigilTemplate.Text

theorem isIdentPart_of_isIdentStart {ch : Char} (start : isIdentStart ch = true) : isIdentPart ch = true := by
  simp only [isIdentStart, isIdentPart, Char.isAlphanum, Bool.or_eq_true] at start ⊢
  rcases start with letter | mark
  · exact .inl (.inl letter)
  · exact .inr mark

theorem isIdentStart_of_isUpper {ch : Char} (upper : ch.isUpper = true) : isIdentStart ch = true := by
  simp [isIdentStart, Char.isAlpha, upper]

theorem toNat_of_isIdentPart {ch : Char} (part : isIdentPart ch = true) : 48 ≤ ch.toNat ∧ ch.toNat < 123 := by
  simp only [isIdentPart, Char.isAlphanum, Char.isAlpha, Char.isUpper, Char.isLower, Char.isDigit, Bool.or_eq_true,
    Bool.and_eq_true, decide_eq_true_eq, beq_iff_eq, UInt32.le_iff_toNat_le] at part
  have number : ch.toNat = ch.val.toNat := rfl
  have limits : 'A'.val.toNat = 65 ∧ 'Z'.val.toNat = 90 ∧ 'a'.val.toNat = 97 ∧ 'z'.val.toNat = 122 ∧
      '0'.val.toNat = 48 ∧ '9'.val.toNat = 57 := by decide
  rcases part with ((upper | lower) | digit) | rfl
  · omega
  · omega
  · omega
  · decide

theorem not_isBlank_of_isIdentPart {ch : Char} (part : isIdentPart ch = true) : isBlank ch = false := by
  have bounds := toNat_of_isIdentPart part
  rw [Bool.eq_false_iff]
  intro blank
  simp only [isBlank, Bool.or_eq_true, Bool.and_eq_true, decide_eq_true_eq, beq_iff_eq] at blank
  omega

end SigilTemplate.Text
