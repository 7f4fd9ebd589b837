import SigilTemplate.Text.Quoted
import Mathlib.Data.List.TakeWhile

/-!
Quoted text can be read back. Each character is quoted in a way that shows
where it ends, and none starts with the quote that ends the text, so what has
been quoted is determined by the front of any text that starts with it.
-/

namespace SigilTemplate.Text

section

variable {p : Char → Bool} {s t rest rest' : List Char}

/-- What stands before the first character that fails a test. -/
theorem takeWhile_append_of_head? (all : s.all p) (ends : rest.head?.all (!p ·)) : (s ++ rest).takeWhile p = s := by
  rw [List.takeWhile_append_of_pos (by simpa using all)]
  cases rest with
  | nil => simp
  | cons ch rest =>
    have stops : p ch = false := by simpa using ends
    simp [stops]

theorem dropWhile_append_of_head? (all : s.all p) (ends : rest.head?.all (!p ·)) :
    (s ++ rest).dropWhile p = rest := by
  have whole := List.takeWhile_append_dropWhile (p := p) (l := s ++ rest)
  rw [takeWhile_append_of_head? all ends] at whole
  exact List.append_cancel_left whole

/-- Runs of certain characters, each before something else, are the same if the texts are. -/
theorem append_inj_of_head? (all : s.all p) (all' : t.all p) (ends : rest.head?.all (!p ·))
    (ends' : rest'.head?.all (!p ·)) (same : s ++ rest = t ++ rest') : s = t ∧ rest = rest' := by
  have front : s = t := by rw [← takeWhile_append_of_head? all ends, same, takeWhile_append_of_head? all' ends']
  subst front
  exact ⟨rfl, List.append_cancel_left same⟩

end

/-! ## Hexadecimal digits -/

/-- The value of a hexadecimal digit in lower case. -/
def digitValue (ch : Char) : Nat := if ch.toNat < 58 then ch.toNat - 48 else ch.toNat - 87

/-- The number that some hexadecimal digits write. -/
def hexValue (digits : List Char) : Nat := digits.foldl (fun value digit => 16 * value + digitValue digit) 0

theorem digitValue_hexDigit {n : Nat} (lt : n < 16) : digitValue (hexDigit n) = n := by
  revert n
  decide

theorem hexDigitsOnto_eq (digits : List Char) (n : Nat) : hexDigitsOnto digits n = hexDigitsOnto [] n ++ digits := by
  induction n using Nat.strongRecOn generalizing digits with
  | ind n ih =>
    by_cases one : n < 16
    · have single (digits : List Char) : hexDigitsOnto digits n = hexDigit n :: digits := by
        rw [hexDigitsOnto, if_pos one]
      rw [single, single]
      rfl
    · have onward (digits : List Char) :
          hexDigitsOnto digits n = hexDigitsOnto [] (n / 16) ++ hexDigit (n % 16) :: digits := by
        rw [hexDigitsOnto, if_neg one]
        exact ih _ (by omega) _
      rw [onward, onward, List.append_assoc]
      rfl

/-- A number of several digits: the last one stands for its remainder. -/
theorem hexDigitsOnto_nil {n : Nat} (more : ¬n < 16) :
    hexDigitsOnto [] n = hexDigitsOnto [] (n / 16) ++ [hexDigit (n % 16)] := by
  rw [hexDigitsOnto, if_neg more]
  exact hexDigitsOnto_eq _ _

theorem hexValue_hexDigitsOnto (n : Nat) : hexValue (hexDigitsOnto [] n) = n := by
  induction n using Nat.strongRecOn with
  | ind n ih =>
    by_cases one : n < 16
    · rw [hexDigitsOnto, if_pos one]
      simp [hexValue, digitValue_hexDigit one]
    · have front := ih (n / 16) (by omega)
      have last := digitValue_hexDigit (Nat.mod_lt n (by omega : 16 > 0))
      rw [hexDigitsOnto_nil one]
      unfold hexValue at front ⊢
      rw [List.foldl_append, front, List.foldl_cons, List.foldl_nil, last]
      omega

/-- What holds of each digit holds of all digits of a number. -/
theorem all_hexDigitsOnto {p : Char → Bool} (each : ∀ n < 16, p (hexDigit n) = true) (n : Nat) :
    (hexDigitsOnto [] n).all p := by
  induction n using Nat.strongRecOn with
  | ind n ih =>
    by_cases one : n < 16
    · rw [hexDigitsOnto, if_pos one]
      simpa using each n one
    · rw [hexDigitsOnto_nil one, List.all_append, ih (n / 16) (by omega)]
      simpa using each _ (Nat.mod_lt n (by omega))

/-! ## Characters -/

/-- The character that an escape stands for, given what follows its backslash, and what follows it. -/
def readEscape : List Char → Option (Char × List Char)
  | 'u' :: '{' :: rest =>
    some (Char.ofNat (hexValue (rest.takeWhile (· != '}'))), (rest.dropWhile (· != '}')).tail)
  | '0' :: rest => some ('\x00', rest)
  | 't' :: rest => some ('\t', rest)
  | 'r' :: rest => some ('\r', rest)
  | 'n' :: rest => some ('\n', rest)
  | ch :: rest => some (ch, rest)
  | [] => none

/-- The first character of what stands between quotes, and what follows it. -/
def readQuotedChar : List Char → Option (Char × List Char)
  | [] => none
  | ch :: rest => if ch = '\\' then readEscape rest else some (ch, rest)

theorem readQuotedChar_quoteChar (c : Char) (rest : List Char) :
    readQuotedChar (quoteChar c ++ rest) = some (c, rest) := by
  unfold quoteChar
  split_ifs with zero tab carriage line quote slash shown
  · rw [zero]
    rfl
  · rw [tab]
    rfl
  · rw [carriage]
    rfl
  · rw [line]
    rfl
  · rw [quote]
    rfl
  · rw [slash]
    rfl
  · simp [readQuotedChar, slash]
  · have digits := all_hexDigitsOnto (p := (· != '}')) (by decide) c.toNat
    have front : (hexDigitsOnto [] c.toNat ++ '}' :: rest).takeWhile (· != '}') = hexDigitsOnto [] c.toNat :=
      takeWhile_append_of_head? digits rfl
    have back : (hexDigitsOnto [] c.toNat ++ '}' :: rest).dropWhile (· != '}') = '}' :: rest :=
      dropWhile_append_of_head? digits rfl
    rw [hexDigitsOnto_eq]
    simp [readQuotedChar, readEscape, front, back, hexValue_hexDigitsOnto]

/-! ## Texts -/

/-- What is quoted, and what follows it, are determined by the characters. -/
theorem quote_append_inj {s t rest rest' : List Char} (same : quote s ++ rest = quote t ++ rest') :
    s = t ∧ rest = rest' := by
  have inside : s.flatMap quoteChar ++ '"' :: rest = t.flatMap quoteChar ++ '"' :: rest' := by
    simpa [quote] using same
  clear same
  -- A character that is quoted does not start with the closing quote.
  have starts (c : Char) (more rest : List Char) : '"' :: rest ≠ quoteChar c ++ more := by
    intro same
    have read := congrArg readQuotedChar same
    rw [readQuotedChar_quoteChar] at read
    obtain ⟨rfl, _⟩ := Prod.mk.inj (Option.some.inj read)
    simp [quoteChar] at same
  induction s generalizing t with
  | nil =>
    cases t with
    | nil => exact ⟨rfl, List.tail_eq_of_cons_eq inside⟩
    | cons d t =>
      rw [List.flatMap_cons, List.append_assoc] at inside
      exact absurd inside (starts d _ _)
  | cons c s ih =>
    cases t with
    | nil =>
      rw [List.flatMap_cons, List.append_assoc] at inside
      exact absurd inside.symm (starts c _ _)
    | cons d t =>
      have read := congrArg readQuotedChar inside
      rw [List.flatMap_cons, List.flatMap_cons, List.append_assoc, List.append_assoc, readQuotedChar_quoteChar,
        readQuotedChar_quoteChar] at read
      obtain ⟨rfl, onward⟩ := Prod.mk.inj (Option.some.inj read)
      obtain ⟨rfl, same⟩ := ih onward
      exact ⟨rfl, same⟩

end SigilTemplate.Text
