import SigilTemplate.Proofs.Bytes.Delimiter

/-!
The stack of open delimiters, byte by byte. Where a closing delimiter is met on
an empty stack, the scan would compare it with the first delimiter of the
fragment. That never happens: a scan for which it is a breach to take from an
empty stack gives the same answers.
-/

namespace SigilTemplate.Bytes
open Text

theorem getElem?_of_byteAt {bytes : List UInt8} {i : Nat} {byte : UInt8} (access : byteAt bytes i = .ok byte) :
    bytes[i]? = some byte := by
  unfold byteAt at access
  split at access
  · next found =>
    obtain rfl := Except.ok.inj access
    exact found
  · simp at access

/-- Scans whose steps agree in all states that they come to give one answer. -/
theorem scan_congr {τ α : Type} {step other : τ → Char → Nat → Checked (α ⊕ τ)} {finish : τ → α} {bytes : List UInt8}
    (inv : τ → Prop) (same : ∀ state ch i, inv state → other state ch i = step state ch i)
    (kept : ∀ state ch i next, inv state → step state ch i = .ok (.inr next) → inv next) {state : τ} {i : Nat}
    (start : inv state) : scan other finish bytes state i = scan step finish bytes state i := by
  fun_induction scan step finish bytes state i with
  | case1 state i inside breach access => rw [scan, dif_pos inside, access]
  | case2 state i inside byte access breach literal =>
    rw [scan, dif_pos inside, access]
    simp only
    split <;> simp_all
  | case3 state i inside byte access stop literal ih =>
    rw [scan_literal (getElem?_of_byteAt access) literal, ih start]
  | case4 state i inside byte access literal breach fails =>
    rw [scan_step (getElem?_of_byteAt access) literal, same _ _ _ start, fails]
  | case5 state i inside byte access literal answer answers =>
    rw [scan_step (getElem?_of_byteAt access) literal, same _ _ _ start, answers]
  | case6 state i inside byte access literal next goesOn ih =>
    rw [scan_step (getElem?_of_byteAt access) literal, same _ _ _ start, goesOn]
    exact ih (kept _ _ _ _ start goesOn)
  | case7 state i past => exact scan_end (by omega)

/-- As `balancedStep`, but a closing delimiter takes one off the stack, and it is a breach if there is none. -/
def poppingStep (bytes : List UInt8) (limit opener : Nat) (stack : List (Char × Nat)) (ch : Char) (i : Nat) :
    Checked (Except Refused Nat ⊕ List (Char × Nat)) :=
  if Code.isCloser ch then do
    let _ ← minus stack.length 1
    balancedStep bytes limit opener stack ch i
  else balancedStep bytes limit opener stack ch i

/-- The offset after the fragment that opens at an offset, with a stack that must not run empty. -/
def popping (bytes : List UInt8) (limit opener : Nat) : Checked (Except Refused Nat) := do
  let first ← byteAt bytes opener
  scan (poppingStep bytes limit opener) (fun _ => .error (.unterminated opener)) bytes [(asChar first, opener)] (opener + 1)

theorem poppingStep_eq {bytes : List UInt8} {limit opener : Nat} {stack : List (Char × Nat)} (nonempty : stack ≠ [])
    (ch : Char) (i : Nat) : poppingStep bytes limit opener stack ch i = balancedStep bytes limit opener stack ch i := by
  have some : 1 ≤ stack.length := List.length_pos_iff.mpr nonempty
  unfold poppingStep
  split
  · rw [minus_eq some, ok_bind]
  · rfl

/-- A stack that is not empty is not emptied by a step that goes on. -/
theorem balancedStep_nonempty {bytes : List UInt8} {limit opener i : Nat} {stack next : List (Char × Nat)} {ch : Char}
    (nonempty : stack ≠ []) (goesOn : balancedStep bytes limit opener stack ch i = .ok (.inr next)) : next ≠ [] := by
  unfold balancedStep at goesOn
  split at goesOn
  · split at goesOn
    · simp at goesOn
    · obtain rfl : (ch, i) :: stack = next := by simpa using goesOn
      simp
  · split at goesOn
    · cases first : byteAt bytes opener with
      | error breach =>
        rw [first] at goesOn
        simp [Bind.bind, Except.bind] at goesOn
      | ok byte =>
        rw [first, ok_bind] at goesOn
        simp only at goesOn
        split at goesOn
        · simp at goesOn
        · split at goesOn
          · simp at goesOn
          · next left =>
            obtain rfl : stack.tail = next := by simpa using goesOn
            simpa using left
    · obtain rfl : stack = next := by simpa using goesOn
      exact nonempty

theorem popping_eq (bytes : List UInt8) (limit opener : Nat) : popping bytes limit opener = balanced bytes limit opener := by
  unfold popping balanced
  cases byteAt bytes opener with
  | error breach => rfl
  | ok first =>
    exact scan_congr (· ≠ []) (fun stack ch i nonempty => poppingStep_eq nonempty ch i)
      (fun stack ch i next => balancedStep_nonempty) (by simp)

end SigilTemplate.Bytes
