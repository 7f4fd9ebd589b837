import SigilTemplate.Proofs.Bytes.Literal

/-!
Code, byte by byte. A scanner of bytes and one of characters agree if their
steps agree on ASCII characters and go on over all others: then the bytes of a
text lead to the answer of its characters, and no access is a breach.
-/

namespace SigilTemplate.Bytes
open Text

section

variable {σ τ ρ α : Type}

/-- Reads code from `i` on. At each byte outside literals `step` answers or goes on with a new state;
after the last byte `finish` answers. -/
def scan (step : τ → Char → Nat → Checked (α ⊕ τ)) (finish : τ → α) (bytes : List UInt8) (state : τ) (i : Nat) :
    Checked α :=
  if _inside : i < bytes.length then
    match byteAt bytes i with
    | .error breach => .error breach
    | .ok byte =>
      match _literal : literalEnd bytes byte i with
      | .error breach => .error breach
      | .ok (some stop) => scan step finish bytes state stop
      | .ok none =>
        match step state (asChar byte) i with
        | .error breach => .error breach
        | .ok (.inl answer) => .ok answer
        | .ok (.inr next) => scan step finish bytes next (i + 1)
  else .ok (finish state)
termination_by bytes.length - i
decreasing_by
  · have := lt_literalEnd _inside _literal
    omega
  · omega

variable {bytes : List UInt8} {base : Nat} {step : τ → Char → Nat → Checked (α ⊕ τ)} {finish : τ → α}

theorem scan_end {state : τ} {i : Nat} (past : bytes.length ≤ i) : scan step finish bytes state i = .ok (finish state) := by
  rw [scan, dif_neg (by omega)]

theorem scan_literal {state : τ} {i j : Nat} {byte : UInt8} (here : bytes[i]? = some byte)
    (literal : literalEnd bytes byte i = .ok (some j)) : scan step finish bytes state i = scan step finish bytes state j := by
  conv => lhs; rw [scan, dif_pos (lt_of_getElem? here), byteAt_of_getElem? here]
  simp only
  split
  · next found => simp [literal] at found
  · next found =>
    rw [literal] at found
    obtain rfl := Option.some.inj (Except.ok.inj found)
    rfl
  · next found => simp [literal] at found

theorem scan_step {state : τ} {i : Nat} {byte : UInt8} (here : bytes[i]? = some byte)
    (plain : literalEnd bytes byte i = .ok none) :
    scan step finish bytes state i = match step state (asChar byte) i with
      | .error breach => .error breach
      | .ok (.inl answer) => .ok answer
      | .ok (.inr next) => scan step finish bytes next (i + 1) := by
  conv => lhs; rw [scan, dif_pos (lt_of_getElem? here), byteAt_of_getElem? here]
  simp only
  split
  · next found => simp [plain] at found
  · next found => simp [plain] at found
  · rfl

theorem literalEnd_of_wide {byte : UInt8} {i : Nat} (wide : Wide (asChar byte)) : literalEnd bytes byte i = .ok none := by
  rw [literalEnd, if_neg (wide.ne (by decide)), if_neg (wide.ne (by decide))]

theorem scan_over (wide : ∀ state ch i, Wide ch → step state ch i = .ok (.inr state)) {state : τ} {i : Nat} {byte : UInt8}
    (here : bytes[i]? = some byte) (beyond : Wide (asChar byte)) :
    scan step finish bytes state i = scan step finish bytes state (i + 1) := by
  rw [scan_step here (literalEnd_of_wide beyond), wide state _ i beyond]

/-- At a character outside literals, a scanner takes its step for this character, and then goes over all of its bytes. -/
theorem scan_char (wide : ∀ state ch i, Wide ch → step state ch i = .ok (.inr state)) {state : τ} {c : Cursor} {ch : Char}
    {rest : List Char} (aligned : Aligned bytes base c) (starts : c.rest = ch :: rest)
    (outside : Code.literalEnd? c = none) :
    scan step finish bytes state (c.pos - base) = match step state ch (c.pos - base) with
      | .error breach => .error breach
      | .ok (.inl answer) => .ok answer
      | .ok (.inr next) => scan step finish bytes next (c.next.pos - base) := by
  obtain ⟨first, tail, leads⟩ := exists_leads ch
  have plain := literalEnd_eq aligned starts leads
  rw [outside] at plain
  have onward (state : τ) :
      scan step finish bytes state (c.pos - base + 1) = scan step finish bytes state (c.next.pos - base) := by
    have passing (i : Nat) (byte : UInt8) (here : bytes[i]? = some byte) (beyond : Wide (asChar byte)) :
        scan step finish bytes state i = scan step finish bytes state (i + 1) :=
      scan_over wide here beyond
    exact passes_tail passing (fun _ beyond => beyond) aligned starts
  rw [scan_step (aligned.getElem?_first starts leads) plain]
  simp only [onward]
  rcases leads.lead with same | ⟨beyond, beyond'⟩
  · rw [same]
  · rw [wide state _ _ beyond, wide state _ _ beyond']

/-- A step on bytes does at the offset of a place what a step on characters does at the place. -/
def StepsAlike (rel : τ → σ → Cursor → Prop) (ans : α → ρ → Prop) (onBytes : Checked (α ⊕ τ)) (place : Cursor) :
    ρ ⊕ σ → Prop
  | .inl answer => ∃ other, onBytes = .ok (.inl other) ∧ ans other answer
  | .inr next => ∃ other, onBytes = .ok (.inr other) ∧ rel other next place.next

/-- Scanners with steps alike give answers alike. -/
theorem scan_eq {onChars : σ → Char → Cursor → ρ ⊕ σ} {atEnd : σ → Cursor → ρ} (rel : τ → σ → Cursor → Prop)
    (ans : α → ρ → Prop) (mono : ∀ state other c d, rel state other c → c < d → rel state other d)
    (wide : ∀ state ch i, Wide ch → step state ch i = .ok (.inr state))
    (alike : ∀ state other place ch, rel state other place → Aligned bytes base place → place.peek = some ch →
      StepsAlike rel ans (step state ch (place.pos - base)) place (onChars other ch place))
    (ends : ∀ state other place, rel state other place → ans (finish state) (atEnd other place))
    {state : τ} {other : σ} {c : Cursor} (start : rel state other c) (aligned : Aligned bytes base c) :
    ∃ answer, scan step finish bytes state (c.pos - base) = .ok answer ∧ ans answer (Code.scan onChars atEnd other c) := by
  fun_induction Code.scan onChars atEnd other c generalizing state with
  | case1 other c after literal ih =>
    have lt := Code.lt_of_literalEnd? literal
    cases starts : c.rest with
    | nil => simp [Code.literalEnd?, starts] at literal
    | cons ch rest =>
      obtain ⟨first, tail, leads⟩ := exists_leads ch
      have stop := literalEnd_eq aligned starts leads
      rw [literal] at stop
      rw [scan_literal (aligned.getElem?_first starts leads) stop]
      exact ih (mono _ _ _ _ start lt) (aligned.of_le lt.le)
  | case2 other c literal empty =>
    have total := aligned.length_eq
    rw [empty, byteLength_nil, Nat.add_zero] at total
    exact ⟨_, scan_end (Nat.le_of_eq total.2), ends _ _ _ start⟩
  | case3 other c literal ch rest starts answer answers =>
    have step := alike _ _ _ _ start aligned (Cursor.peek_eq_some.mpr ⟨rest, starts⟩)
    rw [answers] at step
    obtain ⟨given, here, holds⟩ := step
    rw [scan_char wide aligned starts literal, here]
    exact ⟨given, rfl, holds⟩
  | case4 other c literal ch rest starts next goesOn ih =>
    have step := alike _ _ _ _ start aligned (Cursor.peek_eq_some.mpr ⟨rest, starts⟩)
    rw [goesOn] at step
    obtain ⟨given, here, holds⟩ := step
    rw [scan_char wide aligned starts literal, here]
    exact ih holds (aligned.of_le (Cursor.le_next c))

end

end SigilTemplate.Bytes
