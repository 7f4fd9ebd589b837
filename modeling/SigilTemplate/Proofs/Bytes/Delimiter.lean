import SigilTemplate.Proofs.Bytes.Scan
import SigilTemplate.Proofs.Code.Rest

/-!
Delimiters, byte by byte: the end of an enclosed fragment, of the head of a
statement and of the pattern of an arm, and the commas between arguments. Each
is found where the characters have it, at an offset where something can be read.
-/

namespace SigilTemplate.Bytes
open Text

variable {source : List Char}

theorem Aligned.of_place {c : Cursor} (place : Cursor.ofText source ≤ c) : Aligned (encode source) 0 c :=
  Aligned.ofText.of_le place

theorem Wide.not_opener {ch : Char} (wide : Wide ch) : Code.isOpener ch = false := by
  simp [Code.isOpener, wide.ne (by decide : '('.toNat < 0x80), wide.ne (by decide : '['.toNat < 0x80),
    wide.ne (by decide : '{'.toNat < 0x80)]

theorem Wide.not_closer {ch : Char} (wide : Wide ch) : Code.isCloser ch = false := by
  simp [Code.isCloser, wide.ne (by decide : ')'.toNat < 0x80), wide.ne (by decide : ']'.toNat < 0x80),
    wide.ne (by decide : '}'.toNat < 0x80)]

theorem narrow_of_isOpener {ch : Char} (opens : Code.isOpener ch = true) : ch.toNat < 0x80 := by
  simp only [Code.isOpener, Bool.or_eq_true, beq_iff_eq] at opens
  rcases opens with (rfl | rfl) | rfl <;> decide

theorem narrow_of_isCloser {ch : Char} (closes : Code.isCloser ch = true) : ch.toNat < 0x80 := by
  simp only [Code.isCloser, Bool.or_eq_true, beq_iff_eq] at closes
  rcases closes with (rfl | rfl) | rfl <;> decide

/-! ## Enclosed fragments -/

/-- Why the bytes of a fragment have no end, by offsets. -/
inductive Refused where
  | mismatched (offset : Nat) (found : Char) (opener : Nat)
  | unterminated (opener : Nat)
  | tooDeep (offset : Nat)

/-- One byte of a fragment that opens at `opener`, inside the delimiters of a stack. -/
def balancedStep (bytes : List UInt8) (limit opener : Nat) (stack : List (Char × Nat)) (ch : Char) (i : Nat) :
    Checked (Except Refused Nat ⊕ List (Char × Nat)) :=
  if Code.isOpener ch then
    if stack.length ≥ max limit 1 then .ok (.inl (.error (.tooDeep i)))
    else .ok (.inr ((ch, i) :: stack))
  else if Code.isCloser ch then do
    let first ← byteAt bytes opener
    let (innermost, place) := stack.headD (asChar first, opener)
    if Code.closerOf innermost ≠ ch then .ok (.inl (.error (.mismatched i ch place)))
    else if stack.tail.isEmpty then .ok (.inl (.ok (i + 1)))
    else .ok (.inr stack.tail)
  else .ok (.inr stack)

/-- The offset after the fragment that opens at an offset. -/
def balanced (bytes : List UInt8) (limit opener : Nat) : Checked (Except Refused Nat) := do
  let first ← byteAt bytes opener
  scan (balancedStep bytes limit opener) (fun _ => .error (.unterminated opener)) bytes [(asChar first, opener)] (opener + 1)

/-- The offsets of a refusal, or of the end of a fragment. -/
def offsets : Except Code.Refusal Code.Enclosed → Except Refused Nat
  | .ok fragment => .ok fragment.after.pos
  | .error (.mismatched place found innermost) => .error (.mismatched place.pos found innermost.pos)
  | .error (.unterminated opener) => .error (.unterminated opener.pos)
  | .error (.tooDeep pos) => .error (.tooDeep pos)

def stackOf (nesting : Code.Nesting) : List (Char × Nat) :=
  nesting.openers.map fun opener => (opener.ch, opener.pos)

theorem balancedStep_alike (limit : Nat) {bytes : List UInt8} {opener : Nat} {start place : Cursor} {first : UInt8}
    {nesting : Code.Nesting} {ch : Char} (here : bytes[opener]? = some first) (head : place.peek = some ch) :
    StepsAlike (fun stack nesting _ => stack = stackOf nesting) (fun answer found => answer = offsets found)
      (balancedStep bytes limit opener (stackOf nesting) ch place.pos) place
      (Code.encloseStep limit start nesting ch place) := by
  obtain ⟨rest, starts⟩ := Cursor.peek_eq_some.mp head
  have depth : (stackOf nesting).length = nesting.depth := by
    simp [stackOf, Code.Nesting.openers, Code.Nesting.depth]
  unfold balancedStep Code.encloseStep
  rw [depth, byteAt_of_getElem? here]
  by_cases opens : Code.isOpener ch = true
  · rw [if_pos opens, if_pos opens]
    by_cases deep : nesting.depth ≥ max limit 1
    · rw [if_pos deep, if_pos deep]
      exact ⟨_, rfl, rfl⟩
    · rw [if_neg deep, if_neg deep]
      exact ⟨_, rfl, rfl⟩
  rw [if_neg opens, if_neg opens]
  by_cases closes : Code.isCloser ch = true
  · rw [if_pos closes, if_pos closes]
    by_cases pairs : Code.closerOf nesting.innermost.ch = ch
    · have single : ch.utf8Size = 1 := utf8Size_of_ascii (narrow_of_isCloser closes)
      have next : place.next.pos = place.pos + 1 := by rw [Cursor.next, starts, ← single]
      rw [if_pos pairs]
      cases around : nesting.around with
      | nil =>
        refine ⟨.ok (place.pos + 1), ?_, by simp only [offsets, next]⟩
        simp [stackOf, Code.Nesting.openers, around, pairs]
      | cons outer rest =>
        refine ⟨stackOf ⟨outer, rest⟩, ?_, rfl⟩
        simp [stackOf, Code.Nesting.openers, around, pairs]
    · rw [if_neg pairs]
      refine ⟨.error (.mismatched place.pos ch nesting.innermost.pos), ?_, rfl⟩
      simp [stackOf, Code.Nesting.openers, pairs]
  · rw [if_neg closes, if_neg closes]
    exact ⟨_, rfl, rfl⟩

/-- The bytes of a fragment end where its characters do, or are refused for the same reason. -/
theorem balanced_eq (limit : Nat) {c : Cursor} {ch : Char} (place : Cursor.ofText source ≤ c)
    (head : c.peek = some ch) (opens : Code.isOpener ch = true) :
    balanced (encode source) limit c.pos = .ok (offsets (Code.enclosed limit c)) := by
  have aligned := Aligned.of_place place
  have narrow := narrow_of_isOpener opens
  obtain ⟨rest, starts⟩ := Cursor.peek_eq_some.mp head
  obtain ⟨first, here, same⟩ : ∃ byte, (encode source)[c.pos]? = some byte ∧ asChar byte = ch :=
    aligned.exists_ascii starts narrow
  have next : c.next.pos = c.pos + 1 := by simp [Cursor.next, starts, utf8Size_of_ascii narrow]
  have whole : ∃ answer, scan (balancedStep (encode source) limit c.pos) (fun _ => .error (.unterminated c.pos))
      (encode source) [(ch, c.pos)] c.next.pos = .ok answer ∧ answer = offsets (Code.enclosed limit c) := by
    unfold Code.enclosed
    rw [head]
    refine scan_eq (fun stack nesting _ => stack = stackOf nesting) (fun answer found => answer = offsets found)
      (fun _ _ _ _ same _ => same) ?_ ?_ ?_ ?_ (aligned.of_le (Cursor.le_next c))
    · intro stack other i wide
      simp [balancedStep, wide.not_opener, wide.not_closer]
    · rintro _ nesting inside other rfl _ there
      exact balancedStep_alike limit here there
    · intro _ _ _ _
      rfl
    · rfl
  obtain ⟨_, found, rfl⟩ := whole
  rw [balanced, byteAt_of_getElem? here, ok_bind, ← found, next, same]

/-! ## Heads and patterns -/

/-- Where a head or a pattern ends: at what was looked for, or at what cuts it short. -/
inductive Ending where
  | found (offset : Nat)
  | stopped (offset : Nat)

/-- A scanner that answers at depth zero where `stops` holds finds what is sought there. -/
theorem scan_seek {α : Type} {stops : Cursor → Bool} {step : Nat → Char → Nat → Checked (α ⊕ Nat)} {found : Cursor → α}
    {finish : α} (wide : ∀ depth ch i, Wide ch → step depth ch i = .ok (.inr depth))
    (same : ∀ depth ch place, Aligned (encode source) 0 place → place.peek = some ch →
      step depth ch place.pos = .ok (match Code.seekStep stops depth ch place with
        | .inl answer => .inl (answer.elim finish found)
        | .inr depth => .inr depth))
    {c : Cursor} (place : Cursor.ofText source ≤ c) :
    scan step (fun _ => finish) (encode source) 0 c.pos = .ok ((Code.seek stops c).elim finish found) := by
  have whole : ∃ answer, scan step (fun _ => finish) (encode source) 0 c.pos = .ok answer ∧
      answer = (Code.seek stops c).elim finish found := by
    rw [Code.seek_eq, Code.seekFrom]
    refine scan_eq (fun depth other _ => depth = other)
      (fun answer (sought : Option Cursor) => answer = sought.elim finish found) (fun _ _ _ _ same _ => same) wide ?_ ?_ ?_
      (Aligned.of_place place)
    · rintro depth _ inside ch rfl aligned head
      have step := same depth ch inside aligned head
      cases outcome : Code.seekStep stops depth ch inside with
      | inl answer =>
        rw [outcome] at step
        exact ⟨_, step, rfl⟩
      | inr next =>
        rw [outcome] at step
        exact ⟨_, step, rfl⟩
    · intro _ _ _ _
      rfl
    · rfl
  obtain ⟨_, found, rfl⟩ := whole
  exact found

/-- One byte of a head, inside as many brackets. -/
def headStep (depth : Nat) (ch : Char) (i : Nat) : Checked (Ending ⊕ Nat) :=
  if ch = '(' ∨ ch = '[' then .ok (.inr (depth + 1))
  else if ch = ')' ∨ ch = ']' then .ok (.inr (depth - 1))
  else if ch = '{' then if depth = 0 then .ok (.inl (.found i)) else .ok (.inr (depth + 1))
  else if ch = '}' then if depth = 0 then .ok (.inl (.stopped i)) else return .inr (← minus depth 1)
  else if ch = '@' ∧ depth = 0 then .ok (.inl (.stopped i))
  else .ok (.inr depth)

/-- Where the head from an offset on ends. -/
def headAt (bytes : List UInt8) (i : Nat) : Checked Ending :=
  scan headStep (fun _ => .stopped bytes.length) bytes 0 i

/-- One byte of a pattern, inside as many brackets. -/
def patternStep (bytes : List UInt8) (depth : Nat) (ch : Char) (i : Nat) : Checked (Ending ⊕ Nat) :=
  if ch = '(' ∨ ch = '[' ∨ ch = '{' then .ok (.inr (depth + 1))
  else if ch = '}' ∧ depth = 0 then .ok (.inl (.stopped i))
  else if ch = ')' ∨ ch = ']' ∨ ch = '}' then .ok (.inr (depth - 1))
  else if ch = '=' ∧ depth = 0 ∧ bytes[i + 1]?.map asChar = some '>' then .ok (.inl (.found i))
  else .ok (.inr depth)

/-- Where the pattern from an offset on ends. -/
def patternAt (bytes : List UInt8) (i : Nat) : Checked Ending :=
  scan (patternStep bytes) (fun _ => .stopped bytes.length) bytes 0 i

theorem pos_finish {c : Cursor} (place : Cursor.ofText source ≤ c) : c.finish.pos = (encode source).length := by
  have total := (Aligned.of_place place).length_eq.2
  rw [total]
  rfl

theorem headStep_eq (size depth : Nat) {ch : Char} {place : Cursor} (head : place.peek = some ch) :
    headStep depth ch place.pos = .ok (match Code.seekStep (fun place => place.peek ∈ [some '{', some '}', some '@']) depth ch place with
      | .inl answer => .inl (answer.elim (.stopped size) fun stop =>
          if stop.peek = some '{' then .found stop.pos else .stopped stop.pos)
      | .inr depth => .inr depth) := by
  by_cases special : ch ∈ ['(', '[', ')', ']', '{', '}', '@']
  · simp only [List.mem_cons, List.not_mem_nil, or_false] at special
    rcases special with rfl | rfl | rfl | rfl | rfl | rfl | rfl <;> cases depth <;>
      simp [headStep, Code.seekStep, head, Code.isOpener, Code.isCloser, minus]
  · simp only [List.mem_cons, List.not_mem_nil, or_false, not_or] at special
    simp [headStep, Code.seekStep, head, Code.isOpener, Code.isCloser, special]

/-- A head ends at the bytes of the character where it ends. -/
theorem headAt_eq {c : Cursor} (place : Cursor.ofText source ≤ c) :
    headAt (encode source) c.pos = .ok (match Code.headEnd c with
      | .block brace => .found brace.pos
      | .stopped stop => .stopped stop.pos) := by
  have whole := scan_seek ?wide (fun depth ch inside _ head => headStep_eq (encode source).length depth head) place
  · rw [headAt, whole, Code.headEnd]
    cases Code.seek (fun place => place.peek ∈ [some '{', some '}', some '@']) c with
    | none => simp [pos_finish place]
    | some stop =>
      simp only [Option.elim_some]
      split <;> rfl
  case wide =>
    intro depth ch i wide
    simp [headStep, wide.ne (by decide : '('.toNat < 0x80), wide.ne (by decide : '['.toNat < 0x80),
      wide.ne (by decide : ')'.toNat < 0x80), wide.ne (by decide : ']'.toNat < 0x80),
      wide.ne (by decide : '{'.toNat < 0x80), wide.ne (by decide : '}'.toNat < 0x80),
      wide.ne (by decide : '@'.toNat < 0x80)]

theorem patternStep_eq (size depth : Nat) {ch : Char} {place : Cursor} (aligned : Aligned (encode source) 0 place)
    (head : place.peek = some ch) :
    patternStep (encode source) depth ch place.pos =
      .ok (match Code.seekStep (fun place => place.peek = some '}' || Code.atArrow place) depth ch place with
        | .inl answer => .inl (answer.elim (.stopped size) fun stop =>
            if Code.atArrow stop then .found stop.pos else .stopped stop.pos)
        | .inr depth => .inr depth) := by
  obtain ⟨rest, starts⟩ := Cursor.peek_eq_some.mp head
  by_cases equals : ch = '='
  · subst equals
    have next : place.next.pos = place.pos + 1 := by simp [Cursor.next, starts, utf8Size_of_ascii (by decide : '='.toNat < 0x80)]
    have follows : (encode source)[place.pos + 1]?.map asChar = some '>' ↔ Code.atArrow place = true := by
      rw [← next]
      refine ((aligned.of_le (Cursor.le_next place)).map_asChar_iff (by decide : '>'.toNat < 0x80)).trans ?_
      simp only [Code.atArrow, Cursor.startsWith, Cursor.peek, Cursor.next, starts]
      cases rest with
      | nil => simp [List.isPrefixOf]
      | cons other _ => simpa [List.isPrefixOf] using eq_comm
    cases arrow : Code.atArrow place <;> cases depth <;>
      simp [patternStep, Code.seekStep, head, Code.isOpener, Code.isCloser, follows, arrow]
  have plain : Code.atArrow place = false := by
    simp [Code.atArrow, Cursor.startsWith, starts, List.isPrefixOf, Ne.symm equals]
  by_cases special : ch ∈ ['(', '[', '{', '}', ')', ']']
  · simp only [List.mem_cons, List.not_mem_nil, or_false] at special
    rcases special with rfl | rfl | rfl | rfl | rfl | rfl <;> cases depth <;>
      simp [patternStep, Code.seekStep, head, Code.isOpener, Code.isCloser, plain]
  · simp only [List.mem_cons, List.not_mem_nil, or_false, not_or] at special
    simp [patternStep, Code.seekStep, head, Code.isOpener, Code.isCloser, special, plain, equals]

/-- A pattern ends at the bytes of the character where it ends. -/
theorem patternAt_eq {c : Cursor} (place : Cursor.ofText source ≤ c) :
    patternAt (encode source) c.pos = .ok (match Code.patternEnd c with
      | .arrow arrow => .found arrow.pos
      | .stopped stop => .stopped stop.pos) := by
  have whole := scan_seek ?wide
    (fun depth ch inside aligned head => patternStep_eq (encode source).length depth aligned head) place
  · rw [patternAt, whole, Code.patternEnd]
    cases Code.seek (fun place => place.peek = some '}' || Code.atArrow place) c with
    | none => simp [pos_finish place]
    | some stop =>
      simp only [Option.elim_some]
      split <;> rfl
  case wide =>
    intro depth ch i wide
    simp [patternStep, wide.ne (by decide : '('.toNat < 0x80), wide.ne (by decide : '['.toNat < 0x80),
      wide.ne (by decide : ')'.toNat < 0x80), wide.ne (by decide : ']'.toNat < 0x80),
      wide.ne (by decide : '{'.toNat < 0x80), wide.ne (by decide : '}'.toNat < 0x80),
      wide.ne (by decide : '='.toNat < 0x80)]

end SigilTemplate.Bytes
