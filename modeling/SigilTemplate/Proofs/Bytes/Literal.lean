import SigilTemplate.Code.Scan
import SigilTemplate.Proofs.Bytes.Access
import SigilTemplate.Proofs.Code.Extent

/-!
Literals in code, byte by byte. A backslash takes one byte along, which may be
the first of several of a character; the others are passed over one at a time,
for none of them is a quote or a backslash. In this way bytes and characters
give the same ends of strings and of character literals.
-/

namespace SigilTemplate.Bytes
open Text

/-- The offset of the first `quote` that no backslash takes along. -/
def findQuote (quote : Char) (bytes : List UInt8) (i : Nat) : Checked (Option Nat) :=
  if i < bytes.length then
    match byteAt bytes i with
    | .error breach => .error breach
    | .ok byte =>
      if asChar byte = '\\' then findQuote quote bytes (i + 2)
      else if asChar byte = quote then .ok (some i)
      else findQuote quote bytes (i + 1)
  else .ok none
termination_by bytes.length - i

/-- The offset after the first single quote between two offsets. -/
def findTick (bytes : List UInt8) (stop i : Nat) : Checked (Option Nat) :=
  if i < stop then
    match byteAt bytes i with
    | .error breach => .error breach
    | .ok byte => if asChar byte = '\x27' then .ok (some (i + 1)) else findTick bytes stop (i + 1)
  else .ok none
termination_by stop - i

/-- The offset after the character literal whose opening quote is at `i`. -/
def charLiteral (bytes : List UInt8) (i : Nat) : Checked (Option Nat) :=
  match bytes[i + 1]? with
  | none => .ok none
  | some byte =>
    if asChar byte = '\\' then findTick bytes (min bytes.length (i + Code.escapeWindow)) (i + 3)
    else if asChar byte = '\x27' then .ok none
    else if bytes[i + 1 + width byte]?.map asChar = some '\x27' then .ok (some (i + 2 + width byte))
    else .ok none

/-- The offset after the literal that starts with the byte at `i`, if one does. A string that is never
closed takes the rest. -/
def literalEnd (bytes : List UInt8) (byte : UInt8) (i : Nat) : Checked (Option Nat) :=
  if asChar byte = '"' then
    match findQuote '"' bytes (i + 1) with
    | .error breach => .error breach
    | .ok (some close) => .ok (some (close + 1))
    | .ok none => .ok (some bytes.length)
  else if asChar byte = '\x27' then charLiteral bytes i
  else .ok none

variable {bytes : List UInt8} {base : Nat}

theorem findQuote_over {quote : Char} (i : Nat) (byte : UInt8) (here : bytes[i]? = some byte)
    (plain : asChar byte ≠ '\\' ∧ asChar byte ≠ quote) : findQuote quote bytes i = findQuote quote bytes (i + 1) := by
  conv => lhs; rw [findQuote, if_pos (lt_of_getElem? here), byteAt_of_getElem? here]
  simp only [if_neg plain.1, if_neg plain.2]

theorem findQuote_end {quote : Char} {i : Nat} (past : bytes.length ≤ i) : findQuote quote bytes i = .ok none := by
  rw [findQuote, if_neg (by omega)]

theorem findQuote_backslash {quote : Char} (i : Nat) (byte : UInt8) (here : bytes[i]? = some byte)
    (slash : asChar byte = '\\') : findQuote quote bytes i = findQuote quote bytes (i + 2) := by
  conv => lhs; rw [findQuote, if_pos (lt_of_getElem? here), byteAt_of_getElem? here]
  simp only [if_pos slash]

/-- The bytes of a text have their quote where its characters have it. -/
theorem findQuote_eq {quote : Char} (ascii : quote.toNat < 0x80) {pos : Nat} {text : List Char}
    (aligned : Aligned bytes base ⟨pos, text⟩) :
    findQuote quote bytes (pos - base) = .ok ((Code.findQuote? quote pos text).map (·.pos - base)) := by
  have wide (ch : Char) (beyond : Wide ch) : ch ≠ '\\' ∧ ch ≠ quote := ⟨beyond.ne (by decide), beyond.ne ascii⟩
  have passing := @findQuote_over bytes quote
  have skips := @findQuote_backslash bytes quote
  fun_induction Code.findQuote? quote pos text with
  | case1 pos =>
    have total := aligned.length_eq
    simp only [byteLength_nil, Nat.add_zero] at total
    exact findQuote_end (Nat.le_of_eq total.2)
  | case2 pos =>
    have total := aligned.length_eq
    have one : '\\'.utf8Size = 1 := rfl
    simp only [byteLength_cons, byteLength_nil, one, Nat.add_zero] at total
    obtain ⟨byte, here, slash⟩ : ∃ byte, bytes[pos - base]? = some byte ∧ asChar byte = '\\' :=
      aligned.exists_ascii rfl (by decide)
    rw [findQuote_backslash _ _ here slash, findQuote_end (by omega)]
    rfl
  | case3 pos escaped rest ih =>
    have next : Aligned bytes base ⟨pos + 1 + escaped.utf8Size, rest⟩ := aligned.of_le ⟨['\\', escaped], rfl, by
      simp [Nat.add_assoc, Char.utf8Size]⟩
    rw [passes_escaped passing wide skips aligned]
    exact ih next
  | case4 pos rest plain =>
    obtain ⟨byte, here, same⟩ : ∃ byte, bytes[pos - base]? = some byte ∧ asChar byte = quote :=
      aligned.exists_ascii rfl ascii
    rw [findQuote, if_pos (lt_of_getElem? here), byteAt_of_getElem? here]
    simp only [same, if_neg plain]
    rfl
  | case5 pos ch rest plain other ih =>
    have onward := passes_char passing wide aligned rfl ⟨plain, other⟩
    have next : Aligned bytes base ⟨pos + ch.utf8Size, rest⟩ := aligned.of_le ⟨[ch], rfl, by simp⟩
    rw [onward]
    exact ih next

/-! ## Character literals -/

theorem findTick_over (stop i : Nat) (byte : UInt8) (here : bytes[i]? = some byte) (plain : asChar byte ≠ '\x27') :
    findTick bytes stop i = findTick bytes stop (i + 1) := by
  conv => lhs; rw [findTick]
  by_cases more : i < stop
  · rw [if_pos more, byteAt_of_getElem? here]
    simp only [if_neg plain]
  · rw [if_neg more, findTick, if_neg (by omega)]

theorem findTick_eq (limit : Nat) {pos : Nat} {text : List Char} (aligned : Aligned bytes base ⟨pos, text⟩) :
    findTick bytes (min bytes.length (limit - base)) (pos - base) =
      .ok ((Code.findEscapeEnd? limit pos text).map (·.pos - base)) := by
  have wide (ch : Char) (beyond : Wide ch) : ch ≠ '\x27' := beyond.ne (by decide)
  have passing := @findTick_over bytes (min bytes.length (limit - base))
  have total := aligned.length_eq
  simp only at total
  fun_induction Code.findEscapeEnd? limit pos text with
  | case1 pos =>
    rw [findTick, if_neg (by simp at total; omega)]
    rfl
  | case2 pos rest less =>
    obtain ⟨byte, here, same⟩ : ∃ byte, bytes[pos - base]? = some byte ∧ asChar byte = '\x27' :=
      aligned.exists_ascii rfl (by decide)
    have inside := lt_of_getElem? here
    have after : pos - base + 1 = pos + 1 - base := by omega
    rw [findTick, if_pos (by omega), byteAt_of_getElem? here]
    simp only [if_pos same, Option.map_some, after]
  | case3 pos ch rest less other ih =>
    have onward := passes_char passing wide aligned rfl other
    have next : Aligned bytes base ⟨pos + ch.utf8Size, rest⟩ := aligned.of_le ⟨[ch], rfl, by simp⟩
    rw [onward]
    exact ih next next.length_eq
  | case4 pos ch rest stops =>
    rw [findTick, if_neg (by omega)]
    rfl

/-- The end of a literal that starts with a backslash. -/
theorem escapedLiteral_eq {c : Cursor} {rest : List Char} (aligned : Aligned bytes base c)
    (starts : c.rest = '\x27' :: '\\' :: rest) :
    findTick bytes (min bytes.length (c.pos - base + Code.escapeWindow)) (c.pos - base + 3) =
      .ok ((Code.charLiteralEnd? c).map (·.pos - base)) := by
  have below := aligned.length_eq.1
  have onward := aligned.of_le (Cursor.le_next c)
  have further := onward.of_le (Cursor.le_next c.next)
  have second : c.next.rest = '\\' :: rest := by simp [Cursor.next, starts]
  have third : c.next.next.rest = rest := by simp [Cursor.next, starts]
  have offset : c.next.next.pos - base = c.pos - base + 2 := by
    rw [onward.pos_next second, aligned.pos_next starts]
    rfl
  cases rest with
  | nil =>
    have total := further.length_eq
    rw [third, byteLength_nil] at total
    rw [findTick, if_neg (by omega)]
    simp [Code.charLiteralEnd?, starts]
  | cons escaped rest =>
    have passing := @findTick_over bytes (min bytes.length (c.pos - base + Code.escapeWindow))
    -- The rest of the escaped character holds no quote; the window is measured from the start of the literal.
    have passed := passes_tail passing (fun ch beyond => beyond.ne (by decide)) further third
    have place : c.next.next.next.pos = c.pos + 2 + escaped.utf8Size := by simp [Cursor.next, starts, Char.utf8Size]
    have last : Aligned bytes base ⟨c.pos + 2 + escaped.utf8Size, rest⟩ :=
      further.of_le ⟨[escaped], third, by simp [Cursor.next, starts, Char.utf8Size]⟩
    have limit : c.pos + Code.escapeWindow - base = c.pos - base + Code.escapeWindow := by omega
    have found := findTick_eq (c.pos + Code.escapeWindow) last
    rw [limit] at found
    rw [offset, place, found] at passed
    rw [passed]
    simp [Code.charLiteralEnd?, starts]

/-- A literal of one character ends with the quote behind it. -/
theorem plainLiteral_eq {c : Cursor} {ch : Char} {rest : List Char} (aligned : Aligned bytes base c)
    (starts : c.rest = '\x27' :: ch :: rest) (slash : ch ≠ '\\') (tick : ch ≠ '\x27') :
    (if bytes[c.pos - base + 1 + ch.utf8Size]?.map asChar = some '\x27' then
        .ok (some (c.pos - base + 2 + ch.utf8Size))
      else .ok none : Checked (Option Nat)) = .ok ((Code.charLiteralEnd? c).map (·.pos - base)) := by
  have below := aligned.length_eq.1
  have onward := aligned.of_le (Cursor.le_next c)
  have further := onward.of_le (Cursor.le_next c.next)
  have second : c.next.rest = ch :: rest := by simp [Cursor.next, starts]
  have third : c.next.next.rest = rest := by simp [Cursor.next, starts]
  have offset : c.next.next.pos - base = c.pos - base + 1 + ch.utf8Size := by
    rw [onward.pos_next second, aligned.pos_next starts]
    rfl
  rw [← offset]
  cases rest with
  | nil =>
    have alone : Code.charLiteralEnd? c = none := by
      rw [Code.charLiteralEnd?, starts]
      split <;> simp_all
    rw [further.getElem?_end third, alone]
    simp
  | cons close rest =>
    have head : c.next.next.peek = some close := Cursor.peek_eq_some.mpr ⟨rest, third⟩
    have closes : bytes[c.next.next.pos - base]?.map asChar = some '\x27' ↔ some close = some '\x27' := by
      rw [further.map_asChar_iff (by decide), head]
    by_cases quote : close = '\x27'
    · have after : c.pos - base + 2 + ch.utf8Size = c.pos + 2 + ch.utf8Size - base := by omega
      rw [if_pos (closes.mpr (by rw [quote])), after]
      subst quote
      simp [Code.charLiteralEnd?, starts]
    · rw [if_neg fun same => quote (Option.some.inj (closes.mp same))]
      simp [Code.charLiteralEnd?, starts, slash, tick, quote]

/-- The bytes of a text have the end of a character literal where its characters have it. -/
theorem charLiteral_eq {c : Cursor} {rest : List Char} (aligned : Aligned bytes base c)
    (starts : c.rest = '\x27' :: rest) :
    charLiteral bytes (c.pos - base) = .ok ((Code.charLiteralEnd? c).map (·.pos - base)) := by
  have onward := aligned.of_le (Cursor.le_next c)
  have second : c.next.rest = rest := by simp [Cursor.next, starts]
  have offset : c.next.pos - base = c.pos - base + 1 := aligned.pos_next starts
  cases rest with
  | nil =>
    have none := onward.getElem?_end second
    rw [offset] at none
    simp [charLiteral, none, Code.charLiteralEnd?, starts]
  | cons ch rest =>
    obtain ⟨first, tail, leads⟩ := exists_leads ch
    have here := onward.getElem?_first second leads
    rw [offset] at here
    simp only [charLiteral, here, leads.eq_iff (by decide : '\\'.toNat < 0x80),
      leads.eq_iff (by decide : '\x27'.toNat < 0x80), leads.width]
    by_cases slash : ch = '\\'
    · subst slash
      rw [if_pos rfl]
      exact escapedLiteral_eq aligned starts
    · rw [if_neg slash]
      by_cases tick : ch = '\x27'
      · subst tick
        rw [if_pos rfl]
        simp [Code.charLiteralEnd?, starts]
      · rw [if_neg tick]
        exact plainLiteral_eq aligned starts slash tick

/-! ## Literals of both kinds -/

/-- The bytes of a text have the end of a literal where its characters have it. -/
theorem literalEnd_eq {c : Cursor} {ch : Char} {rest : List Char} {first : UInt8} {tail : List UInt8}
    (aligned : Aligned bytes base c) (starts : c.rest = ch :: rest) (leads : Leads ch first tail) :
    literalEnd bytes first (c.pos - base) = .ok ((Code.literalEnd? c).map (·.pos - base)) := by
  have total := aligned.length_eq
  simp only [literalEnd, leads.eq_iff (by decide : '"'.toNat < 0x80), leads.eq_iff (by decide : '\x27'.toNat < 0x80)]
  by_cases double : ch = '"'
  · subst double
    have inside : Aligned bytes base ⟨c.pos + 1, rest⟩ := aligned.of_le ⟨['"'], starts, rfl⟩
    have below := total.1
    have offset : c.pos - base + 1 = c.pos + 1 - base := by omega
    rw [if_pos rfl, offset, findQuote_eq (by decide) inside]
    cases found : Code.findQuote? '"' (c.pos + 1) rest with
    | none =>
      have finish : bytes.length = c.finish.pos - base := by
        simp only [Cursor.finish]
        omega
      simp [Code.literalEnd?, starts, found, finish]
    | some close =>
      obtain ⟨_, reads, after, head⟩ := Code.reads_findQuote? found
      have onward := (inside.of_le ⟨_, reads⟩).pos_next head
      simp [Code.literalEnd?, starts, found, onward, Char.utf8Size]
  · rw [if_neg double]
    by_cases single : ch = '\x27'
    · subst single
      rw [if_pos rfl, charLiteral_eq aligned starts]
      simp [Code.literalEnd?, starts]
    · have none : Code.literalEnd? c = none := by
        rw [Code.literalEnd?, starts]
        split <;> simp_all
      rw [if_neg single, none]
      rfl

theorem findQuote_le {quote : Char} {i j : Nat} (found : findQuote quote bytes i = .ok (some j)) : i ≤ j := by
  fun_induction findQuote quote bytes i with
  | case1 => simp at found
  | case2 i _ _ _ _ ih =>
    have := ih found
    omega
  | case3 i => simp_all
  | case4 i _ _ _ _ _ ih =>
    have := ih found
    omega
  | case5 => simp at found

theorem lt_findTick {stop i j : Nat} (found : findTick bytes stop i = .ok (some j)) : i < j := by
  fun_induction findTick bytes stop i with
  | case1 => simp at found
  | case2 i =>
    simp only [Except.ok.injEq, Option.some.injEq] at found
    omega
  | case3 i _ _ _ _ ih =>
    have := ih found
    omega
  | case4 => simp at found

theorem lt_charLiteral {i j : Nat} (found : charLiteral bytes i = .ok (some j)) : i < j := by
  unfold charLiteral at found
  split at found
  · simp at found
  · split at found
    · have := lt_findTick found
      omega
    · split at found
      · simp at found
      · split at found
        · simp only [Except.ok.injEq, Option.some.injEq] at found
          omega
        · simp at found

/-- A literal takes at least one byte. -/
theorem lt_literalEnd {byte : UInt8} {i j : Nat} (inside : i < bytes.length)
    (found : literalEnd bytes byte i = .ok (some j)) : i < j := by
  unfold literalEnd at found
  split at found
  · split at found
    · simp at found
    · next close search =>
      have := findQuote_le search
      simp only [Except.ok.injEq, Option.some.injEq] at found
      omega
    · simp only [Except.ok.injEq, Option.some.injEq] at found
      omega
  · split at found
    · exact lt_charLiteral found
    · simp at found

end SigilTemplate.Bytes
