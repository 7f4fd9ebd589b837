import SigilTemplate.Text.Cursor

/-!
Literals inside embedded code. A string literal runs from one `"` to the next,
and a backslash takes the character after it along. A character literal is one
character between single quotes, or a backslash escape; any other single quote
stands for itself, as in a lifetime.
-/

namespace SigilTemplate.Code

open Text

/-- The place of the first `quote` that no backslash precedes. A backslash takes the next character along. -/
def findQuote? (quote : Char) (pos : Nat) : List Char → Option Cursor
  | [] => none
  | ch :: rest =>
    if ch = '\\' then
      match rest with
      | [] => none
      | escaped :: rest => findQuote? quote (pos + 1 + escaped.utf8Size) rest
    else if ch = quote then
      some ⟨pos, ch :: rest⟩
    else
      findQuote? quote (pos + ch.utf8Size) rest

/-- What stands before the closing quote is read, and the quote itself is next. -/
theorem reads_findQuote? {quote : Char} {pos : Nat} {text : List Char} {d : Cursor}
    (found : findQuote? quote pos text = some d) :
    ∃ inside, Cursor.Reads ⟨pos, text⟩ inside d ∧ ∃ rest, d.rest = quote :: rest := by
  fun_induction findQuote? quote pos text with
  | case1 => simp at found
  | case2 => simp at found
  | case3 pos escaped rest ih =>
    obtain ⟨inside, reads, head⟩ := ih found
    refine ⟨'\\' :: escaped :: inside, ⟨?_, ?_⟩, head⟩
    · simpa using reads.rest_eq
    · have one : Char.utf8Size '\\' = 1 := by decide
      rw [reads.pos_eq]
      simp only [byteLength_cons, one]
      omega
  | case4 pos rest =>
    obtain rfl := Option.some.inj found
    exact ⟨[], Cursor.Reads.refl _, rest, rfl⟩
  | case5 pos ch rest backslash other ih =>
    obtain ⟨inside, reads, head⟩ := ih found
    exact ⟨ch :: inside, Cursor.Reads.trans (s := [ch]) ⟨rfl, by simp⟩ reads, head⟩

/-- The place after the first single quote that starts before byte `limit`. -/
def findEscapeEnd? (limit pos : Nat) : List Char → Option Cursor
  | [] => none
  | ch :: rest =>
    if pos < limit then
      if ch = '\x27' then some ⟨pos + 1, rest⟩ else findEscapeEnd? limit (pos + ch.utf8Size) rest
    else
      none

/-- An escape in a character literal closes within twelve bytes of its opening quote; the longest
is that of a code point in six digits. -/
def escapeWindow : Nat := 12

/-- The place after the character literal that starts here; none if the quote stands for itself. -/
def charLiteralEnd? (c : Cursor) : Option Cursor :=
  match c.rest with
  | _ :: '\\' :: escaped :: rest =>
    findEscapeEnd? (c.pos + escapeWindow) (c.pos + 2 + escaped.utf8Size) rest
  | _ :: '\\' :: [] => none
  | _ :: '\x27' :: _ => none
  | _ :: ch :: '\x27' :: rest => some ⟨c.pos + 2 + ch.utf8Size, rest⟩
  | _ => none

/-- The place after the literal that starts here, if one does. A string that is never closed takes
the rest of the text. -/
def literalEnd? (c : Cursor) : Option Cursor :=
  match c.rest with
  | '"' :: rest =>
    match findQuote? '"' (c.pos + 1) rest with
    | some close => some close.next
    | none => some c.finish
  | '\x27' :: _ => charLiteralEnd? c
  | _ => none

theorem reads_findEscapeEnd? {limit pos : Nat} {text : List Char} {d : Cursor}
    (found : findEscapeEnd? limit pos text = some d) :
    ∃ inside, inside ≠ [] ∧ Cursor.Reads ⟨pos, text⟩ inside d := by
  fun_induction findEscapeEnd? limit pos text with
  | case1 => simp at found
  | case2 pos rest =>
    obtain rfl := Option.some.inj found
    exact ⟨['\x27'], by simp, rfl, by simp; decide⟩
  | case3 pos ch rest _ _ ih =>
    obtain ⟨inside, _, reads⟩ := ih found
    exact ⟨ch :: inside, by simp, Cursor.Reads.trans (s := [ch]) ⟨rfl, by simp⟩ reads⟩
  | case4 => simp at found

theorem reads_charLiteralEnd? {c d : Cursor} (ascii : ∀ q ∈ c.rest.head?, q.utf8Size = 1)
    (found : charLiteralEnd? c = some d) : ∃ text, text ≠ [] ∧ c.Reads text d := by
  have slash : Char.utf8Size '\\' = 1 := by decide
  have tick : Char.utf8Size '\x27' = 1 := by decide
  unfold charLiteralEnd? at found
  split at found
  · rename_i q escaped rest starts
    obtain ⟨inside, _, reads⟩ := reads_findEscapeEnd? found
    have one : q.utf8Size = 1 := ascii q (by simp [starts])
    refine ⟨q :: '\\' :: escaped :: inside, by simp, ?_, ?_⟩
    · simpa [starts] using reads.rest_eq
    · rw [reads.pos_eq]; simp only [byteLength_cons, one, slash]; omega
  · simp at found
  · simp at found
  · rename_i q ch rest _ _ starts
    obtain rfl := Option.some.inj found
    have one : q.utf8Size = 1 := ascii q (by simp [starts])
    refine ⟨[q, ch, '\x27'], by simp, by rw [starts]; rfl, ?_⟩
    simp only [byteLength_cons, byteLength_nil, one, tick]; omega
  · simp at found

/-- A literal takes at least one character. -/
theorem reads_literalEnd? {c d : Cursor} (found : literalEnd? c = some d) :
    ∃ text, text ≠ [] ∧ c.Reads text d := by
  have quote : Char.utf8Size '"' = 1 := by decide
  have tick : Char.utf8Size '\x27' = 1 := by decide
  unfold literalEnd? at found
  split at found
  · rename_i rest starts
    split at found
    · rename_i close closes
      obtain rfl := Option.some.inj found
      obtain ⟨inside, reads, after, head⟩ := reads_findQuote? closes
      have first : c.Reads ['"'] ⟨c.pos + 1, rest⟩ := ⟨by simp [starts], by simp [quote]⟩
      exact ⟨['"'] ++ inside ++ ['"'], by simp, (first.trans reads).trans (Cursor.reads_next head)⟩
    · obtain rfl := Option.some.inj found
      exact ⟨c.rest, by simp [starts], Cursor.reads_finish c⟩
  · rename_i starts
    exact reads_charLiteralEnd? (by simp [starts, tick]) found
  · simp at found

end SigilTemplate.Code
