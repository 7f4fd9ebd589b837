import SigilTemplate.Proofs.Alone.Code
import SigilTemplate.Proofs.Code.Commas

/-!
Code as a word of lexemes: string literals, character literals and single
characters. A string is a lexeme only where it is closed, so a word of lexemes
never ends inside a string; where one is not closed, no lexeme starts at all.
-/

namespace SigilTemplate.Code
open Text

/-! ## What strings hold -/

/-- What can stand between two quotes: no quote but behind a backslash, and no backslash that takes the closing quote
along. -/
inductive StringText (quote : Char) : List Char → Prop
  | nil : StringText quote []
  | escaped (ch : Char) {rest : List Char} (behind : StringText quote rest) : StringText quote ('\\' :: ch :: rest)
  | plain {ch : Char} {rest : List Char} (slash : ch ≠ '\\') (other : ch ≠ quote) (behind : StringText quote rest) :
      StringText quote (ch :: rest)

variable {s : Surroundings} {quote : Char} {pos : Nat} {text : List Char} {c d e : Cursor}

theorem stringText_of_findQuote? (found : findQuote? quote pos text = some d) :
    ∃ inside, Cursor.Reads ⟨pos, text⟩ inside d ∧ StringText quote inside ∧ d.peek = some quote := by
  fun_induction findQuote? quote pos text with
  | case1 => simp at found
  | case2 => simp at found
  | case3 pos escaped rest ih =>
    obtain ⟨inside, reads, body, head⟩ := ih found
    have slash : Char.utf8Size '\\' = 1 := by decide
    refine ⟨'\\' :: escaped :: inside, ⟨?_, ?_⟩, .escaped escaped body, head⟩
    · simpa using reads.rest_eq
    · rw [reads.pos_eq]
      simp only [byteLength_cons, slash]
      omega
  | case4 pos rest =>
    obtain rfl := Option.some.inj found
    exact ⟨[], .refl _, .nil, rfl⟩
  | case5 pos ch rest slash other ih =>
    obtain ⟨inside, reads, body, head⟩ := ih found
    exact ⟨ch :: inside, Cursor.Reads.trans (s := [ch]) ⟨rfl, by simp⟩ reads, .plain slash other body, head⟩

/-- Behind what a string can hold, the next quote is the one that closes it. -/
theorem StringText.findQuote?_eq {inside : List Char} (body : StringText quote inside) (plain : quote ≠ '\\')
    (reads : Cursor.Reads ⟨pos, text⟩ inside d) (head : d.peek = some quote) : findQuote? quote pos text = some d := by
  induction body generalizing pos text with
  | nil =>
    obtain rfl := Cursor.reads_nil reads
    obtain ⟨rest, rfl⟩ := Cursor.peek_eq_some.mp head
    exact findQuote?_here plain pos rest
  | escaped ch behind ih =>
    obtain rfl : text = _ := reads.rest_eq
    have slash : Char.utf8Size '\\' = 1 := by decide
    rw [List.cons_append, List.cons_append, findQuote?, if_pos rfl]
    refine ih ⟨rfl, ?_⟩
    rw [reads.pos_eq]
    simp only [byteLength_cons, slash]
    omega
  | @plain ch rest slash other behind ih =>
    obtain rfl : text = _ := reads.rest_eq
    rw [List.cons_append, findQuote?_next slash other]
    exact ih (reads.of_next)

/-! ## Lexemes -/

/-- What code is made of. Literals are opaque; a single character comes with its offset. -/
inductive Lexeme where
  | literal
  | char (ch : Char) (pos : Nat)
deriving DecidableEq

/-- A string literal stands between two places. -/
def ClosedString (c d : Cursor) : Prop := ∃ inside, c.Reads ('"' :: (inside ++ ['"'])) d ∧ StringText '"' inside

/-- A string starts here that is never closed. -/
def UnclosedString (c : Cursor) : Prop := c.peek = some '"' ∧ ∀ d, ¬ClosedString c d

/-- What is read from one place to another is a word of lexemes. A single character is one where no literal starts. -/
inductive Lexes : Cursor → List Lexeme → Cursor → Prop
  | nil (c : Cursor) : Lexes c [] c
  | string {c after d : Cursor} {word : List Lexeme} (closed : ClosedString c after) (onward : Lexes after word d) :
      Lexes c (.literal :: word) d
  | character {c after d : Cursor} {word : List Lexeme} (tick : c.peek = some '\x27')
      (ends : charLiteralEnd? c = some after) (onward : Lexes after word d) : Lexes c (.literal :: word) d
  | char {c d : Cursor} {ch : Char} {word : List Lexeme} (head : c.peek = some ch) (plain : literalEnd? c = none)
      (onward : Lexes c.next word d) : Lexes c (.char ch c.pos :: word) d

theorem literalEnd?_of_tick (tick : c.peek = some '\x27') : literalEnd? c = charLiteralEnd? c := by
  obtain ⟨rest, starts⟩ := Cursor.peek_eq_some.mp tick
  exact literalEnd?_tick starts

theorem ClosedString.literalEnd?_eq (closed : ClosedString c d) : literalEnd? c = some d := by
  obtain ⟨inside, reads, body⟩ := closed
  have starts : c.rest = '"' :: (inside ++ ['"'] ++ d.rest) := reads.rest_eq
  have one : Char.utf8Size '"' = 1 := by decide
  have inner : c.next = ⟨c.pos + 1, inside ++ ['"'] ++ d.rest⟩ := by simp only [Cursor.next, starts, one]
  obtain ⟨close, onto, last⟩ := (reads.of_next).split
  have head : close.peek = some '"' := Cursor.peek_eq_some.mpr ⟨d.rest, last.rest_eq⟩
  rw [inner] at onto
  rw [literalEnd?_quote starts, body.findQuote?_eq (by decide) onto head, Option.map_some, Option.getD_some]
  rw [Cursor.reads_nil (last.of_next)]

/-- A string that is never closed takes the rest of the text. -/
theorem UnclosedString.literalEnd?_eq (unclosed : UnclosedString c) : literalEnd? c = some c.finish := by
  obtain ⟨head, never⟩ := unclosed
  obtain ⟨rest, starts⟩ := Cursor.peek_eq_some.mp head
  rw [literalEnd?_quote starts]
  cases found : findQuote? '"' (c.pos + 1) rest with
  | none => rfl
  | some close =>
    obtain ⟨inside, reads, body, next⟩ := stringText_of_findQuote? found
    have one : Char.utf8Size '"' = 1 := by decide
    have first : c.Reads ['"'] ⟨c.pos + 1, rest⟩ := ⟨by simp [starts], by simp [one]⟩
    have whole := first.trans (reads.trans (Cursor.reads_next_of_peek next))
    exact absurd ⟨inside, whole, body⟩ (never close.next)

/-- A literal is a lexeme, unless it is a string that is never closed. -/
theorem lexes_of_literalEnd? (literal : literalEnd? c = some d) :
    Lexes c [.literal] d ∨ (UnclosedString c ∧ d.rest = []) := by
  obtain ⟨ch, rest, starts⟩ := List.exists_cons_of_ne_nil (Cursor.ne_nil_of_lt (lt_of_literalEnd? literal))
  have head : c.peek = some ch := Cursor.peek_eq_some.mpr ⟨rest, starts⟩
  by_cases quote : ch = '"'
  · subst quote
    by_cases closed : ∃ after, ClosedString c after
    · obtain ⟨after, closed⟩ := closed
      obtain rfl := Option.some.inj (closed.literalEnd?_eq.symm.trans literal)
      exact .inl (.string closed (.nil _))
    · have unclosed : UnclosedString c := ⟨head, not_exists.mp closed⟩
      obtain rfl := Option.some.inj (unclosed.literalEnd?_eq.symm.trans literal)
      exact .inr ⟨unclosed, rfl⟩
  · by_cases tick : ch = '\x27'
    · subst tick
      rw [literalEnd?_of_tick head] at literal
      exact .inl (.character head literal (.nil _))
    · have none := literalEnd?_other (c := c) (by simp [head, quote]) (by simp [head, tick])
      simp [none] at literal

theorem Lexes.append {first second : List Lexeme} (left : Lexes c first d) (right : Lexes d second e) :
    Lexes c (first ++ second) e := by
  induction left with
  | nil => exact right
  | string closed _ ih => exact .string closed (ih right)
  | character tick ends _ ih => exact .character tick ends (ih right)
  | char head plain _ ih => exact .char head plain (ih right)

/-- A word in two parts is read in two parts. -/
theorem Lexes.split {first second : List Lexeme} (lexes : Lexes c (first ++ second) e) :
    ∃ d, Lexes c first d ∧ Lexes d second e := by
  induction first generalizing c with
  | nil => exact ⟨c, .nil c, lexes⟩
  | cons lexeme first ih =>
    cases lexes with
    | string closed onward =>
      obtain ⟨d, left, right⟩ := ih onward
      exact ⟨d, .string closed left, right⟩
    | character tick ends onward =>
      obtain ⟨d, left, right⟩ := ih onward
      exact ⟨d, .character tick ends left, right⟩
    | char head plain onward =>
      obtain ⟨d, left, right⟩ := ih onward
      exact ⟨d, .char head plain left, right⟩

theorem Lexes.literal_cons {word : List Lexeme} (lexes : Lexes c (.literal :: word) e) :
    ∃ after, literalEnd? c = some after ∧ Lexes after word e := by
  cases lexes with
  | string closed onward => exact ⟨_, closed.literalEnd?_eq, onward⟩
  | character tick ends onward => exact ⟨_, (literalEnd?_of_tick tick).trans ends, onward⟩

theorem Lexes.char_cons {ch : Char} {word : List Lexeme} (lexes : Lexes c (.char ch pos :: word) e) :
    c.peek = some ch ∧ c.pos = pos ∧ literalEnd? c = none ∧ Lexes c.next word e := by
  cases lexes with
  | char head plain onward => exact ⟨head, rfl, plain, onward⟩

theorem Lexes.le {word : List Lexeme} (lexes : Lexes c word d) : c ≤ d := by
  induction lexes with
  | nil => exact le_refl _
  | string closed _ ih => exact (lt_of_literalEnd? closed.literalEnd?_eq).le.trans ih
  | character tick ends _ ih => exact (lt_of_literalEnd? ((literalEnd?_of_tick tick).trans ends)).le.trans ih
  | char _ _ _ ih => exact (Cursor.le_next _).trans ih

theorem ClosedString.of_amid (closed : ClosedString (c.amid s) (d.amid s)) : ClosedString c d := by
  obtain ⟨inside, reads, body⟩ := closed
  exact ⟨inside, Cursor.reads_amid_iff.mp reads, body⟩

/-! ## Code in which all strings are closed -/

/-- All of a text is a word of lexemes. -/
def Lexed (c : Cursor) : Prop := ∃ word, Lexes c word c.finish

/-- A word of lexemes in a stretch is one in the stretch alone. -/
theorem Lexes.exists_of_amid {word : List Lexeme} (lexes : Lexes (c.amid s) word (d.amid s)) :
    ∃ alone, Lexes c alone d := by
  generalize from_ : c.amid s = c' at lexes
  generalize to_ : d.amid s = d' at lexes
  induction lexes generalizing c with
  | nil =>
    obtain rfl := Cursor.amid_inj.mp (from_.trans to_.symm)
    exact ⟨[], .nil c⟩
  | string closed onward ih =>
    subst from_ to_
    obtain ⟨after, rfl, _, _⟩ := Cursor.exists_amid (lt_of_literalEnd? closed.literalEnd?_eq).le onward.le
    obtain ⟨alone, lexes⟩ := ih rfl rfl
    exact ⟨_, .string closed.of_amid lexes⟩
  | character tick ends onward ih =>
    subst from_ to_
    have lt := lt_of_literalEnd? ((literalEnd?_of_tick tick).trans ends)
    obtain ⟨after, rfl, _, _⟩ := Cursor.exists_amid lt.le onward.le
    have within : c < d := Cursor.amid_lt_amid.mp (lt.trans_le onward.le)
    obtain ⟨alone, lexes⟩ := ih rfl rfl
    exact ⟨_, .character (Cursor.peek_of_amid within tick) (charLiteralEnd?_of_amid ends) lexes⟩
  | char head plain onward ih =>
    subst from_ to_
    have within : c < d := Cursor.amid_lt_amid.mp ((Cursor.lt_next head).trans_le onward.le)
    obtain ⟨alone, lexes⟩ := ih (Cursor.next_amid (Cursor.ne_nil_of_lt within)).symm rfl
    exact ⟨_, .char (Cursor.peek_of_amid within head) (literalEnd?_amid_of_none plain) lexes⟩

/-- What stands between the ends of a word of lexemes can be read as one on its own. -/
theorem Lexes.lexed_upTo {word : List Lexeme} (lexes : Lexes c word d) : Lexed (c.upTo d) := by
  have whole : Lexes ((c.upTo d).amid ⟨0, d.rest⟩) word ((c.upTo d).finish.amid ⟨0, d.rest⟩) := by
    rwa [Cursor.amid_upTo lexes.le, Cursor.amid_finish_upTo lexes.le]
  exact whole.exists_of_amid

/-- A literal inside a word that goes on to the end is one of its lexemes. -/
theorem Lexes.at_literal {word : List Lexeme} (lexes : Lexes c word e) (ends : e.rest = [])
    (literal : literalEnd? c = some d) : Lexes c [.literal] d ∧ ∃ rest, Lexes d rest e := by
  cases lexes with
  | nil => simp [literalEnd?, ends] at literal
  | string closed onward =>
    obtain rfl := Option.some.inj (closed.literalEnd?_eq.symm.trans literal)
    exact ⟨.string closed (.nil _), _, onward⟩
  | character tick ends onward =>
    obtain rfl := Option.some.inj (((literalEnd?_of_tick tick).trans ends).symm.trans literal)
    exact ⟨.character tick ends (.nil _), _, onward⟩
  | char _ plain => simp [plain] at literal

/-- And so is a character outside literals. -/
theorem Lexes.at_char {word : List Lexeme} {ch : Char} (lexes : Lexes c word e) (ends : e.rest = [])
    (head : c.peek = some ch) (plain : literalEnd? c = none) :
    Lexes c [.char ch c.pos] c.next ∧ ∃ rest, Lexes c.next rest e := by
  refine ⟨.char head plain (.nil _), ?_⟩
  cases lexes with
  | nil => simp [Cursor.peek_eq_none.mpr ends] at head
  | string closed => simp [closed.literalEnd?_eq] at plain
  | character tick ends => simp [literalEnd?_of_tick tick, ends] at plain
  | char _ _ onward => exact ⟨_, onward⟩

/-- Behind characters that are no quotes, the rest is a word of lexemes. -/
theorem Lexes.drop {word : List Lexeme} {front : List Char} (lexes : Lexes c word e) (ends : e.rest = [])
    (reads : c.Reads front d) (plain : ∀ ch ∈ front, isQuote ch = false) : ∃ rest, Lexes d rest e := by
  induction front generalizing c word with
  | nil =>
    obtain rfl := Cursor.reads_nil reads
    exact ⟨word, lexes⟩
  | cons ch front ih =>
    have starts : c.rest = ch :: (front ++ d.rest) := reads.rest_eq
    have none := literalEnd?_eq_none starts (plain ch List.mem_cons_self)
    obtain ⟨_, rest, onward⟩ := lexes.at_char ends (Cursor.peek_eq_some.mpr ⟨_, starts⟩) none
    exact ih onward reads.of_next fun other among => plain other (List.mem_cons_of_mem _ among)

/-- The part that has begun has been read in lexemes, the rest can be, and so could the parts before it. -/
structure LexedSoFar (c start : Cursor) (done : List Cursor) (d : Cursor) : Prop where
  before : ∃ word, Lexes start word d
  after : ∃ word, Lexes d word c.finish
  parts : ∀ part ∈ done, Lexed part

/-- Each part of a text between separators can be read as a word of lexemes if the whole can. -/
theorem split_lexed {separator : Char} {part : Cursor} (lexed : Lexed c) (member : part ∈ split separator c) :
    Lexed part := by
  suffices all : ∀ part ∈ split separator c, Lexed part from all part member
  refine split_post (fun _ => LexedSoFar c) (fun parts => ∀ part ∈ parts, Lexed part) ?literal ?parting ?kept ?last
    ⟨⟨[], .nil c⟩, lexed, by simp⟩
  case literal =>
    rintro _ start done d e ⟨⟨before, front⟩, ⟨_, back⟩, parts⟩ literal
    obtain ⟨lexeme, onward⟩ := back.at_literal rfl literal
    exact ⟨⟨_, front.append lexeme⟩, onward, parts⟩
  case parting =>
    rintro start done d ⟨⟨before, front⟩, ⟨_, back⟩, parts⟩ plain head _ _
    obtain ⟨_, onward⟩ := back.at_char rfl head plain
    exact ⟨⟨[], .nil _⟩, onward, List.forall_mem_cons.mpr ⟨front.lexed_upTo, parts⟩⟩
  case kept =>
    rintro _ start done d ch ⟨⟨before, front⟩, ⟨_, back⟩, parts⟩ plain head _
    obtain ⟨lexeme, onward⟩ := back.at_char rfl head plain
    exact ⟨⟨_, front.append lexeme⟩, onward, parts⟩
  case last =>
    rintro _ start done d ⟨⟨before, front⟩, _, parts⟩ empty part member
    rcases List.mem_cons.mp (List.mem_reverse.mp member) with rfl | member
    · obtain ⟨text, reads⟩ := front.le
      have all : part.rest = text := by rw [reads.rest_eq, empty, List.append_nil]
      have ends : d = part.finish := Cursor.reads_unique (all ▸ reads) (Cursor.reads_finish part)
      exact ⟨before, ends ▸ front⟩
    · exact parts part member

end SigilTemplate.Code
