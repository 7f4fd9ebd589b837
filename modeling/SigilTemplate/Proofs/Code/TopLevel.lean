import SigilTemplate.Proofs.Code.Lexemes

/-!
The top level of code: the places outside literals where no bracket counts as
open. Code is read as lexemes in one way only, so the places that the lexemes
have between them are in order, and a search that keeps a single count of open
brackets finds the first of them where it is to stop. A string that is never
closed ends the lexemes, and with them the search.
-/

namespace SigilTemplate.Code
open Text

variable {c d e place : Cursor} {left right word : List Lexeme} {lexeme other : Lexeme} {ch : Char}

/-! ## Lexemes are read in one way -/

theorem Lexes.lt (lexes : Lexes c (lexeme :: word) d) : c < d := by
  cases lexes with
  | string closed onward => exact (lt_of_literalEnd? closed.literalEnd?_eq).trans_le onward.le
  | character tick ends onward => exact (lt_of_literalEnd? ((literalEnd?_of_tick tick).trans ends)).trans_le onward.le
  | char head _ onward => exact (Cursor.lt_next head).trans_le onward.le

theorem Lexes.eq_of_nil (lexes : Lexes c [] d) : c = d := by
  cases lexes
  rfl

theorem Lexes.cons_iff : Lexes c (lexeme :: word) e ↔ ∃ d, Lexes c [lexeme] d ∧ Lexes d word e := by
  have whole : lexeme :: word = [lexeme] ++ word := rfl
  rw [whole]
  exact ⟨Lexes.split, fun ⟨_, first, behind⟩ => first.append behind⟩

theorem Lexes.literalEnd?_eq : Lexes c [.literal] d → literalEnd? c = some d := by
  intro lexes
  obtain ⟨after, literal, onward⟩ := lexes.literal_cons
  rw [literal, onward.eq_of_nil]

/-- At one place there is one lexeme at most. -/
theorem Lexes.single_unique (first : Lexes c [lexeme] d) (second : Lexes c [other] e) : lexeme = other ∧ d = e := by
  cases lexeme with
  | literal =>
    have literal := first.literalEnd?_eq
    cases other with
    | literal => exact ⟨rfl, Option.some.inj (literal.symm.trans second.literalEnd?_eq)⟩
    | char ch pos =>
      obtain ⟨_, _, plain, _⟩ := second.char_cons
      simp [plain] at literal
  | char ch pos =>
    obtain ⟨head, here, plain, onward⟩ := first.char_cons
    cases other with
    | literal => simp [second.literalEnd?_eq] at plain
    | char ch' pos' =>
      obtain ⟨head', here', _, onward'⟩ := second.char_cons
      obtain rfl := Option.some.inj (head.symm.trans head')
      exact ⟨by rw [← here, ← here'], onward.eq_of_nil.symm.trans onward'.eq_of_nil⟩

/-- Of two readings from one place, one goes on where the other has ended. -/
theorem Lexes.linear (first : Lexes c left d) (second : Lexes c right e) :
    (∃ more, right = left ++ more ∧ Lexes d more e) ∨ ∃ more, left = right ++ more ∧ Lexes e more d := by
  induction left generalizing c right with
  | nil =>
    obtain rfl := first.eq_of_nil
    exact .inl ⟨right, rfl, second⟩
  | cons lexeme left ih =>
    cases right with
    | nil =>
      obtain rfl := second.eq_of_nil
      exact .inr ⟨_, rfl, first⟩
    | cons other right =>
      obtain ⟨_, one, onward⟩ := Lexes.cons_iff.mp first
      obtain ⟨_, two, onward'⟩ := Lexes.cons_iff.mp second
      obtain ⟨rfl, rfl⟩ := one.single_unique two
      rcases ih onward onward' with ⟨more, rfl, further⟩ | ⟨more, rfl, further⟩
      · exact .inl ⟨more, rfl, further⟩
      · exact .inr ⟨more, rfl, further⟩

theorem Lexes.word_unique (first : Lexes c left d) (second : Lexes c right d) : left = right := by
  have nothing {more : List Lexeme} (back : Lexes d more d) : more = [] := by
    cases more with
    | nil => rfl
    | cons => exact absurd back.lt (lt_irrefl d)
  rcases first.linear second with ⟨more, rfl, back⟩ | ⟨more, rfl, back⟩ <;> rw [nothing back, List.append_nil]

/-- Between the two ends of a literal no lexeme starts. -/
theorem Lexes.outside (lexes : Lexes c word d) (literal : literalEnd? d = some e) (within : Lexes c right place) :
    place ≤ d ∨ e ≤ place := by
  rcases lexes.linear within with ⟨more, _, onward⟩ | ⟨_, _, back⟩
  · cases more with
    | nil => exact .inl onward.eq_of_nil.ge
    | cons lexeme more =>
      obtain ⟨after, first, behind⟩ := Lexes.cons_iff.mp onward
      rcases lexes_of_literalEnd? literal with whole | ⟨unclosed, _⟩
      · obtain ⟨_, rfl⟩ := first.single_unique whole
        exact .inr behind.le
      · cases first with
        | string closed => exact absurd closed (unclosed.2 _)
        | character tick => simp [unclosed.1] at tick
        | char _ plain => simp [literal] at plain
  · exact .inl back.le

/-! ## The end of the lexemes -/

/-- Where the lexemes end: at the end of the text, or in front of a string that is never closed. -/
def LastPlace (c : Cursor) : Prop := c.rest = [] ∨ UnclosedString c

/-- All code has lexemes, up to such a place. -/
theorem exists_lexes (c : Cursor) : ∃ word last, Lexes c word last ∧ LastPlace last := by
  induction size : c.rest.length using Nat.strongRecOn generalizing c with
  | ind size ih =>
    have onward {lexeme : Lexeme} {d : Cursor} (first : Lexes c [lexeme] d) :
        ∃ word last, Lexes c word last ∧ LastPlace last := by
      obtain ⟨word, last, lexes, ends⟩ := ih _ (size ▸ Cursor.length_lt first.lt) d rfl
      exact ⟨_, last, first.append lexes, ends⟩
    cases literal : literalEnd? c with
    | some after =>
      rcases lexes_of_literalEnd? literal with first | ⟨unclosed, _⟩
      · exact onward first
      · exact ⟨[], c, .nil c, .inr unclosed⟩
    | none =>
      cases head : c.peek with
      | none => exact ⟨[], c, .nil c, .inl (Cursor.peek_eq_none.mp head)⟩
      | some ch => exact onward (.char head literal (.nil _))

/-! ## Open brackets -/

/-- The brackets that count as open behind a word, if `count` says what a single character does. Literals do nothing. -/
def openBehind (count : Nat → Char → Nat) : Nat → List Lexeme → Nat
  | depth, [] => depth
  | depth, .literal :: word => openBehind count depth word
  | depth, .char ch _ :: word => openBehind count (count depth ch) word

/-- The running depth over all kinds of brackets, which does not fall below zero. -/
def nestBehind (depth : Nat) (ch : Char) : Nat :=
  if isOpener ch then depth + 1 else if isCloser ch then depth - 1 else depth

variable {count : Nat → Char → Nat} {depth : Nat}

theorem openBehind_append (depth : Nat) (left right : List Lexeme) :
    openBehind count depth (left ++ right) = openBehind count (openBehind count depth left) right := by
  induction left generalizing depth with
  | nil => rfl
  | cons lexeme left ih => cases lexeme <;> exact ih _

/-- A place outside literals where no bracket counts as open. -/
def TopLevel (count : Nat → Char → Nat) (c place : Cursor) : Prop :=
  ∃ word, Lexes c word place ∧ openBehind count 0 word = 0

/-- How far code has been read, with so many brackets open: over lexemes, or over everything because of a string that is
never closed. -/
inductive Reached (count : Nat → Char → Nat) (c : Cursor) : Nat → Cursor → Prop
  | within {word : List Lexeme} {d : Cursor} (lexes : Lexes c word d) : Reached count c (openBehind count 0 word) d
  | beyond {word : List Lexeme} {d : Cursor} (depth : Nat) (lexes : Lexes c word d) (unclosed : UnclosedString d) :
      Reached count c depth d.finish

theorem Reached.start (count : Nat → Char → Nat) (c : Cursor) : Reached count c 0 c := .within (.nil c)

theorem Reached.le (reached : Reached count c depth d) : c ≤ d := by
  cases reached with
  | within lexes => exact lexes.le
  | beyond _ lexes => exact lexes.le.trans (Cursor.le_finish _)

/-- Over a literal, no bracket is counted, and no place of the top level is passed. -/
theorem Reached.literal (reached : Reached count c depth d) (literal : literalEnd? d = some e) :
    Reached count c depth e ∧ ∀ other, TopLevel count c other → other < e → other ≤ d := by
  cases reached with
  | @within word d lexes =>
    constructor
    · rcases lexes_of_literalEnd? literal with whole | ⟨unclosed, _⟩
      · have same : openBehind count 0 (word ++ [.literal]) = openBehind count 0 word := by
          rw [openBehind_append]
          rfl
        exact same ▸ .within (lexes.append whole)
      · obtain rfl := Option.some.inj (unclosed.literalEnd?_eq.symm.trans literal)
        exact .beyond _ lexes unclosed
    · rintro other ⟨_, inside, _⟩ lt
      exact (lexes.outside literal inside).resolve_right lt.not_ge
  | beyond => simp [literalEnd?, Cursor.finish] at literal

/-- Over a single character, brackets are counted as `count` says. -/
theorem Reached.char (reached : Reached count c depth d) (plain : literalEnd? d = none) (head : d.peek = some ch) :
    Reached count c (count depth ch) d.next ∧ ∀ other, TopLevel count c other → other < d.next → other ≤ d := by
  cases reached with
  | @within word d lexes =>
    constructor
    · have same : openBehind count 0 (word ++ [.char ch d.pos]) = count (openBehind count 0 word) ch := by
        rw [openBehind_append]
        rfl
      exact same ▸ .within (lexes.append (.char head plain (.nil _)))
    · rintro other ⟨_, inside, _⟩ lt
      rcases lexes.linear inside with ⟨more, _, onward⟩ | ⟨_, _, back⟩
      · cases more with
        | nil => exact onward.eq_of_nil.ge
        | cons => exact absurd lt (Cursor.next_le_of_lt onward.lt).not_gt
      · exact back.le
  | beyond => simp [Cursor.peek, Cursor.finish] at head

/-- Where more is to be read, the place belongs to the top level just if no bracket counts as open. -/
theorem Reached.topLevel_iff (reached : Reached count c depth d) (more : d.rest ≠ []) :
    TopLevel count c d ↔ depth = 0 := by
  cases reached with
  | within lexes =>
    constructor
    · rintro ⟨word, same, closed⟩
      rwa [lexes.word_unique same]
    · exact fun closed => ⟨_, lexes, closed⟩
  | beyond => simp [Cursor.finish] at more

/-- Where everything has been read, each place of the top level lies before, unless it is the end too. -/
theorem Reached.lt_of_empty (reached : Reached count c depth d) (empty : d.rest = []) (top : TopLevel count c place)
    (more : place.rest ≠ []) : place < d := by
  -- Both places are read from the start of the code, the one over all of its characters, the other over some.
  obtain ⟨_, inside, _⟩ := top
  obtain ⟨front, first⟩ := inside.le
  obtain ⟨text, reads⟩ := reached.le
  have all : text = front ++ place.rest := by rw [← first.rest_eq, reads.rest_eq, empty, List.append_nil]
  rw [all] at reads
  exact Cursor.lt_of_reads (reads.cancel_left first) more

/-! ## Searching the top level -/

/-- The first place of the top level at which something stops. -/
structure FirstStop (count : Nat → Char → Nat) (stops : Cursor → Bool) (c place : Cursor) : Prop where
  topLevel : TopLevel count c place
  here : stops place = true
  notBefore : ∀ other, TopLevel count c other → other < place → stops other = false

/-- At no place of the top level anything stops; the lexemes end before. -/
def NeverStops (count : Nat → Char → Nat) (stops : Cursor → Bool) (c : Cursor) : Prop :=
  ∃ word last, Lexes c word last ∧ LastPlace last ∧ ∀ other, TopLevel count c other → stops other = false

variable {stops : Cursor → Bool}

theorem FirstStop.unique (first : FirstStop count stops c d) (second : FirstStop count stops c e) : d = e := by
  have notLater {d e : Cursor} (first : FirstStop count stops c d) (second : FirstStop count stops c e) : ¬d < e := by
    intro lt
    exact absurd first.here (by simp [second.notBefore d first.topLevel lt])
  obtain ⟨_, left, _⟩ := first.topLevel
  obtain ⟨_, right, _⟩ := second.topLevel
  rcases left.linear right with ⟨_, _, onward⟩ | ⟨_, _, back⟩
  · exact (eq_or_lt_of_le onward.le).resolve_right (notLater first second)
  · exact ((eq_or_lt_of_le back.le).resolve_right (notLater second first)).symm

theorem seekStep_eq (stops : Cursor → Bool) (depth : Nat) (ch : Char) (place : Cursor) :
    seekStep stops depth ch place =
      if depth = 0 ∧ stops place = true then .inl (some place) else .inr (nestBehind depth ch) := by
  unfold seekStep nestBehind
  by_cases here : depth = 0 ∧ stops place = true
  · simp [here]
  · rw [if_neg here, if_neg (by simpa using here)]
    split_ifs <;> rfl

/-- A search stops at single characters that are no quotes. -/
def Marked (stops : Cursor → Bool) : Prop :=
  ∀ place, stops place = true → ∃ ch, place.peek = some ch ∧ isQuote ch = false

theorem Marked.literalEnd?_eq (marked : Marked stops) (here : stops place = true) : literalEnd? place = none := by
  obtain ⟨ch, head, plain⟩ := marked place here
  obtain ⟨rest, starts⟩ := Cursor.peek_eq_some.mp head
  exact literalEnd?_eq_none starts plain

/-- How a search of the top level ends. -/
inductive Seeks (stops : Cursor → Bool) (c : Cursor) : Option Cursor → Prop
  | first {place : Cursor} (stop : FirstStop nestBehind stops c place) : Seeks stops c (some place)
  | never (nowhere : NeverStops nestBehind stops c) : Seeks stops c none

/-- A search has come to a place, and stopped at none before it. -/
structure SoughtSoFar (stops : Cursor → Bool) (c : Cursor) (depth : Nat) (d : Cursor) : Prop where
  reached : Reached nestBehind c depth d
  before : ∀ other, TopLevel nestBehind c other → other < d → stops other = false

theorem SoughtSoFar.literal {depth : Nat} (so : SoughtSoFar stops c depth d) (marked : Marked stops)
    (literal : literalEnd? d = some e) : SoughtSoFar stops c depth e := by
  obtain ⟨onward, passed⟩ := so.reached.literal literal
  refine ⟨onward, fun other top lt => ?_⟩
  rcases (passed other top lt).eq_or_lt with rfl | earlier
  · rw [Bool.eq_false_iff]
    intro here
    simp [marked.literalEnd?_eq here] at literal
  · exact so.before other top earlier

theorem SoughtSoFar.char {depth : Nat} {ch : Char} (so : SoughtSoFar stops c depth d) (plain : literalEnd? d = none)
    (head : d.peek = some ch) (on : ¬(depth = 0 ∧ stops d = true)) :
    SoughtSoFar stops c (nestBehind depth ch) d.next := by
  obtain ⟨rest, starts⟩ := Cursor.peek_eq_some.mp head
  obtain ⟨onward, passed⟩ := so.reached.char plain head
  refine ⟨onward, fun other top lt => ?_⟩
  rcases (passed other top lt).eq_or_lt with rfl | earlier
  · simpa [(so.reached.topLevel_iff (by simp [starts])).mp top] using on
  · exact so.before other top earlier

/-- What is sought at the top level is the first place that there is. -/
theorem seek_ends (marked : Marked stops) (c : Cursor) : Seeks stops c (seek stops c) := by
  rw [seek_eq, seekFrom]
  refine scan_post (SoughtSoFar stops c) (Seeks stops c) ?literal ?step ?last 0 c ⟨.start _ c, ?first⟩
  case first =>
    rintro other ⟨_, lexes, _⟩ lt
    exact absurd lexes.le lt.not_ge
  case literal => exact fun depth d e so literal => so.literal marked literal
  case step =>
    intro depth d ch rest so plain starts
    rw [seekStep_eq]
    constructor
    · intro answer answers
      split at answers
      · next here =>
        obtain rfl := Sum.inl.inj answers
        exact .first ⟨(so.reached.topLevel_iff (by simp [starts])).mpr here.1, here.2, so.before⟩
      · simp at answers
    · intro next goesOn
      split at goesOn
      · simp at goesOn
      · next on =>
        obtain rfl := Sum.inr.inj goesOn
        exact so.char plain (Cursor.peek_eq_some.mpr ⟨rest, starts⟩) on
  case last =>
    intro depth d so empty
    obtain ⟨word, last, lexes, ends⟩ := exists_lexes c
    refine .never ⟨word, last, lexes, ends, fun other top => ?_⟩
    rw [Bool.eq_false_iff]
    intro here
    obtain ⟨ch, head, _⟩ := marked other here
    have lt := so.reached.lt_of_empty empty top (Cursor.ne_nil_of_lt (Cursor.lt_next head))
    simp [so.before other top lt] at here

theorem Seeks.first_of_some (seeks : Seeks stops c (some place)) : FirstStop nestBehind stops c place := by
  cases seeks with
  | first stop => exact stop

theorem Seeks.never_of_none (seeks : Seeks stops c none) : NeverStops nestBehind stops c := by
  cases seeks with
  | never nowhere => exact nowhere

theorem NeverStops.not_first (never : NeverStops nestBehind stops c) : ¬FirstStop nestBehind stops c place := by
  obtain ⟨_, _, _, _, never⟩ := never
  intro first
  exact absurd first.here (by simp [never place first.topLevel])

theorem seek_eq_some_iff (marked : Marked stops) : seek stops c = some place ↔ FirstStop nestBehind stops c place := by
  have ends := seek_ends marked c
  constructor
  · intro found
    rw [found] at ends
    exact ends.first_of_some
  · intro first
    cases found : seek stops c with
    | some other =>
      rw [found] at ends
      rw [ends.first_of_some.unique first]
    | none =>
      rw [found] at ends
      exact absurd first ends.never_of_none.not_first

theorem seek_eq_none_iff (marked : Marked stops) : seek stops c = none ↔ NeverStops nestBehind stops c := by
  have ends := seek_ends marked c
  constructor
  · intro missing
    rw [missing] at ends
    exact ends.never_of_none
  · intro never
    cases found : seek stops c with
    | none => rfl
    | some place =>
      rw [found] at ends
      exact absurd ends.first_of_some never.not_first

end SigilTemplate.Code
