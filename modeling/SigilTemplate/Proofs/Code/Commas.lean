import Mathlib.Data.List.Basic
import SigilTemplate.Proofs.Code.Extent

/-!
Commas in code without literals. Whether a comma separates depends on a count
that goes up and down with single characters: angle brackets count like any
other kind, the one in an arrow too, and the count never falls below zero. So
the parts can be told from the characters alone.
-/

namespace SigilTemplate.Code
open Text

/-! ## What is counted as open -/

/-- The brackets counted as open behind a character. -/
def countBehind (depth : Nat) (ch : Char) : Nat :=
  if isOpener ch || ch == '<' then depth + 1
  else if isCloser ch || ch == '>' then depth - 1
  else depth

/-- The brackets counted as open behind a text. -/
def countOver (depth : Nat) (text : List Char) : Nat := text.foldl countBehind depth

@[simp]
theorem countOver_nil (depth : Nat) : countOver depth [] = depth := rfl

@[simp]
theorem countOver_cons (depth : Nat) (ch : Char) (rest : List Char) :
    countOver depth (ch :: rest) = countOver (countBehind depth ch) rest := rfl

@[simp]
theorem countOver_append (depth : Nat) (first second : List Char) :
    countOver depth (first ++ second) = countOver (countOver depth first) second := List.foldl_append

/-- A character that is no bracket is not counted. -/
def isUncounted (ch : Char) : Bool := !(isOpener ch || ch == '<' || isCloser ch || ch == '>')

theorem countBehind_of_isUncounted {ch : Char} (plain : isUncounted ch = true) (depth : Nat) :
    countBehind depth ch = depth := by
  simp only [isUncounted, Bool.not_eq_true', Bool.or_eq_false_iff] at plain
  obtain ⟨⟨⟨opener, less⟩, closer⟩, greater⟩ := plain
  simp [countBehind, opener, less, closer, greater]

theorem countOver_of_isUncounted {text : List Char} (plain : text.all isUncounted = true) (depth : Nat) :
    countOver depth text = depth := by
  induction text with
  | nil => rfl
  | cons ch rest ih =>
    rw [List.all_cons, Bool.and_eq_true] at plain
    rw [countOver_cons, countBehind_of_isUncounted plain.1, ih plain.2]

/-- No comma of the text comes where no bracket is counted as open. -/
def KeepsCommas (depth : Nat) (text : List Char) : Prop :=
  ∀ before after, text = before ++ ',' :: after → countOver depth before ≠ 0

theorem KeepsCommas.of_not_mem {text : List Char} (none : ',' ∉ text) (depth : Nat) : KeepsCommas depth text := by
  rintro before after rfl
  simp at none

theorem KeepsCommas.append {depth : Nat} {first second : List Char} (left : KeepsCommas depth first)
    (right : KeepsCommas (countOver depth first) second) : KeepsCommas depth (first ++ second) := by
  intro before after split
  rcases List.append_eq_append_iff.mp split with ⟨more, rfl, same⟩ | ⟨more, rfl, same⟩
  · rw [countOver_append]
    exact right more after same
  · cases more with
    | nil =>
      rw [List.append_nil] at right
      exact right [] after same.symm
    | cons ch more =>
      obtain ⟨rfl, rfl⟩ := List.cons.inj same
      exact left before more rfl

theorem KeepsCommas.cons {depth : Nat} {ch : Char} {rest : List Char} (other : ch ≠ ',')
    (behind : KeepsCommas (countBehind depth ch) rest) : KeepsCommas depth (ch :: rest) :=
  (KeepsCommas.of_not_mem (by simpa using other.symm) depth : KeepsCommas depth [ch]).append behind

theorem KeepsCommas.of_append {depth : Nat} {first second : List Char} (keeps : KeepsCommas depth (first ++ second)) :
    KeepsCommas (countOver depth first) second := by
  rintro before after rfl
  rw [← countOver_append]
  exact keeps (first ++ before) after (by simp)

/-! ## The parts between commas -/

/-- The parts of a text between the commas that come where no bracket is counted as open. -/
def commaParts : Nat → List Char → List (List Char)
  | _, [] => [[]]
  | depth, ch :: rest =>
    if depth = 0 ∧ ch = ',' then [] :: commaParts 0 rest
    else (commaParts (countBehind depth ch) rest).modifyHead (ch :: ·)

theorem commaParts_ne_nil (depth : Nat) (text : List Char) : commaParts depth text ≠ [] := by
  induction text generalizing depth with
  | nil => simp [commaParts]
  | cons ch rest ih =>
    rw [commaParts]
    split
    · simp
    · cases parts : commaParts (countBehind depth ch) rest with
      | nil => exact absurd parts (ih _)
      | cons => simp

theorem commaParts_of_keepsCommas {depth : Nat} {text : List Char} (keeps : KeepsCommas depth text) :
    commaParts depth text = [text] := by
  induction text generalizing depth with
  | nil => rfl
  | cons ch rest ih =>
    have inside : ¬(depth = 0 ∧ ch = ',') := by
      rintro ⟨rfl, rfl⟩
      exact keeps [] rest rfl rfl
    have whole : KeepsCommas depth ([ch] ++ rest) := keeps
    have further : KeepsCommas (countBehind depth ch) rest := whole.of_append
    rw [commaParts, if_neg inside, ih further]
    rfl

/-- A comma where nothing is open has parts on its two sides. -/
theorem commaParts_append {depth : Nat} {first : List Char} (second : List Char) (closed : countOver depth first = 0) :
    commaParts depth (first ++ ',' :: second) = commaParts depth first ++ commaParts 0 second := by
  induction first generalizing depth with
  | nil =>
    obtain rfl : depth = 0 := closed
    simp [commaParts]
  | cons ch rest ih =>
    rw [List.cons_append, commaParts]
    by_cases comma : depth = 0 ∧ ch = ','
    · obtain ⟨rfl, rfl⟩ := comma
      have same : countOver 0 rest = 0 := closed
      simp [commaParts, ih same]
    · rw [if_neg comma, ih closed, commaParts, if_neg comma]
      cases parts : commaParts (countBehind depth ch) rest with
      | nil => exact absurd parts (commaParts_ne_nil _ _)
      | cons => rfl

/-- Texts after which nothing is open, joined by commas, have their own parts. Each but the first has the space
before it. -/
theorem commaParts_intercalate {first : List Char} {others : List (List Char)} (closed : countOver 0 first = 0)
    (all : ∀ other ∈ others, countOver 0 other = 0) :
    commaParts 0 ([',', ' '].intercalate (first :: others)) =
      commaParts 0 first ++ others.flatMap fun other => commaParts 0 (' ' :: other) := by
  induction others generalizing first with
  | nil => simp
  | cons second others ih =>
    have spaced : countOver 0 (' ' :: second) = 0 := by
      rw [countOver_cons, countBehind_of_isUncounted (by decide)]
      exact all second List.mem_cons_self
    have behind : [',', ' '].intercalate (first :: second :: others) =
        first ++ ',' :: [',', ' '].intercalate ((' ' :: second) :: others) := by
      cases others <;> simp [List.intercalate_cons_cons]
    rw [behind, commaParts_append _ closed, ih spaced fun other among => all other (List.mem_cons_of_mem _ among),
      List.flatMap_cons]

/-- The first part reaches up to a comma or to the end. -/
theorem exists_commaParts_eq_cons (depth : Nat) (text : List Char) :
    ∃ part more, commaParts depth text = part :: more ∧ (text = part ∨ ∃ tail, text = part ++ ',' :: tail) := by
  induction text generalizing depth with
  | nil => exact ⟨[], [], rfl, .inl rfl⟩
  | cons ch rest ih =>
    rw [commaParts]
    split
    · next comma => exact ⟨[], _, rfl, .inr ⟨rest, by rw [comma.2]; rfl⟩⟩
    · obtain ⟨part, more, same, reach⟩ := ih (countBehind depth ch)
      refine ⟨ch :: part, more, by rw [same]; rfl, ?_⟩
      rcases reach with rfl | ⟨tail, rfl⟩
      · exact .inl rfl
      · exact .inr ⟨tail, rfl⟩

/-! ## Splitting -/

/-- A quote, which may start a literal. -/
def isQuote (ch : Char) : Bool := ch == '"' || ch == '\x27'

/-- A class of characters without the two quotes has none. -/
theorem not_isQuote_of {p : Char → Bool} (double : p '"' = false) (single : p '\x27' = false) {ch : Char}
    (holds : p ch = true) : isQuote ch = false := by
  rw [isQuote, Bool.or_eq_false_iff, beq_eq_false_iff_ne, beq_eq_false_iff_ne]
  constructor <;> rintro rfl
  · exact absurd holds (by simp [double])
  · exact absurd holds (by simp [single])

/-- A closing delimiter neither opens anything nor starts a literal. -/
theorem closes_closerOf {opener : Char} (opens : isOpener opener = true) :
    isOpener (closerOf opener) = false ∧ isCloser (closerOf opener) = true ∧ isQuote (closerOf opener) = false := by
  simp only [isOpener, Bool.or_eq_true, beq_iff_eq] at opens
  rcases opens with (rfl | rfl) | rfl <;> decide

theorem literalEnd?_eq_none {c : Cursor} {ch : Char} {rest : List Char} (starts : c.rest = ch :: rest)
    (plain : isQuote ch = false) : literalEnd? c = none := by
  simp only [isQuote, Bool.or_eq_false_iff, beq_eq_false_iff_ne] at plain
  unfold literalEnd?
  split
  · next here =>
    obtain ⟨rfl, _⟩ := List.cons.inj (starts.symm.trans here)
    exact absurd rfl plain.1
  · next here =>
    obtain ⟨rfl, _⟩ := List.cons.inj (starts.symm.trans here)
    exact absurd rfl plain.2
  · rfl

/-- What splitting does with one character. Neither a bracket nor a single quote separates. -/
def splitStep (separator : Char) (state : Nat × Cursor × List Cursor) (ch : Char) (place : Cursor) :
    List Cursor ⊕ (Nat × Cursor × List Cursor) :=
  if state.1 = 0 ∧ ch = separator ∧ isUncounted ch = true ∧ ch ≠ '\x27' then
    .inr (0, place.next, state.2.1.upTo place :: state.2.2)
  else .inr (countBehind state.1 ch, state.2.1, state.2.2)

theorem split_eq (separator : Char) (c : Cursor) :
    split separator c = scan (splitStep separator) (fun state _ => (state.2.1 :: state.2.2).reverse) (0, c, []) c := by
  unfold split
  congr 1
  funext ⟨depth, start, parts⟩ ch place
  by_cases uncounted : isUncounted ch = true
  · have count := countBehind_of_isUncounted uncounted depth
    simp only [isUncounted, Bool.not_eq_true', Bool.or_eq_false_iff] at uncounted
    obtain ⟨⟨⟨opener, less⟩, closer⟩, greater⟩ := uncounted
    simp [splitStep, isUncounted, opener, less, closer, greater, count, and_assoc]
  · have kept : ¬(depth = 0 ∧ ch = separator ∧ isUncounted ch = true ∧ ch ≠ '\x27') := fun parting => uncounted parting.2.2.1
    simp only [splitStep, if_neg kept, countBehind]
    split
    · rfl
    · split <;> simp_all [isUncounted]

/-- What holds of the depth, the start of a part, the parts before it and the place that has been reached is kept if it
holds over every literal, over every character that separates, and over every other character. -/
theorem split_post {separator : Char} {c : Cursor} (inv : Nat → Cursor → List Cursor → Cursor → Prop)
    (post : List Cursor → Prop)
    (overLiteral : ∀ depth start done d e, inv depth start done d → literalEnd? d = some e → inv depth start done e)
    (parting : ∀ start done d, inv 0 start done d → literalEnd? d = none → d.peek = some separator →
      isUncounted separator = true → separator ≠ '\x27' → inv 0 d.next (start.upTo d :: done) d.next)
    (kept : ∀ depth start done d ch, inv depth start done d → literalEnd? d = none → d.peek = some ch →
      ¬(depth = 0 ∧ ch = separator ∧ isUncounted ch = true ∧ ch ≠ '\x27') →
        inv (countBehind depth ch) start done d.next)
    (atEnd : ∀ depth start done d, inv depth start done d → d.rest = [] → post (start :: done).reverse)
    (first : inv 0 c [] c) : post (split separator c) := by
  rw [split_eq]
  refine scan_post (fun state d => inv state.1 state.2.1 state.2.2 d) post ?literal ?step ?last (0, c, []) c first
  case literal => exact fun _ _ _ holds literal => overLiteral _ _ _ _ _ holds literal
  case last => exact fun _ _ holds empty => atEnd _ _ _ _ holds empty
  case step =>
    rintro ⟨depth, start, done⟩ d ch rest holds plain starts
    have head := Cursor.peek_eq_some.mpr ⟨rest, starts⟩
    unfold splitStep
    constructor
    · intro answer answers
      split at answers <;> simp at answers
    · intro next goesOn
      split at goesOn
      · next separates =>
        obtain ⟨rfl, rfl, uncounted, tick⟩ := separates
        obtain rfl := Sum.inr.inj goesOn
        exact parting start done d holds plain head uncounted tick
      · next other =>
        obtain rfl := Sum.inr.inj goesOn
        exact kept depth start done d ch holds plain head other

/-- The part that has begun and those before it are parts of the text. -/
structure BegunWithin (c start : Cursor) (done : List Cursor) (d : Cursor) : Prop where
  first : c ≤ start
  reached : start ≤ d
  parts : ∀ part ∈ done, part.PartOf c

/-- The parts between separators are parts of the text. -/
theorem split_partOf (separator : Char) {c part : Cursor} (member : part ∈ split separator c) :
    part.PartOf c := by
  suffices all : ∀ part ∈ split separator c, part.PartOf c from all part member
  refine split_post (fun _ => BegunWithin c) (fun parts => ∀ part ∈ parts, part.PartOf c) ?literal ?parting ?kept ?last
    ⟨le_refl c, le_refl c, by simp⟩
  case literal =>
    rintro _ start done d e ⟨first, reached, parts⟩ literal
    exact ⟨first, reached.trans (lt_of_literalEnd? literal).le, parts⟩
  case parting =>
    rintro start done d ⟨first, reached, parts⟩ _ _ _ _
    have part := (Cursor.upTo_partOf reached).trans (Cursor.partOf_of_le first)
    exact ⟨(first.trans reached).trans (Cursor.le_next d), le_refl _, List.forall_mem_cons.mpr ⟨part, parts⟩⟩
  case kept =>
    rintro _ start done d _ ⟨first, reached, parts⟩ _ _ _
    exact ⟨first, reached.trans (Cursor.le_next d), parts⟩
  case last =>
    rintro _ start done d ⟨first, _, parts⟩ _ part member
    rcases List.mem_cons.mp (List.mem_reverse.mp member) with rfl | member
    · exact Cursor.partOf_of_le first
    · exact parts part member

theorem splitStep_comma (state : Nat × Cursor × List Cursor) (ch : Char) (place : Cursor) :
    splitStep ',' state ch place =
      if state.1 = 0 ∧ ch = ',' then .inr (0, place.next, state.2.1.upTo place :: state.2.2)
      else .inr (countBehind state.1 ch, state.2.1, state.2.2) := by
  by_cases comma : ch = ','
  · subst comma
    simp [splitStep, isUncounted, isOpener, isCloser]
  · simp [splitStep, comma]

theorem scan_splitStep_rest {depth : Nat} {start c : Cursor} {done : List Cursor} {before : List Char}
    (reads : start.Reads before c) (plain : ∀ ch ∈ c.rest, isQuote ch = false) :
    (scan (splitStep ',') (fun state _ => (state.2.1 :: state.2.2).reverse) (depth, start, done) c).map (·.rest) =
      (done.reverse.map (·.rest)) ++ (commaParts depth c.rest).modifyHead (before ++ ·) := by
  generalize text : c.rest = rest at plain
  induction rest generalizing depth start c done before with
  | nil =>
    rw [scan_end text]
    have last : start.rest = before := by rw [reads.rest_eq, text, List.append_nil]
    simp [commaParts, last]
  | cons ch rest ih =>
    have onward := Cursor.reads_next text
    have behind : c.next.rest = rest := by simp [Cursor.next, text]
    have further : ∀ other ∈ rest, isQuote other = false := fun other among => plain other (List.mem_cons_of_mem _ among)
    rw [scan_step (literalEnd?_eq_none text (plain ch List.mem_cons_self)) text, commaParts]
    by_cases comma : depth = 0 ∧ ch = ','
    · have part : (start.upTo c).rest = before := reads.textTo_eq
      simp only [splitStep_comma, if_pos comma]
      rw [ih (.refl _) behind further]
      cases parts : commaParts 0 rest with
      | nil => exact absurd parts (commaParts_ne_nil _ _)
      | cons => simp [part]
    · simp only [splitStep_comma, if_neg comma]
      rw [ih (reads.trans onward) behind further]
      cases parts : commaParts (countBehind depth ch) rest with
      | nil => exact absurd parts (commaParts_ne_nil _ _)
      | cons => simp

/-- Without quotes in a text, it is split into its parts between commas. -/
theorem split_rest {c : Cursor} (plain : ∀ ch ∈ c.rest, isQuote ch = false) :
    (split ',' c).map (·.rest) = commaParts 0 c.rest := by
  rw [split_eq, scan_splitStep_rest (.refl c) plain]
  cases parts : commaParts 0 c.rest with
  | nil => exact absurd parts (commaParts_ne_nil _ _)
  | cons => rfl

end SigilTemplate.Code
