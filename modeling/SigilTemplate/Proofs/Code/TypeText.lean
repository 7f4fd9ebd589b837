import SigilTemplate.Proofs.Code.Commas
import SigilTemplate.Proofs.Text.Letters
import SigilTemplate.Proofs.Text.Runs
import SigilTemplate.Reading.Argument

/-!
Types as they are written in code: paths, borrows, arrows, tuples, slices and
arguments between angle brackets, without literals. What reads a fragment goes
over such a text with the same delimiters open before and behind it; what splits
at commas may not, since it takes the end of an arrow for a closing bracket.
-/

namespace SigilTemplate.Code
open Text

/-! ## What a fragment is read over -/

/-- Inside a fragment, the text is gone over with the same delimiters open before and behind it, where `room` more of
them may open. -/
def PassedOver (room : Nat) (text : List Char) : Prop :=
  ∀ (limit : Nat) (start c d : Cursor) (nesting : Nesting) (finish : Nesting → Cursor → Except Refusal Enclosed),
    nesting.depth + room ≤ max limit 1 → c.Reads text d →
      scan (encloseStep limit start) finish nesting c = scan (encloseStep limit start) finish nesting d

/-- A character that is neither a delimiter nor a quote. -/
def isOrdinary (ch : Char) : Bool := !(isOpener ch || isCloser ch || isQuote ch)

theorem PassedOver.append {room : Nat} {first second : List Char} (left : PassedOver room first)
    (right : PassedOver room second) : PassedOver room (first ++ second) := by
  intro limit start c d nesting finish within reads
  obtain ⟨between, front, back⟩ := reads.split
  rw [left limit start c between nesting finish within front, right limit start between d nesting finish within back]

theorem PassedOver.of_ordinary {text : List Char} (ordinary : text.all isOrdinary = true) (room : Nat) :
    PassedOver room text := by
  intro limit start c d nesting finish within reads
  induction text generalizing c with
  | nil => rw [Cursor.reads_nil reads]
  | cons ch rest ih =>
    rw [List.all_cons, Bool.and_eq_true] at ordinary
    obtain ⟨plain, ordinary⟩ := ordinary
    simp only [isOrdinary, Bool.not_eq_true', Bool.or_eq_false_iff] at plain
    have starts : c.rest = ch :: (rest ++ d.rest) := reads.rest_eq
    have onward : c.next.Reads rest d := reads.of_next
    rw [scan_step (literalEnd?_eq_none starts plain.2) starts]
    simp only [encloseStep, plain.1.1, plain.1.2, Bool.false_eq_true, if_false]
    exact ih ordinary c.next onward

theorem PassedOver.cons {ch : Char} {room : Nat} {rest : List Char} (ordinary : isOrdinary ch = true)
    (behind : PassedOver room rest) : PassedOver room (ch :: rest) :=
  (PassedOver.of_ordinary (by simpa using ordinary) room : PassedOver room [ch]).append behind

/-- What is gone over may stand between delimiters of its own, if there is room for these. -/
theorem PassedOver.enclose {room : Nat} {text : List Char} (inside : PassedOver room text) {opener : Char}
    (opens : isOpener opener = true) : PassedOver (room + 1) (opener :: (text ++ [closerOf opener])) := by
  intro limit start c d nesting finish within reads
  have starts : c.rest = opener :: (text ++ [closerOf opener] ++ d.rest) := reads.rest_eq
  have further : c.next.Reads (text ++ [closerOf opener]) d := reads.of_next
  obtain ⟨close, onto, last⟩ := further.split
  have closes := closes_closerOf opens
  have room : ¬nesting.depth ≥ max limit 1 := by omega
  have ends : close.rest = closerOf opener :: d.rest := last.rest_eq
  have after : close.next = d := Cursor.reads_nil (last.of_next)
  rw [scan_step (literalEnd?_eq_none starts (not_isQuote_of rfl rfl opens)) starts]
  simp only [encloseStep, opens, if_true, if_neg room]
  rw [inside limit start c.next close ⟨⟨opener, c.pos⟩, nesting.innermost :: nesting.around⟩ finish
    (by simp only [Nesting.depth, List.length_cons] at within ⊢; omega) onto]
  rw [scan_step (literalEnd?_eq_none ends closes.2.2) ends]
  simp only [encloseStep, closes.1, closes.2.1, Bool.false_eq_true, if_true, if_false, after]

/-- A fragment with such a text ends where it should. -/
theorem enclosed_of_passedOver {room limit : Nat} {text rest : List Char} (inside : PassedOver room text)
    (within : room + 1 ≤ max limit 1) {opener : Char} (opens : isOpener opener = true) {c : Cursor}
    (starts : c.rest = opener :: (text ++ closerOf opener :: rest)) :
    ∃ close, c.next.Reads text close ∧ close.rest = closerOf opener :: rest ∧
      enclosed limit c = .ok ⟨c.next.upTo close, close.next⟩ := by
  have behind : c.next.rest = text ++ closerOf opener :: rest := by simp [Cursor.next, starts]
  have onto := Cursor.reads_skip behind
  have ends : (c.next.skip text.length).rest = closerOf opener :: rest := by
    have both := onto.rest_eq
    rw [behind] at both
    exact (List.append_cancel_left both).symm
  have closes := closes_closerOf opens
  refine ⟨c.next.skip text.length, onto, ends, ?_⟩
  have head : c.peek = some opener := Cursor.peek_eq_some.mpr ⟨_, starts⟩
  simp only [enclosed, head, Option.getD_some]
  rw [inside limit c.next c.next _ ⟨⟨opener, c.pos⟩, []⟩ _ (by simpa [Nesting.depth, Nat.add_comm] using within) onto]
  rw [scan_step (literalEnd?_eq_none ends closes.2.2) ends]
  simp only [encloseStep, closes.1, closes.2.1, Bool.false_eq_true, if_true, if_false]

/-! ## Types -/

/-- An identifier as a text of its own. -/
def IsIdentifier (text : List Char) : Prop :=
  ∃ first rest, text = first :: rest ∧ isIdentStart first = true ∧ rest.all isIdentPart = true

/-- What may stand between two pieces of a type, or after a comma: at most one space. -/
def IsGap (gap : List Char) : Prop := gap = [] ∨ gap = [' ']

/-- The pieces that types are put together from. -/
inductive TypePart where
  | atom
  | type
  | list
deriving DecidableEq

/-- The texts of types, of the atoms in them and of lists of types, with round and square brackets that nest no deeper
than `nesting`. A list may be empty and may end with a comma. -/
inductive TypeText : TypePart → (nesting : Nat) → List Char → Prop
  | word {nesting : Nat} {text : List Char} (identifier : IsIdentifier text) : TypeText .atom nesting text
  | borrow {nesting : Nat} : TypeText .atom nesting ['&']
  | path {nesting : Nat} : TypeText .atom nesting [':', ':']
  | arrow {nesting : Nat} : TypeText .atom nesting ['-', '>']
  | round {nesting : Nat} {text : List Char} (inside : TypeText .list nesting text) :
    TypeText .atom (nesting + 1) ('(' :: (text ++ [')']))
  | square {nesting : Nat} {text : List Char} (inside : TypeText .type nesting text) :
    TypeText .atom (nesting + 1) ('[' :: (text ++ [']']))
  | angle {nesting : Nat} {text : List Char} (inside : TypeText .list nesting text) :
    TypeText .atom nesting ('<' :: (text ++ ['>']))
  | single {nesting : Nat} {text : List Char} (atom : TypeText .atom nesting text) : TypeText .type nesting text
  | more {nesting : Nat} {front gap back : List Char} (atom : TypeText .atom nesting front) (space : IsGap gap)
    (type : TypeText .type nesting back) : TypeText .type nesting (front ++ (gap ++ back))
  | none {nesting : Nat} : TypeText .list nesting []
  | one {nesting : Nat} {text : List Char} (type : TypeText .type nesting text) : TypeText .list nesting text
  | next {nesting : Nat} {front gap back : List Char} (type : TypeText .type nesting front) (space : IsGap gap)
    (list : TypeText .list nesting back) : TypeText .list nesting (front ++ ',' :: (gap ++ back))

section

variable {part : TypePart} {nesting : Nat} {text gap : List Char}

/-- What holds of single letters holds of an identifier. -/
theorem IsIdentifier.all {p : Char → Bool} (identifier : IsIdentifier text) (letters : ∀ ch, isIdentPart ch = true → p ch = true) :
    text.all p = true := by
  obtain ⟨first, rest, rfl, start, parts⟩ := identifier
  rw [List.all_eq_true] at parts ⊢
  intro ch among
  rcases List.mem_cons.mp among with rfl | among
  · exact letters _ (isIdentPart_of_isIdentStart start)
  · exact letters ch (parts ch among)

theorem ne_of_isIdentPart {ch : Char} (letter : isIdentPart ch = true) (other : Char) (none : isIdentPart other = false) :
    ch ≠ other := by
  rintro rfl
  simp [letter] at none

/-- A letter of an identifier has no meaning of its own in code. -/
theorem isOrdinary_of_isIdentPart {ch : Char} (letter : isIdentPart ch = true) : isOrdinary ch = true := by
  have other := ne_of_isIdentPart letter
  simp [isOrdinary, isOpener, isCloser, isQuote, other '(' rfl, other '[' rfl, other '\x7b' rfl, other ')' rfl,
    other ']' rfl, other '\x7d' rfl, other '"' rfl, other '\x27' rfl]

theorem isUncounted_of_isIdentPart {ch : Char} (letter : isIdentPart ch = true) : isUncounted ch = true := by
  have ordinary := isOrdinary_of_isIdentPart letter
  have other := ne_of_isIdentPart letter
  simp only [isOrdinary, Bool.not_eq_true', Bool.or_eq_false_iff] at ordinary
  simp [isUncounted, ordinary.1.1, ordinary.1.2, other '<' rfl, other '>' rfl]

theorem IsIdentifier.not_mem (identifier : IsIdentifier text) (ch : Char) (none : isIdentPart ch = false) : ch ∉ text := by
  have letters := identifier.all (p := isIdentPart) fun _ letter => letter
  intro among
  rw [List.all_eq_true.mp letters ch among] at none
  cases none

theorem IsIdentifier.isIdentOrEmpty (identifier : IsIdentifier text) : isIdentOrEmpty text = true := by
  obtain ⟨first, rest, rfl, start, parts⟩ := identifier
  have whole : rest.takeWhile isIdentPart = rest := List.takeWhile_eq_self_iff.mpr (by simpa using parts)
  simp [Text.isIdentOrEmpty, identHead, start, whole]

theorem IsGap.all {p : Char → Bool} (space : IsGap gap) (holds : p ' ' = true) : gap.all p = true := by
  rcases space with rfl | rfl
  · rfl
  · simpa using holds

theorem IsGap.not_mem (space : IsGap gap) (ch : Char) (other : ch ≠ ' ') : ch ∉ gap := by
  rcases space with rfl | rfl
  · simp
  · simpa using other

theorem TypeText.passedOver (written : TypeText part nesting text) : PassedOver nesting text := by
  induction written with
  | word identifier => exact .of_ordinary (identifier.all fun _ => isOrdinary_of_isIdentPart) _
  | borrow | path | arrow | none => exact .of_ordinary (by decide) _
  | round _ ih => exact ih.enclose rfl
  | square _ ih => exact ih.enclose rfl
  | angle _ ih =>
    exact .cons (by decide) (ih.append (.of_ordinary (by decide) _))
  | single _ ih | one _ ih => exact ih
  | more _ space _ front back => exact front.append ((PassedOver.of_ordinary (space.all (by decide)) _).append back)
  | next _ space _ front back =>
    exact front.append (.cons (by decide) ((PassedOver.of_ordinary (space.all (by decide)) _).append back))

theorem TypeText.not_isQuote (written : TypeText part nesting text) : text.all (!isQuote ·) = true := by
  induction written with
  | word identifier =>
    refine identifier.all fun ch letter => ?_
    have ordinary := isOrdinary_of_isIdentPart letter
    simp only [isOrdinary, Bool.not_eq_true', Bool.or_eq_false_iff] at ordinary
    simpa using ordinary.2
  | borrow | path | arrow | none => decide
  | round _ ih | square _ ih | angle _ ih =>
    rw [List.all_cons, List.all_append, ih]
    rfl
  | single _ ih | one _ ih => exact ih
  | more _ space _ front back => rw [List.all_append, List.all_append, front, back, space.all (by decide)]; rfl
  | next _ space _ front back =>
    rw [List.all_append, List.all_cons, List.all_append, front, back, space.all (by decide)]
    rfl

/-! ## What splitting counts in a type -/

/-- No more is counted as open behind a type than before it. -/
theorem TypeText.countOver_le (written : TypeText part nesting text) (depth : Nat) : countOver depth text ≤ depth := by
  induction written generalizing depth with
  | word identifier =>
    rw [countOver_of_isUncounted (identifier.all fun _ => isUncounted_of_isIdentPart)]
  | borrow | path | arrow | none => simp [countBehind, isOpener, isCloser]
  | round _ ih | square _ ih | angle _ ih =>
    have inside := ih (depth + 1)
    simp only [countOver_cons, countOver_append, countOver_nil, countBehind, isOpener, isCloser]
    simp
    omega
  | single _ ih | one _ ih => exact ih depth
  | more _ space _ front back =>
    rw [countOver_append, countOver_append, countOver_of_isUncounted (space.all (by decide))]
    exact (back _).trans (front depth)
  | next _ space _ front back =>
    rw [countOver_append, countOver_cons, countBehind_of_isUncounted (by decide), countOver_append,
      countOver_of_isUncounted (space.all (by decide))]
    exact (back _).trans (front depth)

/-- As much is counted as open behind the text as before it, and none of its commas separates. -/
structure Balanced (depth : Nat) (text : List Char) : Prop where
  countOver_eq : countOver depth text = depth
  keeps : KeepsCommas depth text

theorem Balanced.append {depth : Nat} {first second : List Char} (left : Balanced depth first) (right : Balanced depth second) :
    Balanced depth (first ++ second) where
  countOver_eq := by rw [countOver_append, left.countOver_eq, right.countOver_eq]
  keeps := left.keeps.append (by rw [left.countOver_eq]; exact right.keeps)

theorem Balanced.of_uncounted (plain : text.all isUncounted = true) (none : ',' ∉ text) (depth : Nat) : Balanced depth text :=
  ⟨countOver_of_isUncounted plain depth, .of_not_mem none depth⟩

theorem IsGap.balanced (space : IsGap gap) (depth : Nat) : Balanced depth gap := by
  exact .of_uncounted (space.all (by decide)) (space.not_mem _ (by decide)) depth

/-- Where something is counted as open, a comma does not separate. -/
theorem Balanced.comma {depth : Nat} (inside : depth ≠ 0) : Balanced depth [','] where
  countOver_eq := countOver_of_isUncounted (by decide) depth
  keeps := by
    intro before after split
    cases before with
    | nil => exact inside
    | cons ch before => simp at split

theorem Balanced.enclose {depth : Nat} {opener closer : Char} (inside : Balanced (depth + 1) text)
    (opens : ∀ depth, countBehind depth opener = depth + 1) (closes : ∀ depth, countBehind depth closer = depth - 1)
    (first : opener ≠ ',') (last : closer ≠ ',') : Balanced depth (opener :: (text ++ [closer])) where
  countOver_eq := by
    rw [countOver_cons, countOver_append, opens, inside.countOver_eq, countOver_cons, closes, countOver_nil,
      Nat.add_sub_cancel]
  keeps := by
    refine .cons first ?_
    rw [opens]
    exact inside.keeps.append (.of_not_mem (by simpa using last.symm) _)

/-- Without arrows, the brackets that are counted are those of the type. Then none of its commas separates, as each is in
a list, which stands between brackets. -/
theorem TypeText.balanced_of_not_mem (written : TypeText part nesting text) (plain : '-' ∉ text) {depth : Nat}
    (inside : part = .list → depth ≠ 0) : Balanced depth text := by
  induction written generalizing depth with
  | word identifier =>
    exact .of_uncounted (identifier.all fun _ => isUncounted_of_isIdentPart) (identifier.not_mem _ (by decide)) depth
  | borrow | path | none => exact .of_uncounted (by decide) (by decide) depth
  | arrow => simp at plain
  | round _ ih | square _ ih | angle _ ih =>
    simp only [List.mem_cons, List.mem_append, not_or] at plain
    exact (ih plain.2.1 fun _ => Nat.succ_ne_zero depth).enclose (fun _ => rfl) (fun _ => rfl) (by decide) (by decide)
  | single _ ih | one _ ih => exact ih plain (by simp)
  | more _ space _ front back =>
    simp only [List.mem_append, not_or] at plain
    exact (front plain.1 (by simp)).append ((space.balanced depth).append (back plain.2.2 (by simp)))
  | next _ space _ front back =>
    simp only [List.mem_append, List.mem_cons, not_or] at plain
    have opened := inside rfl
    exact (front plain.1 (by simp)).append
      ((Balanced.comma opened).append ((space.balanced depth).append (back plain.2.2.2 fun _ => opened)))

/-! ## Colons -/

/-- Each colon has another one right after or before it. -/
def Paired (text : List Char) : Prop :=
  ∀ before after, text = before ++ ':' :: after → after.head? = some ':' ∨ before.getLast? = some ':'

theorem Paired.of_not_mem (none : ':' ∉ text) : Paired text := by
  rintro before after rfl
  simp at none

theorem Paired.append {first second : List Char} (left : Paired first) (right : Paired second) :
    Paired (first ++ second) := by
  intro before after split
  rcases List.append_eq_append_iff.mp split with ⟨more, rfl, same⟩ | ⟨more, rfl, same⟩
  · rcases right more after same with here | here
    · exact .inl here
    · exact .inr (by rw [List.getLast?_append, here]; rfl)
  · cases more with
    | nil =>
      rcases right [] after same.symm with here | here
      · exact .inl here
      · simp at here
    | cons ch more =>
      obtain ⟨rfl, rfl⟩ := List.cons.inj same
      rcases left before more rfl with here | here
      · exact .inl (by simpa using Or.inl here)
      · exact .inr here

/-- A comma keeps colons apart, so those on its two sides are paired by themselves. -/
theorem Paired.around {first second : List Char} (paired : Paired (first ++ ',' :: second)) :
    Paired first ∧ Paired second := by
  constructor
  · rintro before after rfl
    rcases paired before (after ++ ',' :: second) (by simp) with here | here
    · cases after with
      | nil => simp at here
      | cons => exact .inl here
    · exact .inr here
  · rintro before after rfl
    rcases paired (first ++ ',' :: before) after (by simp) with here | here
    · exact .inl here
    · cases before with
      | nil => simp at here
      | cons => exact .inr (by simpa using here)

theorem Paired.cons {ch : Char} {rest : List Char} (other : ch ≠ ':') (behind : Paired rest) : Paired (ch :: rest) :=
  (Paired.of_not_mem (by simpa using other.symm) : Paired [ch]).append behind

theorem TypeText.paired (written : TypeText part nesting text) : Paired text := by
  induction written with
  | word identifier => exact .of_not_mem (identifier.not_mem _ (by decide))
  | borrow | arrow | none => exact .of_not_mem (by decide)
  | path =>
    intro before after split
    cases before with
    | nil =>
      obtain ⟨_, rfl⟩ := List.cons.inj split
      exact .inl rfl
    | cons ch before =>
      obtain ⟨rfl, same⟩ := List.cons.inj split
      cases before with
      | nil => exact .inr rfl
      | cons => simp at same
  | round _ ih | square _ ih | angle _ ih =>
    exact .cons (by decide) (ih.append (.of_not_mem (by decide)))
  | single _ ih | one _ ih => exact ih
  | more _ space _ front back => exact front.append ((Paired.of_not_mem (space.not_mem _ (by decide))).append back)
  | next _ space _ front back =>
    exact front.append (.cons (by decide) ((Paired.of_not_mem (space.not_mem _ (by decide))).append back))

theorem singleColon?_go_eq_none {text : List Char} (before : List Char) (paired : Paired (before ++ text)) (pos : Nat) :
    singleColon?.go (before.getLast? == some ':') pos text = none := by
  induction text generalizing before pos with
  | nil => rfl
  | cons ch rest ih =>
    rw [singleColon?.go, if_neg]
    · have onward := ih (before ++ [ch]) (by simpa using paired) (pos + ch.utf8Size)
      rwa [List.getLast?_concat] at onward
    · rintro ⟨rfl, first, last⟩
      rcases paired before rest rfl with here | here
      · exact last here
      · simp [here] at first

/-- Where all colons are paired, none stands between a name and a value. -/
theorem singleColon?_eq_none {c : Cursor} (paired : Paired c.rest) : singleColon? c = none :=
  singleColon?_go_eq_none [] paired c.pos

/-! ## Ends and commas -/

/-- The text starts with a character that is neither blank nor a comma. -/
def StartsSolid (text : List Char) : Prop := ∃ ch rest, text = ch :: rest ∧ isBlank ch = false ∧ ch ≠ ','

theorem StartsSolid.ne_nil (solid : StartsSolid text) : text ≠ [] := by
  obtain ⟨ch, rest, rfl, _⟩ := solid
  exact List.cons_ne_nil ch rest

theorem StartsSolid.append {first : List Char} (solid : StartsSolid first) (second : List Char) :
    StartsSolid (first ++ second) := by
  obtain ⟨ch, rest, rfl, facts⟩ := solid
  exact ⟨ch, rest ++ second, rfl, facts⟩

theorem IsIdentifier.startsSolid (identifier : IsIdentifier text) : StartsSolid text := by
  obtain ⟨first, rest, rfl, start, _⟩ := identifier
  have letter := isIdentPart_of_isIdentStart start
  exact ⟨first, rest, rfl, not_isBlank_of_isIdentPart letter, ne_of_isIdentPart letter ',' rfl⟩

theorem TypeText.startsSolid_or (written : TypeText part nesting text) :
    StartsSolid text ∨ part = .list ∧ text = [] := by
  induction written with
  | word identifier => exact .inl identifier.startsSolid
  | borrow | path | arrow | round | square | angle => exact .inl ⟨_, _, rfl, by decide, by decide⟩
  | single _ ih | one _ ih => exact ih.imp id (by simp)
  | more _ _ _ ih | next _ _ _ ih =>
    rcases ih with solid | ⟨other, _⟩
    · exact .inl (solid.append _)
    · cases other
  | none => exact .inr ⟨rfl, rfl⟩

theorem TypeText.startsSolid (written : TypeText part nesting text) (kind : part ≠ .list) : StartsSolid text :=
  written.startsSolid_or.resolve_right fun list => kind list.1

/-- The last character of a type is not blank. -/
theorem TypeText.not_isBlank_of_getLast? (written : TypeText part nesting text) (kind : part ≠ .list) {ch : Char}
    (last : text.getLast? = some ch) : isBlank ch = false := by
  induction written with
  | word identifier =>
    have letters := identifier.all (p := fun ch => !isBlank ch) fun ch letter => by simp [not_isBlank_of_isIdentPart letter]
    simpa using List.all_eq_true.mp letters ch (List.mem_of_getLast? last)
  | borrow | path | arrow =>
    obtain rfl := Option.some.inj last
    decide
  | round | square | angle =>
    rw [← List.cons_append, List.getLast?_concat] at last
    obtain rfl := Option.some.inj last
    decide
  | single _ ih => exact ih (by simp) last
  | more _ _ type _ ih =>
    rw [← List.append_assoc, List.getLast?_append] at last
    obtain ⟨first, rest, rfl, _⟩ := type.startsSolid (by simp)
    exact ih (by simp) (by simpa [List.getLast?_cons] using last)
  | none | one | next => exact absurd rfl kind

/-- After each comma and perhaps a space comes something solid. -/
def SpacedCommas (text : List Char) : Prop :=
  ∀ before after, text = before ++ ',' :: after → ∃ gap rest, after = gap ++ rest ∧ IsGap gap ∧ StartsSolid rest

theorem SpacedCommas.of_not_mem (none : ',' ∉ text) : SpacedCommas text := by
  rintro before after rfl
  simp at none

theorem SpacedCommas.append {first second : List Char} (left : SpacedCommas first) (right : SpacedCommas second) :
    SpacedCommas (first ++ second) := by
  intro before after split
  rcases List.append_eq_append_iff.mp split with ⟨more, rfl, same⟩ | ⟨more, rfl, same⟩
  · exact right more after same
  · cases more with
    | nil => exact right [] after same.symm
    | cons ch more =>
      obtain ⟨rfl, rfl⟩ := List.cons.inj same
      obtain ⟨gap, rest, rfl, space, solid⟩ := left before more rfl
      exact ⟨gap, rest ++ second, by simp, space, solid.append second⟩

theorem SpacedCommas.cons {ch : Char} {rest : List Char} (other : ch ≠ ',') (spaced : SpacedCommas rest) :
    SpacedCommas (ch :: rest) :=
  (SpacedCommas.of_not_mem (by simpa using other.symm) : SpacedCommas [ch]).append spaced

theorem SpacedCommas.comma {rest : List Char} (space : IsGap gap) (solid : StartsSolid rest) (further : SpacedCommas rest) :
    SpacedCommas (',' :: (gap ++ rest)) := by
  intro before after split
  cases before with
  | nil =>
    obtain ⟨_, rfl⟩ := List.cons.inj split
    exact ⟨gap, rest, rfl, space, solid⟩
  | cons ch before =>
    obtain ⟨_, same⟩ := List.cons.inj split
    exact (SpacedCommas.of_not_mem (space.not_mem _ (by decide))).append further before after same

/-- A type may be followed by anything, a list only by something solid, as it may end with a comma. -/
theorem TypeText.spacedCommas (written : TypeText part nesting text) {rest : List Char} (spaced : SpacedCommas rest)
    (solid : part = .list → StartsSolid rest) : SpacedCommas (text ++ rest) := by
  induction written generalizing rest with
  | word identifier => exact (SpacedCommas.of_not_mem (identifier.not_mem _ (by decide))).append spaced
  | borrow | path | arrow => exact (SpacedCommas.of_not_mem (by decide)).append spaced
  | round _ ih | square _ ih | angle _ ih =>
    rw [List.cons_append, List.append_assoc]
    exact .cons (by decide) (ih (.cons (by decide) spaced) fun _ => ⟨_, rest, rfl, by decide, by decide⟩)
  | single _ ih | one _ ih => exact ih spaced (by simp)
  | more _ space _ front back =>
    have behind := back spaced (by simp)
    simpa using front ((SpacedCommas.of_not_mem (space.not_mem _ (by decide))).append behind) (by simp)
  | none => exact spaced
  | @next _ _ gap back _ space list front further =>
    have follows : StartsSolid (back ++ rest) := by
      rcases list.startsSolid_or with here | ⟨_, rfl⟩
      · exact here.append rest
      · exact solid rfl
    simpa using front (.comma space follows (further spaced solid)) (by simp)

/-- A comma of a type that separates leaves a part that is not blank and in which no name is told from a value. -/
theorem TypeText.exists_mangled (written : TypeText .type nesting text) (cut : ¬KeepsCommas 0 text) {front : List Char}
    (closed : countOver 0 front = 0) :
    ∃ part ∈ commaParts 0 (front ++ text), part.all isBlank = false ∧ Paired part := by
  simp only [KeepsCommas, not_forall, not_not] at cut
  obtain ⟨before, after, rfl, here⟩ := cut
  have apart : countOver 0 (front ++ before) = 0 := by rw [countOver_append, closed, here]
  have nothing : SpacedCommas [] := .of_not_mem (by simp)
  have spaced := written.spacedCommas nothing (by simp)
  obtain ⟨gap, rest, rfl, space, ch, more, rfl, solid, other⟩ := spaced before after (by simp)
  obtain ⟨part, others, same, reach⟩ := exists_commaParts_eq_cons 0 (gap ++ ch :: more)
  have paired : Paired part := by
    have behind := written.paired.around.2
    rcases reach with whole | ⟨tail, upTo⟩
    · rwa [whole] at behind
    · rw [upTo] at behind
      exact behind.around.1
  have among : ch ∈ part := by
    rcases reach with rfl | ⟨tail, upTo⟩
    · simp
    · have plain : ',' ∉ gap ++ [ch] := by simp [space.not_mem ',' (by decide), other.symm]
      rw [← List.singleton_append, ← List.append_assoc] at upTo
      rcases List.append_eq_append_iff.mp upTo with ⟨onward, rfl, _⟩ | ⟨onward, split, behind⟩
      · simp
      · cases onward with
        | nil =>
          rw [List.append_nil] at split
          simp [← split]
        | cons first onward =>
          obtain ⟨rfl, _⟩ := List.cons.inj behind
          exact absurd (by simp [split]) plain
  refine ⟨part, ?_, ?_, paired⟩
  · rw [← List.append_assoc, commaParts_append _ apart, same]
    exact List.mem_append_right _ List.mem_cons_self
  · rw [List.all_eq_false]
    exact ⟨ch, among, by simp [solid]⟩

end

end SigilTemplate.Code
