import SigilTemplate.Proofs.Bytes.Stack
import SigilTemplate.Proofs.Code.Lexemes

/-!
What a fragment between delimiters is. Its reading keeps a stack of what is
open; here the fragment is told by its lexemes alone, as a word in which every
delimiter is closed by one of its own kind, up to a depth. A word that is still
open says what its closing delimiters are missing, and the first lexeme that
does not fit such a word is the one with which the reading gives up.
-/

namespace SigilTemplate.Code
open Text

/-! ## Words with delimiters -/

/-- A word in which every delimiter is closed by one of its kind, and no more than `room` of them are open at once. -/
inductive Nested : Nat → List Lexeme → Prop
  | nil (room : Nat) : Nested room []
  | literal {room : Nat} {rest : List Lexeme} (behind : Nested room rest) : Nested room (.literal :: rest)
  | plain {room pos : Nat} {ch : Char} {rest : List Lexeme} (opener : isOpener ch = false) (closer : isCloser ch = false)
      (behind : Nested room rest) : Nested room (.char ch pos :: rest)
  | bracket {room start stop : Nat} {opener : Char} {inside rest : List Lexeme} (opens : isOpener opener = true)
      (within : Nested room inside) (behind : Nested (room + 1) rest) :
      Nested (room + 1) (.char opener start :: (inside ++ .char (closerOf opener) stop :: rest))

/-- A word behind the delimiter `first`, with the delimiters that are open at its end, innermost first. No more than
`bound` are open at once. -/
inductive Pending (bound : Nat) (first : OpenDelimiter) : List Lexeme → List OpenDelimiter → Prop
  | first {word : List Lexeme} (within : Nested (bound - 1) word) : Pending bound first word [first]
  | opened {outer inside : List Lexeme} {openers : List OpenDelimiter} {ch : Char} {pos : Nat}
      (before : Pending bound first outer openers) (room : openers.length < bound) (opens : isOpener ch = true)
      (within : Nested (bound - (openers.length + 1)) inside) :
      Pending bound first (outer ++ .char ch pos :: inside) (⟨ch, pos⟩ :: openers)

/-- How the reading of the fragment that opens at `c` with `opener` ends. It is closed by the delimiter that makes a
nested word of it; or a closing delimiter comes that does not fit the innermost open one, or an opening one for which
there is no room, or the text ends first, perhaps in a string that is never closed. -/
inductive FragmentEnds (limit : Nat) (c : Cursor) (opener : Char) : Except Refusal Enclosed → Prop
  | closed {word : List Lexeme} {close : Cursor} (lexes : Lexes c.next word close) (nested : Nested (max limit 1 - 1) word)
      (closer : close.peek = some (closerOf opener)) :
      FragmentEnds limit c opener (.ok ⟨c.next.upTo close, close.next⟩)
  | mismatched {word : List Lexeme} {place : Cursor} {found : Char} {innermost : OpenDelimiter} {around : List OpenDelimiter}
      (lexes : Lexes c.next word place) (pending : Pending (max limit 1) ⟨opener, c.pos⟩ word (innermost :: around))
      (head : place.peek = some found) (closer : isCloser found = true) (other : closerOf innermost.ch ≠ found) :
      FragmentEnds limit c opener (.error (.mismatched place found innermost))
  | tooDeep {word : List Lexeme} {place : Cursor} {openers : List OpenDelimiter} {ch : Char}
      (lexes : Lexes c.next word place) (pending : Pending (max limit 1) ⟨opener, c.pos⟩ word openers)
      (head : place.peek = some ch) (opens : isOpener ch = true) (full : openers.length = max limit 1) :
      FragmentEnds limit c opener (.error (.tooDeep place.pos))
  | unterminated {word : List Lexeme} {place : Cursor} {openers : List OpenDelimiter} (lexes : Lexes c.next word place)
      (pending : Pending (max limit 1) ⟨opener, c.pos⟩ word openers) (last : place.rest = [] ∨ UnclosedString place) :
      FragmentEnds limit c opener (.error (.unterminated ⟨opener, c.pos⟩))

variable {room bound limit : Nat} {first : OpenDelimiter} {word more : List Lexeme} {openers : List OpenDelimiter}

theorem Nested.append (left : Nested room word) (right : Nested room more) : Nested room (word ++ more) := by
  induction left with
  | nil => exact right
  | literal _ ih => exact .literal (ih right)
  | plain opener closer _ ih => exact .plain opener closer (ih right)
  | bracket opens within _ _ ih =>
    rw [List.cons_append, List.append_assoc, List.cons_append]
    exact .bracket opens within (ih right)

theorem Pending.openers_ne_nil (pending : Pending bound first word openers) : openers ≠ [] := by
  cases pending <;> simp

theorem Pending.length_le (pending : Pending bound first word openers) (positive : 1 ≤ bound) :
    openers.length ≤ bound := by
  cases pending with
  | first => exact positive
  | opened _ room => exact room

/-- A nested word behind a pending one leaves the same delimiters open. -/
theorem Pending.extend (pending : Pending bound first word openers) (nested : Nested (bound - openers.length) more) :
    Pending bound first (word ++ more) openers := by
  cases pending with
  | first within => exact .first (within.append nested)
  | opened before room opens within =>
    rw [List.append_assoc, List.cons_append]
    exact .opened before room opens (within.append nested)

/-- Where one delimiter is open, it is the first, and a nested word stands behind it. -/
theorem Pending.single {innermost : OpenDelimiter} (pending : Pending bound first word [innermost]) :
    innermost = first ∧ Nested (bound - 1) word := by
  generalize all : [innermost] = stack at pending
  cases pending with
  | first within => exact ⟨List.head_eq_of_cons_eq all, within⟩
  | opened before => exact absurd (List.tail_eq_of_cons_eq all).symm before.openers_ne_nil

/-- The innermost delimiter is closed; the others are still open. -/
theorem Pending.close {innermost : OpenDelimiter} (pending : Pending bound first word (innermost :: openers))
    (more : openers ≠ []) (pos : Nat) : Pending bound first (word ++ [.char (closerOf innermost.ch) pos]) openers := by
  generalize all : innermost :: openers = stack at pending
  cases pending with
  | first => simp_all
  | @opened outer inside around ch start before room opens within =>
    obtain ⟨rfl, rfl⟩ := List.cons.inj all
    obtain ⟨deep, left⟩ : ∃ deep, bound - openers.length = deep + 1 := ⟨bound - (openers.length + 1), by omega⟩
    have inner : Nested deep inside := by
      have same : bound - (openers.length + 1) = deep := by omega
      rwa [same] at within
    have nested : Nested (bound - openers.length) (.char ch start :: (inside ++ [.char (closerOf ch) pos])) := by
      rw [left]
      exact .bracket opens inner (.nil _)
    rw [List.append_assoc, List.cons_append]
    exact before.extend nested

/-! ## A reading ends as its lexemes say -/

/-- What has been read of a fragment behind its opening delimiter: a word that is pending, with the open delimiters that
the reading keeps; or everything, because of a string that is never closed. -/
def ReadSoFar (limit : Nat) (c : Cursor) (opener : Char) (nesting : Nesting) (d : Cursor) : Prop :=
  (∃ word, Lexes c.next word d ∧ Pending (max limit 1) ⟨opener, c.pos⟩ word nesting.openers) ∨
    (d.rest = [] ∧ ∃ word place openers, Lexes c.next word place ∧
      Pending (max limit 1) ⟨opener, c.pos⟩ word openers ∧ UnclosedString place)

variable {c d place : Cursor} {opener ch : Char} {nesting : Nesting}

theorem encloseStep_readSoFar (lexes : Lexes c.next word place)
    (pending : Pending (max limit 1) ⟨opener, c.pos⟩ word nesting.openers) (head : place.peek = some ch)
    (plain : literalEnd? place = none) :
    match encloseStep limit c.next nesting ch place with
    | .inl answer => FragmentEnds limit c opener answer
    | .inr next => ReadSoFar limit c opener next place.next := by
  have onward : Lexes c.next (word ++ [.char ch place.pos]) place.next := lexes.append (.char head plain (.nil _))
  have depth : nesting.openers.length = nesting.depth := rfl
  have fits := pending.length_le (le_max_right limit 1)
  unfold encloseStep
  by_cases opens : isOpener ch = true
  · rw [if_pos opens]
    by_cases deep : nesting.depth ≥ max limit 1
    · rw [if_pos deep]
      exact .tooDeep lexes pending head opens (by omega)
    · rw [if_neg deep]
      have room : nesting.openers.length < max limit 1 := by omega
      exact .inl ⟨_, onward, .opened pending room opens (.nil _)⟩
  rw [if_neg opens]
  by_cases closes : isCloser ch = true
  · rw [if_pos closes]
    by_cases pairs : closerOf nesting.innermost.ch = ch
    · rw [if_pos pairs]
      cases around : nesting.around with
      | nil =>
        rw [Nesting.openers, around] at pending
        obtain ⟨innermost, nested⟩ := pending.single
        exact .closed lexes nested (by rw [head, ← pairs, innermost])
      | cons outer rest =>
        rw [Nesting.openers, around] at pending
        have closed := pending.close (by simp) place.pos
        rw [pairs] at closed
        exact .inl ⟨_, onward, closed⟩
    · rw [if_neg pairs]
      exact .mismatched lexes pending head closes pairs
  · rw [if_neg closes]
    exact .inl ⟨_, onward, pending.extend (.plain (by simpa using opens) (by simpa using closes) (.nil _))⟩

theorem enclosed_ends (limit : Nat) (head : c.peek = some opener) : FragmentEnds limit c opener (enclosed limit c) := by
  unfold enclosed
  rw [head]
  refine scan_post (ReadSoFar limit c opener) (FragmentEnds limit c opener) ?literal ?step ?last _ c.next
    (.inl ⟨[], .nil _, .first (.nil _)⟩)
  case literal =>
    rintro nesting d after (⟨word, lexes, pending⟩ | ⟨empty, _⟩) literal
    · rcases lexes_of_literalEnd? literal with lexeme | ⟨unclosed, empty⟩
      · exact .inl ⟨_, lexes.append lexeme, pending.extend (.literal (.nil _))⟩
      · exact .inr ⟨empty, word, d, _, lexes, pending, unclosed⟩
    · simp [literalEnd?, empty] at literal
  case step =>
    rintro nesting place ch rest (⟨word, lexes, pending⟩ | ⟨empty, _⟩) plain starts
    · have step := encloseStep_readSoFar lexes pending (Cursor.peek_eq_some.mpr ⟨rest, starts⟩) plain
      constructor
      · intro answer answers
        rwa [answers] at step
      · intro next goesOn
        rwa [goesOn] at step
    · simp [empty] at starts
  case last =>
    rintro nesting d (⟨word, lexes, pending⟩ | ⟨_, word, place, openers, lexes, pending, unclosed⟩) empty
    · exact .unterminated lexes pending (.inl empty)
    · exact .unterminated lexes pending (.inr unclosed)

/-- In a fragment that has been read, all strings are closed. -/
theorem enclosed_lexed {found : Enclosed} (head : c.peek = some opener) (ok : enclosed limit c = .ok found) :
    Lexed found.inner := by
  have ends := enclosed_ends limit head
  rw [ok] at ends
  cases ends with
  | closed lexes => exact lexes.lexed_upTo

/-! ## Lexemes decide how a reading ends -/

theorem Scans.trans {σ ρ : Type} {step : σ → Char → Cursor → ρ ⊕ σ} {state middle last : σ} {c d e : Cursor}
    (left : Scans step state c middle d) (right : Scans step middle d last e) : Scans step state c last e := by
  induction left with
  | refl => exact right
  | literal literal _ ih => exact .literal literal (ih right)
  | char plain head goesOn _ ih => exact .char plain head goesOn (ih right)

/-- A nested word is gone over with the same delimiters open before and behind it. -/
theorem Nested.scans (start : Cursor) (nested : Nested room word) (lexes : Lexes c word d)
    (fits : nesting.depth + room ≤ max limit 1) : Scans (encloseStep limit start) nesting c nesting d := by
  induction nested generalizing c d nesting with
  | nil =>
    cases lexes
    exact .refl _ _
  | literal _ ih =>
    obtain ⟨after, literal, onward⟩ := lexes.literal_cons
    exact .literal literal (ih onward fits)
  | plain opener closer _ ih =>
    obtain ⟨head, _, plain, onward⟩ := lexes.char_cons
    exact .char plain head (by simp [encloseStep, opener, closer]) (ih onward fits)
  | @bracket room _ _ opener inside rest opens _ _ within behind =>
    obtain ⟨head, _, plain, onward⟩ := lexes.char_cons
    obtain ⟨close, front, back⟩ := onward.split
    obtain ⟨closer, _, plain', onward'⟩ := back.char_cons
    obtain ⟨notOpener, isCloser, _⟩ := closes_closerOf opens
    have deeper : ¬nesting.depth ≥ max limit 1 := by omega
    have deep : Nesting.depth ⟨⟨opener, c.pos⟩, nesting.innermost :: nesting.around⟩ + room ≤ max limit 1 := by
      simp only [Nesting.depth, List.length_cons] at fits ⊢
      omega
    have inside := within front deep
    refine .char plain head (by simp only [encloseStep, opens, if_true, if_neg deeper]) (inside.trans ?_)
    exact .char plain' closer (by simp [encloseStep, notOpener, isCloser]) (behind onward' fits)

/-- Over a pending word, the reading comes to have the same delimiters open. -/
theorem Pending.scans (start : Cursor) (pending : Pending (max limit 1) first word openers) (lexes : Lexes c word d) :
    ∃ nesting, nesting.openers = openers ∧ Scans (encloseStep limit start) ⟨first, []⟩ c nesting d := by
  induction pending generalizing d with
  | first within =>
    exact ⟨⟨first, []⟩, rfl, within.scans start lexes (by simp only [Nesting.depth, List.length_nil]; omega)⟩
  | @opened outer inside openers ch pos before room opens within ih =>
    obtain ⟨place, front, back⟩ := lexes.split
    obtain ⟨head, rfl, plain, onward⟩ := back.char_cons
    obtain ⟨nesting, rfl, scans⟩ := ih front
    have depth : nesting.openers.length = nesting.depth := rfl
    have fits : ¬nesting.depth ≥ max limit 1 := by omega
    refine ⟨⟨⟨ch, place.pos⟩, nesting.openers⟩, rfl, scans.trans ?_⟩
    refine .char plain head (by simp only [encloseStep, opens, if_true, if_neg fits]; rfl) (within.scans start onward ?_)
    simp only [Nesting.depth]
    omega

theorem literalEnd?_delimiter (head : place.peek = some ch) (delimiter : (isOpener ch || isCloser ch) = true) :
    literalEnd? place = none := by
  refine literalEnd?_other ?_ ?_ <;> rw [head] <;> rintro ⟨⟩ <;> exact absurd delimiter (by decide)

theorem not_isOpener_of_isCloser (closer : isCloser ch = true) : isOpener ch = false := by
  simp only [isCloser, Bool.or_eq_true, beq_iff_eq] at closer
  rcases closer with (rfl | rfl) | rfl <;> decide

/-- What the lexemes say of the end of a fragment is how its reading ends. -/
theorem FragmentEnds.enclosed_eq {answer : Except Refusal Enclosed} (ends : FragmentEnds limit c opener answer)
    (head : c.peek = some opener) (opens : isOpener opener = true) : enclosed limit c = answer := by
  unfold enclosed
  rw [head, Option.getD_some]
  have bound := le_max_right limit 1
  cases ends with
  | @closed word close lexes nested closer =>
    obtain ⟨notOpener, isCloser, _⟩ := closes_closerOf opens
    have fits : Nesting.depth ⟨⟨opener, c.pos⟩, []⟩ + (max limit 1 - 1) ≤ max limit 1 := by
      simp only [Nesting.depth, List.length_nil]
      omega
    have scans := nested.scans c.next lexes fits
    obtain ⟨rest, starts⟩ := Cursor.peek_eq_some.mp closer
    rw [scans.scan_eq, scan_step (literalEnd?_delimiter closer (by rw [isCloser, Bool.or_true])) starts]
    simp [encloseStep, notOpener, isCloser]
  | @mismatched _ place found _ _ lexes pending here closer other =>
    obtain ⟨nesting, openers, scans⟩ := pending.scans c.next lexes
    obtain ⟨rest, starts⟩ := Cursor.peek_eq_some.mp here
    obtain ⟨innermost, _⟩ := List.cons.inj openers
    have notOpener : isOpener found = false := not_isOpener_of_isCloser closer
    rw [scans.scan_eq, scan_step (literalEnd?_delimiter here (by rw [closer, Bool.or_true])) starts]
    simp [encloseStep, notOpener, closer, innermost, other]
  | @tooDeep _ place _ ch lexes pending here deeper full =>
    obtain ⟨nesting, rfl, scans⟩ := pending.scans c.next lexes
    obtain ⟨rest, starts⟩ := Cursor.peek_eq_some.mp here
    have depth : nesting.depth ≥ max limit 1 := full.ge
    rw [scans.scan_eq, scan_step (literalEnd?_delimiter here (by rw [deeper, Bool.true_or])) starts]
    simp only [encloseStep, deeper, if_true, if_pos depth]
  | unterminated lexes pending last =>
    obtain ⟨nesting, _, scans⟩ := pending.scans c.next lexes
    rw [scans.scan_eq]
    rcases last with empty | unclosed
    · exact scan_end empty
    · rw [scan_literal unclosed.literalEnd?_eq, scan_end rfl]

/-- Up to its end, the text of a source is as good as the whole of it for reading a fragment. -/
theorem enclosed_cut {source : List Char} {found : Enclosed} (place : Cursor.ofText source ≤ c)
    (head : c.peek = some opener) (opens : isOpener opener = true) (ok : enclosed limit c = .ok found) :
    ∃ cut, Cursor.ofOffset? ((Cursor.ofText source).textTo found.after) c.pos = some cut ∧
      enclosed limit cut = .ok ⟨found.inner, cut.finish⟩ := by
  have lt := lt_of_enclosed head opens ok
  have whole := Cursor.amid_upTo lt.le
  have ends := Cursor.amid_finish_upTo lt.le
  have nonempty : c.upTo found.after < (c.upTo found.after).finish := Cursor.amid_lt_amid.mp (by rwa [whole, ends])
  refine ⟨c.upTo found.after, Cursor.ofOffset?_textTo place lt.le, ?_⟩
  rw [← whole] at ok
  obtain ⟨inner, alone, same⟩ := enclosed_of_amid ok nonempty ends.symm
  rw [alone, same]
  simp [Cursor.moved, Cursor.finish]

/-- Reading a fragment decides whether its delimiters nest. With the characters behind the opening delimiter taken as
string literals, character literals and single characters, the answer is the one that `FragmentEnds` gives for them, and
no other answer is given for any of them. What is found is found as well in the text that ends behind it. Byte by byte
the answer is the same, and the stack of open delimiters is not empty whenever a closing one is met. -/
theorem enclosed_decides_nesting (limit : Nat) {source : List Char} {c : Cursor} {opener : Char}
    (place : Cursor.ofText source ≤ c) (head : c.peek = some opener) (opens : isOpener opener = true) :
    (∀ answer, enclosed limit c = answer ↔ FragmentEnds limit c opener answer) ∧
    (∀ found, enclosed limit c = .ok found →
      ∃ cut, Cursor.ofOffset? ((Cursor.ofText source).textTo found.after) c.pos = some cut ∧
        enclosed limit cut = .ok ⟨found.inner, cut.finish⟩) ∧
    Bytes.popping (Bytes.encode source) limit c.pos = .ok (Bytes.offsets (enclosed limit c)) := by
  refine ⟨fun answer => ⟨?_, ?_⟩, fun found ok => enclosed_cut place head opens ok, ?_⟩
  · rintro rfl
    exact enclosed_ends limit head
  · exact fun ends => ends.enclosed_eq head opens
  · rw [Bytes.popping_eq, Bytes.balanced_eq limit place head opens]

/-- A closing delimiter inside a string closes nothing; with room for one delimiter only, the second is one too many. -/
theorem enclosed_decides_nesting_sample :
    FragmentEnds 2 (Cursor.ofText "(\")\", [a])b".toList) '('
        (.ok ⟨⟨1, "\")\", [a]".toList⟩, ⟨10, ['b']⟩⟩) ∧
      FragmentEnds 1 (Cursor.ofText "(\")\", [a])b".toList) '(' (.error (.tooDeep 6)) := by
  have closed : enclosed 2 (Cursor.ofText "(\")\", [a])b".toList) =
      .ok ⟨⟨1, "\")\", [a]".toList⟩, ⟨10, ['b']⟩⟩ := by cbv
  have deep : enclosed 1 (Cursor.ofText "(\")\", [a])b".toList) = .error (.tooDeep 6) := by cbv
  exact ⟨((enclosed_decides_nesting 2 (le_refl _) rfl rfl).1 _).mp closed,
    ((enclosed_decides_nesting 1 (le_refl _) rfl rfl).1 _).mp deep⟩

end SigilTemplate.Code
