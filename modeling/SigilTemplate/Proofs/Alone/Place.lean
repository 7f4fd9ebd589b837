import SigilTemplate.Proofs.Text.Letters
import SigilTemplate.Proofs.Text.Runs

/-!
A stretch of a text, alone and where it stands. A text that is read alone has
its places again in any text around it: so many bytes further on, and with more
characters to read. A place of the larger text belongs to the stretch if it lies
between two places of the stretch.

What an operation does there, it does in the stretch alone, as long as it ends
in the stretch. Looking ahead is the exception, since alone the text may be over:
what is found alone is found in the larger text as well, and what is missing
there is missing alone.
-/

namespace SigilTemplate
open Text

/-- What stands around a stretch of a text: so many bytes before it, and these characters after it. -/
structure Surroundings where
  before : Nat
  after : List Char

namespace Cursor

/-- A place of a stretch, in the text around it. -/
def amid (s : Surroundings) (c : Cursor) : Cursor := ⟨s.before + c.pos, c.rest ++ s.after⟩

/-- The same characters, so many bytes further on. -/
def moved (bytes : Nat) (c : Cursor) : Cursor := ⟨bytes + c.pos, c.rest⟩

variable {s : Surroundings} {c d e x : Cursor} {text : List Char} {ch : Char}

@[simp]
theorem amid_pos (s : Surroundings) (c : Cursor) : (c.amid s).pos = s.before + c.pos := rfl

@[simp]
theorem amid_rest (s : Surroundings) (c : Cursor) : (c.amid s).rest = c.rest ++ s.after := rfl

theorem moved_eq_amid (bytes : Nat) (c : Cursor) : c.moved bytes = c.amid ⟨bytes, []⟩ := by
  simp [moved, amid]

theorem amid_inj : c.amid s = d.amid s ↔ c = d := by
  constructor
  · intro same
    obtain ⟨pos, rest⟩ := Cursor.mk.inj same
    cases c
    cases d
    simp_all
  · exact congrArg _

theorem reads_amid_iff : (c.amid s).Reads text (d.amid s) ↔ c.Reads text d := by
  constructor
  · rintro ⟨rest, pos⟩
    refine ⟨?_, ?_⟩
    · rw [amid_rest, amid_rest, ← List.append_assoc] at rest
      exact List.append_cancel_right rest
    · simp only [amid_pos] at pos
      omega
  · rintro ⟨rest, pos⟩
    refine ⟨?_, ?_⟩
    · rw [amid_rest, amid_rest, rest, List.append_assoc]
    · simp only [amid_pos, pos]
      omega

@[simp]
theorem amid_le_amid : c.amid s ≤ d.amid s ↔ c ≤ d := by
  constructor
  · rintro ⟨text, reads⟩
    exact ⟨text, reads_amid_iff.mp reads⟩
  · rintro ⟨text, reads⟩
    exact ⟨text, reads_amid_iff.mpr reads⟩

@[simp]
theorem amid_lt_amid : c.amid s < d.amid s ↔ c < d := by
  rw [lt_iff_le_not_ge, lt_iff_le_not_ge, amid_le_amid, amid_le_amid]

/-- Between two places of a stretch there are only places of it. -/
theorem exists_amid (first : c.amid s ≤ x) (second : x ≤ e.amid s) : ∃ y, x = y.amid s ∧ c ≤ y ∧ y ≤ e := by
  obtain ⟨left, toPlace⟩ := first
  obtain ⟨right, toEnd⟩ := second
  have place : x = (⟨c.pos + byteLength left, right ++ e.rest⟩ : Cursor).amid s := by
    have pos := toPlace.pos_eq
    have rest := toEnd.rest_eq
    simp only [amid_pos, amid_rest] at pos rest
    cases x
    simp only [amid, mk.injEq]
    exact ⟨by simp only at pos; omega, by rw [List.append_assoc]; exact rest⟩
  rw [place] at toPlace toEnd
  exact ⟨_, place, ⟨left, reads_amid_iff.mp toPlace⟩, ⟨right, reads_amid_iff.mp toEnd⟩⟩

theorem reads_unique (first : c.Reads text d) (second : c.Reads text e) : d = e := by
  have pos := first.pos_eq.trans second.pos_eq.symm
  have rest := List.append_cancel_left (first.rest_eq.symm.trans second.rest_eq)
  cases d
  cases e
  simp_all

theorem skip_eq_of_reads (reads : c.Reads text d) : c.skip text.length = d :=
  reads_unique (reads_skip reads.rest_eq) reads

theorem ne_nil_of_lt (lt : c < d) : c.rest ≠ [] :=
  List.ne_nil_of_length_pos (Nat.zero_lt_of_lt (length_lt lt))

theorem eq_of_le_of_rest_eq_nil (le : c ≤ d) (empty : c.rest = []) : d = c := by
  by_contra other
  exact ne_nil_of_lt (lt_of_le_of_ne le (Ne.symm other)) empty

theorem ne_nil_of_le (le : c ≤ d) (more : d.rest ≠ []) : c.rest ≠ [] := fun empty =>
  more (by rw [eq_of_le_of_rest_eq_nil le empty, empty])

/-! ## Looking at characters -/

theorem peek_amid (more : c.rest ≠ []) : (c.amid s).peek = c.peek := by
  obtain ⟨ch, rest, starts⟩ := List.exists_cons_of_ne_nil more
  simp [peek, starts]

theorem peek_amid_of_some (head : c.peek = some ch) : (c.amid s).peek = some ch := by
  obtain ⟨rest, starts⟩ := peek_eq_some.mp head
  rw [peek_amid (by simp [starts]), head]

theorem peek_of_amid (lt : c < d) (head : (c.amid s).peek = some ch) : c.peek = some ch := by
  rwa [peek_amid (ne_nil_of_lt lt)] at head

/-- A character that does not come next in the larger text does not come next alone. -/
theorem peek_ne_of_amid (other : (c.amid s).peek ≠ some ch) : c.peek ≠ some ch := fun head =>
  other (peek_amid_of_some head)

theorem peek_any_amid {p : Char → Bool} (holds : c.peek.any p = true) : (c.amid s).peek.any p = true := by
  cases head : c.peek with
  | none => simp [head] at holds
  | some ch => rwa [peek_amid_of_some head, ← head]

theorem next_amid (more : c.rest ≠ []) : (c.amid s).next = c.next.amid s := by
  obtain ⟨ch, rest, starts⟩ := List.exists_cons_of_ne_nil more
  simp only [next, amid_rest, starts, List.cons_append]
  simp [amid, Nat.add_assoc]

theorem skip_two_amid (more : c.rest ≠ []) (further : c.next.rest ≠ []) : (c.amid s).skip 2 = (c.skip 2).amid s := by
  simp only [skip]
  rw [next_amid more, next_amid further]

/-- A given text that is read up to a place of the stretch is read in the stretch. -/
theorem eatText?_amid (found : (c.amid s).eatText? text = some x) (within : x ≤ e.amid s) :
    ∃ d, x = d.amid s ∧ c.eatText? text = some d := by
  induction text generalizing c with
  | nil =>
    obtain rfl := Option.some.inj found
    exact ⟨c, rfl, rfl⟩
  | cons ch text ih =>
    obtain ⟨between, first, second⟩ := Option.bind_eq_some_iff.mp found
    have lt := lt_of_eat? first
    have onward : between ≤ e.amid s := le_trans ⟨text, reads_eatText? second⟩ within
    have more : c < e := amid_lt_amid.mp (lt.trans_le onward)
    unfold eat? at first
    split at first
    · next head =>
      obtain rfl := Option.some.inj first
      rw [next_amid (ne_nil_of_lt more)] at second
      obtain ⟨d, place, reads⟩ := ih second
      refine ⟨d, place, ?_⟩
      rw [eatText?, eat?, if_pos (peek_of_amid more head)]
      exact reads
    · simp at first

theorem eatText?_amid_of_some (found : c.eatText? text = some d) : (c.amid s).eatText? text = some (d.amid s) := by
  induction text generalizing c with
  | nil =>
    obtain rfl := Option.some.inj found
    rfl
  | cons ch text ih =>
    obtain ⟨between, first, second⟩ := Option.bind_eq_some_iff.mp found
    unfold eat? at first
    split at first
    · next head =>
      obtain rfl := Option.some.inj first
      obtain ⟨rest, starts⟩ := peek_eq_some.mp head
      rw [eatText?, eat?, if_pos (peek_amid_of_some head), next_amid (by simp [starts])]
      exact ih second
    · simp at first

theorem eatText?_singleton (ch : Char) (c : Cursor) : c.eatText? [ch] = c.eat? ch := by
  simp only [eatText?]
  cases c.eat? ch <;> rfl

theorem eat?_amid (found : (c.amid s).eat? ch = some x) (within : x ≤ e.amid s) :
    ∃ d, x = d.amid s ∧ c.eat? ch = some d := by
  rw [← eatText?_singleton] at found ⊢
  exact eatText?_amid found within

theorem eat?_amid_of_some (found : c.eat? ch = some d) : (c.amid s).eat? ch = some (d.amid s) := by
  rw [← eatText?_singleton] at found ⊢
  exact eatText?_amid_of_some found

/-- What is missing in the larger text is missing alone. -/
theorem eq_none_of_amid {look look' : Option Cursor} (kept : ∀ d, look = some d → look' = some (d.amid s))
    (missing : look' = none) : look = none := by
  cases found : look with
  | none => rfl
  | some d => simp [kept d found] at missing

/-- What may follow is taken along alone where it is in the larger text, and only there. -/
theorem getD_of_amid {look look' : Option Cursor} (kept : ∀ d, look = some d → look' = some (d.amid s))
    (found : ∀ x, look' = some x → x ≤ e.amid s → ∃ d, x = d.amid s ∧ look = some d)
    (ends : look'.getD (c.amid s) = e.amid s) : look.getD c = e := by
  cases after : look' with
  | none =>
    rw [after, Option.getD_none] at ends
    rw [eq_none_of_amid kept after, Option.getD_none, amid_inj.mp ends]
  | some x =>
    rw [after, Option.getD_some] at ends
    obtain ⟨d, rfl, here⟩ := found x after (le_of_eq ends)
    rw [here, Option.getD_some, amid_inj.mp ends]

theorem finish_of_amid (last : (c.amid s).finish = d.amid s) : c.finish = d := by
  obtain ⟨pos, empty⟩ := Cursor.mk.inj last
  obtain ⟨ends, nothing⟩ := List.append_eq_nil_iff.mp empty.symm
  cases d
  simp only [amid_rest, amid_pos, nothing, List.append_nil] at pos ends
  rw [finish, ends]
  congr 1
  omega

/-! ## Runs of characters -/

/-- A run of characters that ends in the stretch is the run in the stretch alone. -/
theorem skipWhile_of_amid {p : Char → Bool} (runs : (c.amid s).skipWhile p = d.amid s) : c.skipWhile p = d := by
  obtain ⟨text, reads, all, stops⟩ := skipWhile_eq_iff.mp runs
  exact skipWhile_eq_iff.mpr
    ⟨text, reads_amid_iff.mp reads, all, fun ch head => stops ch (peek_amid_of_some head)⟩

theorem skipWhile_amid_of_le {p : Char → Bool} (within : (c.amid s).skipWhile p ≤ e.amid s) :
    (c.amid s).skipWhile p = (c.skipWhile p).amid s := by
  obtain ⟨d, place, _, _⟩ := exists_amid (le_skipWhile p (c.amid s)) within
  rw [place, skipWhile_of_amid place]

theorem skipBlank_amid_of_le (within : (c.amid s).skipBlank ≤ e.amid s) : (c.amid s).skipBlank = c.skipBlank.amid s :=
  skipWhile_amid_of_le within

theorem skipInlineBlank_amid_of_le (within : (c.amid s).skipInlineBlank ≤ e.amid s) :
    (c.amid s).skipInlineBlank = c.skipInlineBlank.amid s :=
  skipWhile_amid_of_le within

/-- A run of characters that ends before the stretch does is the run in the larger text. -/
theorem skipWhile_amid {p : Char → Bool} (more : (c.skipWhile p).rest ≠ []) :
    (c.amid s).skipWhile p = (c.skipWhile p).amid s := by
  obtain ⟨text, reads, all, stops⟩ := skipWhile_eq_iff.mp (rfl : c.skipWhile p = c.skipWhile p)
  refine skipWhile_eq_iff.mpr ⟨text, reads_amid_iff.mpr reads, all, ?_⟩
  intro ch head
  exact stops ch (by rwa [peek_amid more] at head)

/-- What follows a run of characters alone follows it in the larger text. -/
theorem skipWhile_eatText?_amid_of_some {p : Char → Bool} (nonempty : text ≠ [])
    (found : (c.skipWhile p).eatText? text = some d) : ((c.amid s).skipWhile p).eatText? text = some (d.amid s) := by
  have lt := lt_of_reads (reads_eatText? found) nonempty
  rw [skipWhile_amid (ne_nil_of_lt lt)]
  exact eatText?_amid_of_some found

theorem skipWhile_eat?_amid_of_some {p : Char → Bool} (found : (c.skipWhile p).eat? ch = some d) :
    ((c.amid s).skipWhile p).eat? ch = some (d.amid s) := by
  rw [← eatText?_singleton] at found ⊢
  exact skipWhile_eatText?_amid_of_some (by simp) found

theorem skipWhile_eatText?_amid {p : Char → Bool} (found : ((c.amid s).skipWhile p).eatText? text = some x)
    (within : x ≤ e.amid s) : ∃ d, x = d.amid s ∧ (c.skipWhile p).eatText? text = some d := by
  have onward : (c.amid s).skipWhile p ≤ e.amid s := le_trans ⟨text, reads_eatText? found⟩ within
  rw [skipWhile_amid_of_le onward] at found
  exact eatText?_amid found within

theorem skipWhile_eat?_amid {p : Char → Bool} (found : ((c.amid s).skipWhile p).eat? ch = some x)
    (within : x ≤ e.amid s) : ∃ d, x = d.amid s ∧ (c.skipWhile p).eat? ch = some d := by
  rw [← eatText?_singleton] at found ⊢
  exact skipWhile_eatText?_amid found within

/-- A character after white space is taken along alone where it is in the larger text. -/
theorem getD_skipWhile_eat?_of_amid {p : Char → Bool}
    (ends : (((c.amid s).skipWhile p).eat? ch).getD (c.amid s) = e.amid s) : ((c.skipWhile p).eat? ch).getD c = e :=
  getD_of_amid (fun _ found => skipWhile_eat?_amid_of_some found) (fun _ => skipWhile_eat?_amid) ends

theorem skipWhile_peek_amid_of_some {p : Char → Bool} (head : (c.skipWhile p).peek = some ch) :
    ((c.amid s).skipWhile p).peek = some ch := by
  obtain ⟨rest, starts⟩ := peek_eq_some.mp head
  rw [skipWhile_amid (by simp [starts])]
  exact peek_amid_of_some head

theorem skipIdent_of_amid (ident : (c.amid s).skipIdent = d.amid s) : c.skipIdent = d := by
  have le : c ≤ d := amid_le_amid.mp (ident ▸ le_skipIdent (c.amid s))
  cases starts : c.rest with
  | nil =>
    have stays : c.skipIdent = c := by simp [skipIdent, starts]
    rw [stays, eq_of_le_of_rest_eq_nil le starts]
  | cons ch rest =>
    simp only [skipIdent, amid_rest, starts, List.cons_append] at ident ⊢
    split at ident
    · next start =>
      rw [next_amid (by simp [starts])] at ident
      rw [if_pos start, skipWhile_of_amid ident]
    · next other => rw [if_neg other, amid_inj.mp ident]

theorem skipIdent_amid_of_le (within : (c.amid s).skipIdent ≤ e.amid s) :
    (c.amid s).skipIdent = c.skipIdent.amid s := by
  obtain ⟨d, place, _, _⟩ := exists_amid (le_skipIdent (c.amid s)) within
  rw [place, skipIdent_of_amid place]

theorem skipIdent_amid (more : c.skipIdent.rest ≠ []) : (c.amid s).skipIdent = c.skipIdent.amid s := by
  cases starts : c.rest with
  | nil =>
    have stays : c.skipIdent = c := by simp [skipIdent, starts]
    rw [stays] at more
    exact absurd starts more
  | cons ch rest =>
    simp only [skipIdent, amid_rest, starts, List.cons_append] at more ⊢
    split
    · next start =>
      rw [if_pos start] at more
      rw [next_amid (by simp [starts]), skipWhile_amid more]
    · rfl

/-- A name with dots that ends in the stretch is read in the stretch alone. -/
theorem skipTagName_go_of_amid {pos : Nat} (le : (⟨pos, text⟩ : Cursor) ≤ d)
    (name : skipTagName.go (s.before + pos) (text ++ s.after) = d.amid s) : skipTagName.go pos text = d := by
  induction text generalizing pos with
  | nil => rw [skipTagName.go, eq_of_le_of_rest_eq_nil le rfl]
  | cons ch rest ih =>
    rw [List.cons_append, skipTagName.go] at name
    rw [skipTagName.go]
    split at name
    · next goesOn =>
      rw [Nat.add_assoc] at name
      have further : (⟨pos + ch.utf8Size, rest⟩ : Cursor).amid s ≤ d.amid s := by
        rw [← name]
        exact le_skipTagName_go _ _
      have alone : (isIdentPart ch || (ch == '.' && rest.head?.any isIdentStart)) = true := by
        cases rest with
        | cons first more => exact goesOn
        | nil =>
          -- A dot is read only in front of a word, whose first letter is read as well: the name would end further on.
          by_contra stops
          have isDot : isIdentPart ch = false := by simpa using stops
          simp only [isDot, Bool.false_or, List.nil_append, Bool.and_eq_true] at goesOn
          cases here : s.after with
          | nil => simp [here] at goesOn
          | cons first more =>
            have start : isIdentStart first = true := by simpa [here] using goesOn.2
            have beyond := length_le (le_skipTagName_go (s.before + (pos + ch.utf8Size) + first.utf8Size) more)
            rw [List.nil_append, here, skipTagName.go, isIdentPart_of_isIdentStart start, Bool.true_or, if_pos rfl] at name
            rw [name, amid_rest, here] at beyond
            simp at beyond
            omega
      rw [if_pos alone]
      exact ih (amid_le_amid.mp further) name
    · next stops =>
      have alone : ¬(isIdentPart ch || (ch == '.' && rest.head?.any isIdentStart)) = true := by
        intro goesOn
        apply stops
        cases rest with
        | nil => simp only [List.head?_nil, Option.any_none, Bool.and_false, Bool.or_false] at goesOn; simp [goesOn]
        | cons first more => exact goesOn
      have here : (⟨pos, ch :: rest⟩ : Cursor).amid s = d.amid s := name
      rw [if_neg alone, amid_inj.mp here]

theorem skipTagName_of_amid (name : (c.amid s).skipTagName = d.amid s) : c.skipTagName = d :=
  skipTagName_go_of_amid (amid_le_amid.mp (name ▸ le_skipTagName (c.amid s))) name

theorem skipTagName_amid_of_le (within : (c.amid s).skipTagName ≤ e.amid s) :
    (c.amid s).skipTagName = c.skipTagName.amid s := by
  obtain ⟨d, place, _, _⟩ := exists_amid (le_skipTagName (c.amid s)) within
  rw [place, skipTagName_of_amid place]

/-! ## Marks -/

theorem atSigil_of_amid (lt : c < d) (sigil : (c.amid s).atSigil = true) : c.atSigil = true := by
  simp only [atSigil, Bool.and_eq_true, beq_iff_eq, Bool.not_eq_true'] at sigil ⊢
  refine ⟨peek_of_amid lt sigil.1, ?_⟩
  cases escape : c.atEscape with
  | false => rfl
  | true =>
    obtain ⟨rest, starts⟩ := startsWith_iff.mp escape
    have larger : (c.amid s).atEscape = true :=
      startsWith_iff.mpr ⟨rest ++ s.after, by rw [amid_rest, starts, List.append_assoc]⟩
    rw [larger] at sigil
    simp at sigil

theorem opensTag_append {rest : List Char} (more : List Char) (opens : opensTag rest = true) :
    opensTag (rest ++ more) = true := by
  cases rest with
  | nil => simp [opensTag] at opens
  | cons first rest => exact opens

theorem closesTag_append {rest : List Char} (more : List Char) (closes : closesTag rest = true) :
    closesTag (rest ++ more) = true := by
  unfold closesTag at closes
  split at closes
  · exact opensTag_append more closes
  · simp at closes

theorem atTagOpen_of_amid (lt : c < d) (further : c.next < e) (opens : (c.amid s).atTagOpen = true) :
    c.atTagOpen = true := by
  simp only [atTagOpen, Bool.and_eq_true, beq_iff_eq] at opens ⊢
  refine ⟨peek_of_amid lt opens.1, ?_⟩
  rw [next_amid (ne_nil_of_lt lt), amid_rest] at opens
  obtain ⟨first, rest, starts⟩ := List.exists_cons_of_ne_nil (ne_nil_of_lt further)
  rw [starts] at opens ⊢
  exact opens.2

/-- A comment that closes in the stretch closes there alone. -/
theorem commentClose?_go_of_amid {pos : Nat} {rest : List Char} (le : (⟨pos, text⟩ : Cursor) ≤ d)
    (found : commentClose?.go (s.before + pos) (text ++ s.after) = some (d.amid s)) (mark : d.rest = '*' :: '@' :: rest) :
    commentClose?.go pos text = some d := by
  induction text generalizing pos with
  | nil => simp [eq_of_le_of_rest_eq_nil le rfl] at mark
  | cons ch text ih =>
    by_cases here : (⟨pos, ch :: text⟩ : Cursor) = d
    · obtain ⟨rfl, rfl⟩ := List.cons.inj ((congrArg Cursor.rest here).trans mark)
      rw [commentClose?.go, here]
    · have other : ∀ more, ch :: (text ++ s.after) ≠ '*' :: '@' :: more := by
        intro more starts
        rw [List.cons_append, starts, commentClose?.go] at found
        have place : (⟨pos, ch :: text⟩ : Cursor).amid s = d.amid s := by
          simpa [amid, starts] using found
        exact here (amid_inj.mp place)
      have alone : ∀ more, ch :: text ≠ '*' :: '@' :: more := by
        intro more starts
        obtain ⟨rfl, rfl⟩ := List.cons.inj starts
        exact other (more ++ s.after) rfl
      rw [List.cons_append, commentClose?.go] at found
      · rw [commentClose?.go]
        · rw [Nat.add_assoc] at found
          exact ih (next_le_of_lt (lt_of_le_of_ne le here)) found
        · exact fun more first rest => alone more (by rw [first, rest])
      · exact fun more first rest => other more (by rw [first, rest])

theorem commentClose?_of_amid {rest : List Char} (found : (c.amid s).commentClose? = some (d.amid s))
    (mark : d.rest = '*' :: '@' :: rest) : c.commentClose? = some d :=
  commentClose?_go_of_amid (amid_le_amid.mp (le_of_commentClose? found)) found mark

/-! ## Texts between places -/

theorem textTo_amid (le : c ≤ d) : (c.amid s).textTo (d.amid s) = c.textTo d :=
  (reads_amid_iff.mpr (reads_textTo le)).textTo_eq

theorem upTo_amid (le : c ≤ d) : (c.amid s).upTo (d.amid s) = (c.upTo d).moved s.before := by
  rw [upTo, textTo_amid le]
  rfl

/-- What can be read before a place, with what can be read from there on. -/
theorem amid_upTo (le : c ≤ d) : (c.upTo d).amid ⟨0, d.rest⟩ = c := by
  have reads := reads_textTo le
  simp only [upTo, amid, Nat.zero_add, ← reads.rest_eq]

theorem amid_finish_upTo (le : c ≤ d) : (c.upTo d).finish.amid ⟨0, d.rest⟩ = d := by
  have reads := reads_textTo le
  simp only [upTo, finish, amid, Nat.zero_add, List.nil_append, ← reads.pos_eq]

/-- In a source that ends at a place, an offset before it reads up to there. -/
theorem ofOffset?_textTo {source : List Char} (place : ofText source ≤ c) (le : c ≤ d) :
    ofOffset? ((ofText source).textTo d) c.pos = some (c.upTo d) := by
  obtain ⟨before, start⟩ := place
  have pos : c.pos = byteLength before := by simpa [ofText] using start.pos_eq
  rw [(start.trans (reads_textTo le)).textTo_eq, ofOffset?, pos, dropBytes?_append, Option.map_some, ← pos]
  rfl

theorem finish_eq_of_le (le : c ≤ d) : d.finish = c.finish := by
  rw [finish, finish, pos_add_rest le]

theorem le_finish_of_le (le : c ≤ d) : d ≤ c.finish := finish_eq_of_le le ▸ le_finish d

end Cursor

end SigilTemplate
