import SigilTemplate.Proofs.Reading.Grammar
import SigilTemplate.Proofs.Reading.Sequence
import SigilTemplate.Proofs.Text.Letters

/-!
The names of component tags. A name is a sequence of identifiers joined by
single dots, the first of them with a capital. An opening tag ends its name with
white space, a `/` or a `>`, and a closing tag is its name and perhaps white
space between `</` and `>`; so a text tells by itself which name it opens with
and which it closes with.
-/

namespace SigilTemplate
open Text

/-- Identifiers joined by single dots. -/
inductive DottedName : List Char → Prop
  | word {ch : Char} {word : List Char} (start : isIdentStart ch = true) (parts : word.all isIdentPart = true) :
    DottedName (ch :: word)
  | dotted {ch : Char} {word rest : List Char} (start : isIdentStart ch = true) (parts : word.all isIdentPart = true)
      (further : DottedName rest) : DottedName (ch :: word ++ '.' :: rest)

/-- The name of a component tag starts with a capital of ASCII. -/
structure IsTagName (name : List Char) : Prop where
  dotted : DottedName name
  capital : name.head?.any Char.isUpper = true

/-- A character that ends the name of an opening tag. -/
def endsTagName (ch : Char) : Bool := isBlank ch || ch == '>' || ch == '/'

/-- The text begins with an opening tag of that name. -/
structure OpensWith (name text : List Char) : Prop where
  isName : IsTagName name
  starts : ∃ ch rest, text = '<' :: (name ++ ch :: rest) ∧ endsTagName ch = true

/-- The text ends with a closing tag of that name, behind `before`. -/
structure ClosesWith (name before text : List Char) : Prop where
  isName : IsTagName name
  ends : ∃ blanks, text = before ++ (['<', '/'] ++ name ++ blanks ++ ['>']) ∧ blanks.all isBlank = true

/-! ## Names that are read -/

/-- What is read goes on with a word that has begun, and begins one where a word can begin. -/
theorem reads_skipTagName_go (pos : Nat) (text : List Char) :
    ∃ name, Cursor.Reads ⟨pos, text⟩ name (Cursor.skipTagName.go pos text) ∧
      (∀ ch word, isIdentStart ch = true → word.all isIdentPart = true → DottedName (ch :: word ++ name)) ∧
      (text.head?.any isIdentStart = true → DottedName name) := by
  fun_induction Cursor.skipTagName.go pos text with
  | case1 pos =>
    refine ⟨[], .refl _, ?_, by simp⟩
    intro ch word start parts
    rw [List.append_nil]
    exact .word start parts
  | case2 pos ch rest goesOn ih =>
    obtain ⟨name, reads, extends_, begins⟩ := ih
    refine ⟨ch :: name, Cursor.Reads.trans (s := [ch]) ⟨rfl, by simp⟩ reads, ?_, ?_⟩
    · intro first word start parts
      by_cases part : isIdentPart ch = true
      · have longer := extends_ first (word ++ [ch]) start (by simp [parts, part])
        simpa using longer
      · have dot : (ch == '.' && rest.head?.any isIdentStart) = true := by simpa [part] using goesOn
        simp only [Bool.and_eq_true, beq_iff_eq] at dot
        obtain ⟨rfl, next⟩ := dot
        exact .dotted start parts (begins next)
    · intro start
      exact extends_ ch [] (by simpa using start) rfl
  | case3 pos ch rest stops =>
    refine ⟨[], .refl _, ?_, ?_⟩
    · intro first word start parts
      rw [List.append_nil]
      exact .word start parts
    · intro start
      have part : isIdentPart ch = true := isIdentPart_of_isIdentStart (by simpa using start)
      simp [part] at stops

/-- After a `<` or `</` that marks a tag, what is read is the name of a tag. -/
theorem Cursor.reads_skipTagName {c : Cursor} (opens : opensTag c.rest = true) :
    ∃ name, IsTagName name ∧ c.Reads name c.skipTagName := by
  obtain ⟨name, reads, _, begins⟩ := reads_skipTagName_go c.pos c.rest
  have start : c.rest.head?.any isIdentStart = true := by
    obtain ⟨ch, here, upper⟩ := (Option.any_eq_true _ _).mp opens
    rw [here]
    exact isIdentStart_of_isUpper upper
  refine ⟨name, ⟨begins start, ?_⟩, reads⟩
  have dotted := begins start
  have same : c.rest = name ++ c.skipTagName.rest := reads.rest_eq
  rw [opensTag, same] at opens
  cases dotted with
  | word | dotted => simpa using opens

/-! ## Which name a text opens and closes with -/

/-- A character of the name of a tag. -/
def isTagPart (ch : Char) : Bool := isIdentPart ch || ch == '.'

theorem DottedName.all_isTagPart {name : List Char} (dotted : DottedName name) : name.all isTagPart = true := by
  have word {ch : Char} {word : List Char} (start : isIdentStart ch = true) (parts : word.all isIdentPart = true) :
      (ch :: word).all isTagPart = true := by
    have first := isIdentPart_of_isIdentStart start
    rw [List.all_eq_true] at parts ⊢
    intro other member
    rcases List.mem_cons.mp member with rfl | among
    · simp [isTagPart, first]
    · simp [isTagPart, parts other among]
  induction dotted with
  | word start parts => exact word start parts
  | dotted start parts _ ih => simp only [List.all_append, word start parts, List.all_cons, ih, isTagPart]; decide

theorem DottedName.ne_nil {name : List Char} (dotted : DottedName name) : name ≠ [] := by
  cases dotted <;> simp

/-- No character of a name is blank or a mark of a tag. -/
theorem not_isTagPart_of_endsTagName {ch : Char} (ends : endsTagName ch = true) : isTagPart ch = false := by
  by_contra part
  rw [Bool.not_eq_false, isTagPart, Bool.or_eq_true, beq_iff_eq] at part
  rcases part with part | rfl
  · simp only [endsTagName, Bool.or_eq_true, beq_iff_eq] at ends
    rcases ends with (blank | rfl) | rfl
    · exact absurd blank (by simp [not_isBlank_of_isIdentPart part])
    · exact absurd part (by decide)
    · exact absurd part (by decide)
  · exact absurd ends (by decide)

theorem not_isTagPart_of_isBlank {ch : Char} (blank : isBlank ch = true) : isTagPart ch = false :=
  not_isTagPart_of_endsTagName (by simp [endsTagName, blank])

/-- The characters of a name are read as far as they go. -/
theorem IsTagName.takeWhile_eq {name rest : List Char} {ch : Char} (isName : IsTagName name)
    (ends : isTagPart ch = false) : (name ++ ch :: rest).takeWhile isTagPart = name := by
  have all := List.all_eq_true.mp isName.dotted.all_isTagPart
  rw [List.takeWhile_append_of_pos all, List.takeWhile_cons_of_neg (by simp [ends]), List.append_nil]

theorem OpensWith.takeWhile_eq {name text : List Char} (opens : OpensWith name text) :
    (text.drop 1).takeWhile isTagPart = name := by
  obtain ⟨ch, rest, rfl, ends⟩ := opens.starts
  exact opens.isName.takeWhile_eq (not_isTagPart_of_endsTagName ends)

/-- From its end, a text that closes a tag shows the name behind a `>` and white space. -/
theorem ClosesWith.takeWhile_eq {name before text : List Char} (closes : ClosesWith name before text) :
    ((text.reverse.drop 1).dropWhile isBlank).takeWhile isTagPart = name.reverse := by
  obtain ⟨blanks, rfl, blank⟩ := closes.ends
  have all : ∀ ch ∈ name.reverse, isTagPart ch = true := fun ch member =>
    List.all_eq_true.mp closes.isName.dotted.all_isTagPart ch (List.mem_reverse.mp member)
  have skips : ∀ ch ∈ blanks.reverse, isBlank ch = true := fun ch member =>
    List.all_eq_true.mp blank ch (List.mem_reverse.mp member)
  have backwards : (before ++ (['<', '/'] ++ name ++ blanks ++ ['>'])).reverse =
      '>' :: (blanks.reverse ++ (name.reverse ++ '/' :: '<' :: before.reverse)) := by simp
  rw [backwards, List.drop_one, List.tail_cons, List.dropWhile_append_of_pos skips]
  cases last : name.reverse with
  | nil => exact absurd (List.reverse_eq_nil_iff.mp last) closes.isName.dotted.ne_nil
  | cons ch front =>
    rw [last] at all
    have solid : ¬isBlank ch = true := fun blank => by
      simpa [all ch (by simp)] using not_isTagPart_of_isBlank blank
    rw [List.cons_append, List.dropWhile_cons_of_neg solid, ← List.cons_append, List.takeWhile_append_of_pos all,
      List.takeWhile_cons_of_neg (by decide), List.append_nil]

/-- A text opens with one name only. -/
theorem OpensWith.unique {name other text : List Char} (opens : OpensWith name text) (again : OpensWith other text) :
    name = other :=
  opens.takeWhile_eq.symm.trans again.takeWhile_eq

/-- A text closes with one name only. -/
theorem ClosesWith.unique {name other before front text : List Char} (closes : ClosesWith name before text)
    (again : ClosesWith other front text) : name = other :=
  List.reverse_inj.mp (closes.takeWhile_eq.symm.trans again.takeWhile_eq)

/-- A text that ends as a self-closing tag does has no closing tag at its end. -/
theorem not_closesWith_of_slash {name before front : List Char} :
    ¬ClosesWith name before (front ++ ['/', '>']) := by
  intro closes
  have empty := closes.takeWhile_eq
  have backwards : (front ++ ['/', '>']).reverse = '>' :: '/' :: front.reverse := by simp
  rw [backwards, List.drop_one, List.tail_cons, List.dropWhile_cons_of_neg (by decide),
    List.takeWhile_cons_of_neg (by decide)] at empty
  exact closes.isName.dotted.ne_nil (List.reverse_eq_nil_iff.mp empty.symm)

/-! ## Tags that are read -/

/-- Where white space is passed over, a blank comes first. -/
theorem Cursor.exists_blank_of_lt_skipBlank {c : Cursor} (gap : c.pos < c.skipBlank.pos) :
    ∃ first, c.peek = some first ∧ isBlank first = true := by
  have reads : c.Reads (c.rest.takeWhile isBlank) c.skipBlank := Cursor.reads_skipWhile isBlank c
  cases blanks : c.rest.takeWhile isBlank with
  | nil =>
    rw [reads.pos_eq, blanks, byteLength_nil] at gap
    omega
  | cons first more =>
    refine ⟨first, Cursor.peek_eq_some.mpr ⟨more ++ c.skipBlank.rest, by rw [reads.rest_eq, blanks]; rfl⟩, ?_⟩
    exact List.all_eq_true.mp (List.all_takeWhile (p := isBlank) (l := c.rest)) first (by rw [blanks]; simp)

/-- Behind the name of an opening tag the first attribute comes after white space. -/
theorem Attributes.eq_or_exists_blank {c place : Cursor} {arguments : List (Argument Node)}
    (attributes : Attributes c arguments place) : place = c ∨ ∃ first, c.peek = some first ∧ isBlank first = true := by
  induction attributes with
  | start => exact .inl rfl
  | more _ gap _ _ ih =>
    rcases ih with rfl | blank
    · exact .inr (Cursor.exists_blank_of_lt_skipBlank gap)
    · exact .inr blank

/-- An opening tag that ends in `ends`, perhaps after white space, opens with its name. -/
theorem Attributes.opensWith {c place d : Cursor} {arguments : List (Argument Node)} {text : List Char} {ch : Char}
    (opens : c.atTagOpen = true) (attributes : Attributes c.next.skipTagName arguments place)
    (head : place.skipBlank.peek = some ch) (ends : endsTagName ch = true) (reads : c.Reads text d)
    (inside : place.skipBlank < d) : OpensWith (c.next.textTo c.next.skipTagName) text := by
  have bracket := Cursor.peek_of_atTagOpen opens
  simp only [Cursor.atTagOpen, Bool.and_eq_true] at opens
  obtain ⟨name, isName, toEnd⟩ := Cursor.reads_skipTagName opens.2
  rw [toEnd.textTo_eq]
  refine ⟨isName, ?_⟩
  have first : ∃ first, c.next.skipTagName.peek = some first ∧ endsTagName first = true := by
    have blank {first : Char} (blank : isBlank first = true) : endsTagName first = true := by simp [endsTagName, blank]
    rcases attributes.eq_or_exists_blank with rfl | ⟨first, here, isBlank⟩
    · by_cases gap : c.next.skipTagName.pos < c.next.skipTagName.skipBlank.pos
      · obtain ⟨first, here, isBlank⟩ := Cursor.exists_blank_of_lt_skipBlank gap
        exact ⟨first, here, blank isBlank⟩
      · have stays : c.next.skipTagName = c.next.skipTagName.skipBlank := by
          by_contra moves
          exact gap (Cursor.pos_lt (lt_of_le_of_ne (Cursor.le_skipBlank _) moves))
        exact ⟨ch, stays ▸ head, ends⟩
    · exact ⟨first, here, blank isBlank⟩
  obtain ⟨first, here, ends⟩ := first
  have onward : c.next.skipTagName.next ≤ d :=
    Cursor.next_le_of_lt ((attributes.inOrder.le.trans (Cursor.le_skipBlank place)).trans_lt inside)
  obtain ⟨rest, further⟩ := onward
  have all := (Cursor.reads_next_of_peek bracket).trans (toEnd.trans ((Cursor.reads_next_of_peek here).trans further))
  refine ⟨first, rest, ?_, ends⟩
  have same := all.textTo_eq
  rw [reads.textTo_eq] at same
  simpa using same

/-- A complete closing tag is its name and white space between its marks. -/
theorem reads_readCloseTag {close : Cursor} (closes : close.atTagClose = true)
    (complete : (readCloseTag close).complete = true) :
    ∃ blanks, IsTagName (readCloseTag close).name.toList ∧ blanks.all isBlank = true ∧
      close.Reads (['<', '/'] ++ (readCloseTag close).name.toList ++ blanks ++ ['>']) (readCloseTag close).after := by
  have starts : ∃ rest, close.rest = ['<', '/'] ++ rest ∧ opensTag rest = true := by
    have bracket := Cursor.peek_of_atTagClose closes
    obtain ⟨rest, here⟩ := Cursor.peek_eq_some.mp bracket
    simp only [Cursor.atTagClose, Cursor.next, here, Bool.and_eq_true, closesTag] at closes
    obtain ⟨_, slash⟩ := closes
    split at slash
    · exact ⟨_, here, slash⟩
    · simp at slash
  obtain ⟨rest, here, capital⟩ := starts
  have marks : close.Reads ['<', '/'] (close.skip 2) := Cursor.reads_skip here
  have same : (close.skip 2).rest = rest := by
    have split := marks.rest_eq
    rw [here] at split
    exact (List.append_cancel_left split).symm
  obtain ⟨name, isName, toEnd⟩ := Cursor.reads_skipTagName (c := close.skip 2) (by rw [same]; exact capital)
  have blanks : (close.skip 2).skipTagName.Reads _ (close.skip 2).skipTagName.skipBlank := Cursor.reads_skipWhile isBlank _
  simp only [readCloseTag, toEnd.textTo_eq] at complete ⊢
  cases ends : (close.skip 2).skipTagName.skipBlank.eat? '>' with
  | none => simp [ends] at complete
  | some after =>
    simp only [String.toList_ofList]
    exact ⟨_, isName, List.all_takeWhile, ((marks.trans toEnd).trans blanks).trans (Cursor.reads_eat? ends)⟩

end SigilTemplate
