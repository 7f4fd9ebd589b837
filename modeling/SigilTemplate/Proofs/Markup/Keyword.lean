import SigilTemplate.Markup.Keyword
import SigilTemplate.Proofs.Text.Order

/-!
Keywords where they stand: the word is the identifier at a place, and what must
follow it is looked for at the end of that identifier.
-/

namespace SigilTemplate
open Text

/-- The character after the identifier at a place. -/
theorem Cursor.peek_skipIdent (c : Cursor) : c.skipIdent.peek = c.rest[(identHead c.rest).length]? := by
  have split : c.rest = identHead c.rest ++ c.skipIdent.rest := (reads_skipIdent c).rest_eq
  calc
    c.skipIdent.peek = (identHead c.rest ++ c.skipIdent.rest)[(identHead c.rest).length]? := by
      rw [List.getElem?_append_right (Nat.le_refl _), Nat.sub_self, peek, List.head?_eq_getElem?]
    _ = c.rest[(identHead c.rest).length]? := by rw [← split]

namespace Keyword

/-- The keyword with a given spelling. -/
def ofWord? (name : List Char) : Option Keyword := all.find? fun keyword => keyword.word.toList == name

theorem recognize?_rest (c : Cursor) :
    recognize? c.rest = (ofWord? (identHead c.rest)).filter fun keyword => keyword.follow.accepts c.skipIdent.peek := by
  rw [Cursor.peek_skipIdent]
  rfl

theorem word_of_ofWord? {name : List Char} {keyword : Keyword} (found : ofWord? name = some keyword) :
    keyword.word.toList = name :=
  beq_iff_eq.mp (List.find?_some (p := fun keyword : Keyword => keyword.word.toList == name) found)

theorem identHead_of_recognize? {text : List Char} {keyword : Keyword} (found : recognize? text = some keyword) :
    identHead text = keyword.word.toList :=
  (word_of_ofWord? (Option.filter_eq_some_iff.mp found).1).symm

theorem lt_skipIdent_of_recognize? {c : Cursor} {keyword : Keyword} (found : recognize? c.rest = some keyword) :
    c < c.skipIdent := by
  apply Cursor.lt_of_reads (Cursor.reads_skipIdent c)
  rw [identHead_of_recognize? found]
  cases keyword <;> decide

/-- The place after an `if` is two characters further on. -/
theorem reads_skip_two_of_recognize? {c : Cursor} (found : recognize? c.rest = some .ifBlock) :
    c.Reads ['i', 'f'] (c.skip 2) := by
  have reads := Cursor.reads_skipIdent c
  rw [identHead_of_recognize? found] at reads
  exact Cursor.reads_skip reads.rest_eq

end Keyword

end SigilTemplate
