import SigilTemplate.Corpus
import SigilTemplate.Proofs.Outline.Layout
import SigilTemplate.Proofs.Text.Lines

/-!
What accepting a corpus keeps. Entries that have been read can be written and
read again: a title is one line, no line of a source is a rule of dashes, and no
line of an outline is a rule of equals signs, since each of them has a
parenthesis. So a corpus that has been accepted has the entries it had before,
and accepting it once more changes nothing.
-/

namespace SigilTemplate
open Text

namespace Corpus

variable {line text : List Char} {mark : Char} {entry : Entry}

/-! ## Rules and joined lines -/

/-- A line that is read back as it is written. -/
structure Whole (line : List Char) : Prop where
  unbroken : '\n' ∉ line
  uncut : line.getLast? ≠ some '\r'

theorem isRule_rule (mark : Char) : isRule mark (rule mark) = true := by
  simp [isRule, rule]

theorem isRule_eq_false_of_mem {ch : Char} (among : ch ∈ line) (other : ch ≠ mark) : isRule mark line = false := by
  have fails : line.all (· == mark) = false := List.all_eq_false.mpr ⟨ch, among, by simpa using other⟩
  rw [isRule, fails, Bool.and_false]

theorem isRule_rule_of_ne {other : Char} (different : mark ≠ other) : isRule other (rule mark) = false :=
  isRule_eq_false_of_mem (List.mem_replicate.mpr ⟨by decide, rfl⟩) different

theorem isRule_nil (mark : Char) : isRule mark [] = false := rfl

theorem whole_rule (line : mark ≠ '\n') (carriage : mark ≠ '\r') : Whole (rule mark) := by
  constructor
  · intro among
    exact line (List.eq_of_mem_replicate among).symm
  · intro last
    exact carriage (List.eq_of_mem_replicate (List.mem_of_getLast? last)).symm

theorem whole_nil : Whole [] := ⟨by simp, by simp⟩

theorem joinLines_cons_cons (first second : List Char) (others : List (List Char)) :
    joinLines (first :: second :: others) = first ++ '\n' :: joinLines (second :: others) := by
  simp [joinLines, List.intercalate_cons_cons]

/-- Joined lines are read back. -/
theorem lines_joinLines {sourceLines : List (List Char)} (nonempty : sourceLines ≠ [])
    (whole : ∀ line ∈ sourceLines, Whole line) (rest : List Char) :
    lines (joinLines sourceLines ++ '\n' :: rest) = sourceLines ++ lines rest := by
  induction sourceLines with
  | nil => exact absurd rfl nonempty
  | cons first others ih =>
    have own := whole first (by simp)
    cases others with
    | nil =>
      have single : joinLines [first] = first := List.intercalate_singleton
      rw [single, lines_lineFeed own.unbroken, chomp_eq_self own.uncut]
      rfl
    | cons second others =>
      have onward := ih (by simp) fun line among => whole line (List.mem_cons_of_mem _ among)
      rw [joinLines_cons_cons, List.append_assoc, List.cons_append, lines_lineFeed own.unbroken,
        chomp_eq_self own.uncut, onward]
      rfl

/-! ## Trimmed text -/

theorem trimStart_eq_self (solid : ∀ ch ∈ text.head?, isBlank ch = false) : trimStart text = text := by
  cases text with
  | nil => rfl
  | cons ch text => exact List.dropWhile_cons_of_neg (by simp [solid ch rfl])

/-- White space at the end goes, up to what is none. -/
theorem trimEnd_append_blanks {ch : Char} {blanks : List Char} (solid : isBlank ch = false)
    (blank : ∀ ch ∈ blanks, isBlank ch = true) : trimEnd (text ++ ch :: blanks) = text ++ [ch] := by
  have backwards : (text ++ ch :: blanks).reverse = blanks.reverse ++ ch :: text.reverse := by simp
  rw [trimEnd, backwards, List.dropWhile_append_of_pos (by simpa using blank), List.dropWhile_cons_of_neg (by simp [solid])]
  simp

theorem trimEnd_eq_self (solid : ∀ ch ∈ text.getLast?, isBlank ch = false) : trimEnd text = text := by
  rcases List.eq_nil_or_concat text with rfl | ⟨front, ch, rfl⟩
  · rfl
  · rw [List.concat_eq_append] at solid ⊢
    exact trimEnd_append_blanks (solid ch (by simp)) (by simp)

/-- Trimming leaves what has been trimmed. -/
theorem trim_trim (text : List Char) : trim (trim text) = trim text := by
  obtain ⟨blanks, split, _⟩ := exists_trimEnd_append (trimStart text)
  have starts : ∀ ch ∈ (trim text).head?, isBlank ch = false := by
    intro ch head
    obtain ⟨rest, same⟩ := List.head?_eq_some_iff.mp head
    have stops := List.head?_dropWhile_not isBlank text
    have front : (text.dropWhile isBlank).head? = some ch := by
      rw [← trimStart, split, ← trim, same]
      rfl
    simpa [front] using stops
  have ends : ∀ ch ∈ (trim text).getLast?, isBlank ch = false := fun ch last => not_isBlank_of_getLast?_trimEnd last
  conv => lhs; rw [trim, trimStart_eq_self starts, trimEnd_eq_self ends]

theorem mem_of_mem_trim {ch : Char} (among : ch ∈ trim text) : ch ∈ text := by
  obtain ⟨blanks, split, _⟩ := exists_trimEnd_append (trimStart text)
  have inside : ch ∈ trimStart text := by
    rw [split]
    exact List.mem_append_left _ among
  exact (List.dropWhile_sublist _).mem inside

theorem whole_trim (unbroken : '\n' ∉ line) : Whole (trim line) := by
  constructor
  · exact fun among => unbroken (mem_of_mem_trim among)
  · intro last
    have solid := not_isBlank_of_getLast?_trimEnd last
    revert solid
    decide

/-! ## Entries that have been read -/

/-- What an entry has that has been read: its title is a line without white space around it, and its source is lines of
which none is a rule of dashes. -/
structure Entry.Proper (entry : Entry) : Prop where
  title : Whole entry.title
  trimmed : trim entry.title = entry.title
  source : ∃ sourceLines, sourceLines ≠ [] ∧ entry.source = joinLines sourceLines ∧
    ∀ line ∈ sourceLines, Whole line ∧ isRule '-' line = false

/-- The entries in whole lines. -/
theorem proper_of_mem_entriesOf {allLines : List (List Char)} (whole : ∀ line ∈ allLines, Whole line) :
    ∀ entry ∈ entriesOf allLines, entry.Proper := by
  fun_induction entriesOf allLines with
  | case1 rule title third rest starts source after ih =>
    have inRest (line : List Char) (among : line ∈ rest) : Whole line := whole line (by simp [among])
    have inAfter (line : List Char) (among : line ∈ after.dropWhile fun line => !isRule '=' line) : Whole line :=
      inRest line ((List.dropWhile_sublist _).mem ((List.dropWhile_sublist _).mem among))
    refine List.forall_mem_cons.mpr ⟨⟨whole_trim (whole title (by simp)).unbroken, trim_trim title, ?_⟩, ih inAfter⟩
    have lines (line : List Char) (among : line ∈ source) : Whole line ∧ isRule '-' line = false := by
      have all : source.all (fun line => !isRule '-' line) = true := List.all_takeWhile
      exact ⟨inRest line ((List.takeWhile_sublist _).mem among), by simpa using List.all_eq_true.mp all line among⟩
    cases empty : source with
    -- A source without lines is written as an empty line, which is read as a source of one empty line: the same text.
    | nil => exact ⟨[[]], by simp, rfl, by simp [whole_nil, isRule_nil]⟩
    | cons => exact ⟨source, by simp [empty], by rw [empty], lines⟩
  | case2 rule title third rest _ ih => exact ih fun line among => whole line (List.mem_cons_of_mem _ among)
  | case3 => simp

/-! ## What is expected of a source -/

/-- A text of lines each of which has a parenthesis, the last one at its end. -/
structure Parenthesized (text : List Char) : Prop where
  opens : ∀ line ∈ lines (text ++ ['\n']), '(' ∈ line
  closes : text.getLast? = some ')'

theorem parenthesized_of_line (unbroken : '\n' ∉ line) (opens : '(' ∈ line) (closes : line.getLast? = some ')') :
    Parenthesized line := by
  refine ⟨fun other among => ?_, closes⟩
  rw [lines_lineFeed unbroken] at among
  obtain rfl := List.mem_singleton.mp among
  exact mem_chomp opens (by decide)

/-- A text opens with an indented parenthesis. Its first line has the parenthesis, since a line ends at a line feed only. -/
theorem mem_of_indented {blanks after rest : List Char} (other : '\n' ∉ blanks)
    (ends : after = [] ∨ after.head? = some '\n') (same : line ++ after = blanks ++ '(' :: rest) : '(' ∈ line := by
  have stops {ch : Char} {more : List Char} (starts : after = ch :: more) : ch = '\n' := by
    rcases ends with empty | head
    · simp [empty] at starts
    · simpa [starts] using head
  rcases List.append_eq_append_iff.mp same with ⟨more, split, tail⟩ | ⟨more, split, tail⟩
  · cases more with
    | nil => exact absurd (stops tail) (by decide)
    | cons ch more =>
      obtain rfl := stops tail
      exact absurd (by simp [split]) other
  · cases more with
    | nil => exact absurd (stops tail.symm) (by decide)
    | cons ch more =>
      obtain ⟨rfl, _⟩ := List.cons.inj tail
      simp [split]

/-- Each line of an outline starts a group, so no line of it can be taken for a rule. -/
theorem parenthesized_of_laidOut (laidOut : Outline.LaidOut text) (closes : text.getLast? = some ')') :
    Parenthesized text := by
  refine ⟨fun line among => ?_, closes⟩
  obtain ⟨before, whole, after, split, starts, unbroken, ends⟩ := exists_of_mem_lines among
  rcases ends with ⟨rfl, head⟩ | ⟨rfl, nonempty, rfl⟩
  · rcases List.eq_nil_or_concat after with rfl | ⟨front, last, rfl⟩
    · simp at head
    · rw [List.concat_eq_append, ← List.append_assoc, ← List.append_assoc] at split
      obtain ⟨inside, _⟩ := List.append_inj' split rfl
      rw [List.append_assoc] at inside
      obtain ⟨rest, same⟩ := laidOut.indented before (whole ++ front) inside starts
      have opens : '(' ∈ whole := by
        refine mem_of_indented (by simp) ?_ same
        cases front with
        | nil => exact .inl rfl
        | cons => exact .inr (by simpa using head)
      exact mem_chomp opens (by decide)
  · rw [List.append_nil] at split
    have last := congrArg List.getLast? split
    rw [List.getLast?_append_of_ne_nil _ nonempty, List.getLast?_concat] at last
    exact absurd (List.mem_of_getLast? last.symm) unbroken

theorem parenthesized_fatal (cause : FaultCause) : Parenthesized ("(FATAL " ++ cause.name ++ ")").toList := by
  have unbroken : '\n' ∉ cause.name.toList := by cases cause <;> (rw [FaultCause.name]; decide)
  have split : ("(FATAL " ++ cause.name ++ ")").toList = "(FATAL ".toList ++ (cause.name.toList ++ [')']) := by simp
  rw [split]
  refine parenthesized_of_line (by simp [unbroken]) (List.mem_append_left _ (by decide)) ?_
  rw [← List.append_assoc, List.getLast?_concat]

theorem parenthesized_expectation (source : List Char) : Parenthesized (expectation source) := by
  rw [expectation]
  cases read : Tree.read {} source with
  | ok tree =>
    have written : tree.outlineText.toList = Outline.chars 0 tree.outline := String.toList_ofList
    simp only [written]
    refine parenthesized_of_laidOut (Tree.legible_outline (Tree.read_definite read)).laidOut ?_
    rw [Tree.outline, Outline.group, Outline.chars, List.getLast?_concat]
  | error fault => exact parenthesized_fatal fault.cause

/-! ## Entries as they are written -/

/-- An entry as it is written, without the empty line behind it. -/
def Entry.block (entry : Entry) : List Char :=
  rule '=' ++ '\n' :: (entry.title ++ '\n' :: (rule '=' ++ '\n' :: (entry.source ++ '\n' ::
    (rule '-' ++ '\n' :: '\n' :: (expectation entry.source ++ ['\n'])))))

theorem written_eq (entry : Entry) : entry.written = entry.block ++ ['\n'] := by
  simp [Entry.written, Entry.block]

theorem endsLine_block (entry : Entry) : EndsLine entry.block := by
  refine .inr ?_
  have last : entry.block = (rule '=' ++ '\n' :: (entry.title ++ '\n' :: (rule '=' ++ '\n' :: (entry.source ++ '\n' ::
    (rule '-' ++ '\n' :: '\n' :: expectation entry.source))))) ++ ['\n'] := by simp [Entry.block]
  rw [last, List.getLast?_concat]

theorem lines_block (entry : Entry) {sourceLines : List (List Char)} (title : Whole entry.title) (nonempty : sourceLines ≠ [])
    (joined : entry.source = joinLines sourceLines) (whole : ∀ line ∈ sourceLines, Whole line) :
    lines entry.block = rule '=' :: entry.title :: rule '=' :: (sourceLines ++ rule '-' :: [] ::
      lines (expectation entry.source ++ ['\n'])) := by
  have equals : Whole (rule '=') := whole_rule (by decide) (by decide)
  have dashes : Whole (rule '-') := whole_rule (by decide) (by decide)
  rw [Entry.block, lines_lineFeed equals.unbroken, lines_lineFeed title.unbroken, lines_lineFeed equals.unbroken,
    chomp_eq_self equals.uncut, chomp_eq_self title.uncut, joined, lines_joinLines nonempty whole,
    lines_lineFeed dashes.unbroken, chomp_eq_self dashes.uncut, lines_cons_lineFeed]

section
variable {passed rest : List (List Char)}

theorem takeWhile_to_rule (none : ∀ line ∈ passed, isRule mark line = false)
    (starts : ∀ line ∈ rest.head?, isRule mark line = true) :
    (passed ++ rest).takeWhile (fun line => !isRule mark line) = passed := by
  rw [List.takeWhile_append_of_pos fun line among => by simp [none line among]]
  cases rest with
  | nil => exact List.append_nil passed
  | cons line rest => rw [List.takeWhile_cons_of_neg (by simp [starts line rfl]), List.append_nil]

theorem dropWhile_to_rule (none : ∀ line ∈ passed, isRule mark line = false)
    (starts : ∀ line ∈ rest.head?, isRule mark line = true) :
    (passed ++ rest).dropWhile (fun line => !isRule mark line) = rest := by
  rw [List.dropWhile_append_of_pos fun line among => by simp [none line among]]
  cases rest with
  | nil => rfl
  | cons line rest => exact List.dropWhile_cons_of_neg (by simp [starts line rfl])

end

/-- An entry is read back from its lines, and what follows them is read on its own from the next rule on. -/
theorem entriesOf_lines_block (proper : entry.Proper) {gap rest : List (List Char)}
    (silent : ∀ line ∈ gap, isRule '=' line = false) (starts : ∀ line ∈ rest.head?, isRule '=' line = true) :
    entriesOf (lines entry.block ++ (gap ++ rest)) = entry :: entriesOf rest := by
  obtain ⟨sourceLines, nonempty, joined, legible⟩ := proper.source
  let expected := rule '-' :: [] :: lines (expectation entry.source ++ ['\n'])
  have laid : lines entry.block ++ (gap ++ rest) =
      rule '=' :: entry.title :: rule '=' :: (sourceLines ++ (expected ++ (gap ++ rest))) := by
    rw [lines_block entry proper.title nonempty joined fun line among => (legible line among).1]
    simp [expected]
  have inSource : ∀ line ∈ sourceLines, isRule '-' line = false := fun line among => (legible line among).2
  have dashes : ∀ line ∈ (expected ++ (gap ++ rest)).head?, isRule '-' line = true := by
    rintro _ ⟨⟩
    exact isRule_rule '-'
  have passed : ∀ line ∈ expected ++ gap, isRule '=' line = false := by
    refine List.forall_mem_append.mpr ⟨?_, silent⟩
    refine List.forall_mem_cons.mpr ⟨isRule_rule_of_ne (by decide), List.forall_mem_cons.mpr ⟨isRule_nil '=', ?_⟩⟩
    intro line among
    exact isRule_eq_false_of_mem ((parenthesized_expectation entry.source).opens line among) (by decide)
  rw [laid, entriesOf, if_pos (isRule_rule '='), takeWhile_to_rule inSource dashes, dropWhile_to_rule inSource dashes]
  simp only [← List.append_assoc, dropWhile_to_rule passed starts, proper.trimmed, ← joined]

/-! ## Corpora as they are written -/

/-- What is written for some entries, without the empty line at the end. -/
structure Body (read : List Entry) (body : List Char) : Prop where
  written : read.flatMap Entry.written = body ++ ['\n']
  ends : ∃ front, body = front ++ [')', '\n']
  starts : (lines body).head? = some (rule '=')
  reads : entriesOf (lines body) = read

theorem Entry.Proper.starts (proper : entry.Proper) : (lines entry.block).head? = some (rule '=') := by
  obtain ⟨sourceLines, nonempty, joined, legible⟩ := proper.source
  rw [lines_block entry proper.title nonempty joined fun line among => (legible line among).1]
  rfl

theorem body_block (proper : entry.Proper) : Body [entry] entry.block where
  written := by simp [written_eq]
  ends := by
    obtain ⟨front, last⟩ := List.getLast?_eq_some_iff.mp (parenthesized_expectation entry.source).closes
    refine ⟨rule '=' ++ '\n' :: (entry.title ++ '\n' :: (rule '=' ++ '\n' :: (entry.source ++ '\n' ::
      (rule '-' ++ '\n' :: '\n' :: front)))), ?_⟩
    simp [Entry.block, last]
  starts := proper.starts
  reads := by
    have reads : entriesOf (lines entry.block ++ ([] ++ [])) = entry :: entriesOf [] :=
      entriesOf_lines_block proper (by simp) (by simp)
    simpa [entriesOf] using reads

theorem Body.cons {read : List Entry} {body : List Char} (proper : entry.Proper) (later : Body read body) :
    Body (entry :: read) (entry.written ++ body) where
  written := by rw [List.flatMap_cons, later.written, List.append_assoc]
  ends := by
    obtain ⟨front, last⟩ := later.ends
    exact ⟨entry.written ++ front, by rw [last, List.append_assoc]⟩
  starts := by
    rw [written_eq, List.append_assoc, lines_append (endsLine_block entry), List.head?_append, proper.starts]
    rfl
  reads := by
    have empty : lines (['\n'] ++ body) = [[]] ++ lines body := lines_append (.inr rfl) body
    rw [written_eq, List.append_assoc, lines_append (endsLine_block entry), empty,
      entriesOf_lines_block proper (by simp [isRule_nil]) ?_, later.reads]
    rw [later.starts]
    rintro _ ⟨⟩
    exact isRule_rule '='

/-- Entries that have been read are written so that they can be read again. -/
theorem exists_body {read : List Entry} (nonempty : read ≠ []) (proper : ∀ entry ∈ read, entry.Proper) :
    ∃ body, Body read body := by
  induction read with
  | nil => exact absurd rfl nonempty
  | cons entry others ih =>
    have own := proper entry (by simp)
    cases others with
    | nil => exact ⟨_, body_block own⟩
    | cons second others =>
      obtain ⟨body, later⟩ := ih (by simp) fun entry among => proper entry (List.mem_cons_of_mem _ among)
      exact ⟨_, later.cons own⟩

theorem accept_eq {read : List Entry} {body : List Char} (same : entries text = read) (written : Body read body) :
    accept text = body := by
  obtain ⟨front, rfl⟩ := written.ends
  have ends : front ++ [')', '\n'] ++ ['\n'] = front ++ ')' :: ['\n', '\n'] := by simp
  have feed : isBlank '\n' = true := by decide
  rw [accept, same, written.written, ends, trimEnd_append_blanks (by decide) (by simp [feed])]
  simp

/-- Accepting a corpus keeps its entries, their titles, their sources and their order, and accepting it again changes
nothing. A line that would end in a carriage return even without its line end is set apart: it would lose that return
when it is written with a line feed alone. -/
theorem entries_accept (text : List Char) (uncut : ∀ line ∈ lines text, line.getLast? ≠ some '\r') :
    entries (accept text) = entries text ∧ accept (accept text) = accept text := by
  suffices kept : entries (accept text) = entries text from ⟨kept, by rw [accept, kept, ← accept]⟩
  have whole : ∀ line ∈ lines text, Whole line := fun line among => ⟨unbroken_of_mem_lines among, uncut line among⟩
  by_cases none : entries text = []
  · have nothing : accept text = ['\n'] := by
      rw [accept, none]
      rfl
    have empty : lines ['\n'] = [[]] := lines_cons_lineFeed []
    rw [nothing, none, entries, empty]
    simp [entriesOf]
  · obtain ⟨body, written⟩ := exists_body none (proper_of_mem_entriesOf whole)
    rw [accept_eq rfl written]
    exact written.reads

/-- Entries with a rule of equals signs in the source, without a source, and cut off by the end of the text. -/
def sample : List Char :=
  "===\n two words \r\n--\nx\n===\n---\nold\n====\n\n===\n---\n===\ncut\n===\n@y".toList

theorem entries_accept_sample :
    (∀ line ∈ lines sample, line.getLast? ≠ some '\r') ∧
      entries sample = [⟨"two words".toList, "x\n===".toList⟩, ⟨[], []⟩, ⟨"cut".toList, "@y".toList⟩] ∧
      entries (accept sample) = entries sample ∧ accept (accept sample) = accept sample :=
  ⟨by decide, by decide +kernel, entries_accept sample (by decide)⟩

end Corpus

end SigilTemplate
