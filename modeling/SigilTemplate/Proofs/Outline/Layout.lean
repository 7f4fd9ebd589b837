import SigilTemplate.Proofs.Outline.Determined
import SigilTemplate.Proofs.Outline.Printer
import SigilTemplate.Proofs.Tree.Preorder

/-!
How outlines are laid out. Someone who knows nothing of trees reads parentheses,
and passes over what is quoted; each line is then found to be indented by the
forms that are open before it, and the first form is open up to the last
character. A form is written in the same way at every depth, so the outline of a
tree is made of the outlines of its nodes, moved in by one step.
-/

namespace SigilTemplate
open Text

namespace Outline

/-! ## Reading parentheses -/

/-- Whether what is read stands between quotes. -/
inductive Quoting where
  | outside
  | inside
  /-- Between quotes, behind a backslash. -/
  | escaped
deriving DecidableEq

/-- What is known of an outline when some of it has been read: how many forms are open, and whether a quote is. -/
structure Standing where
  forms : Nat
  quoting : Quoting
deriving DecidableEq

def Standing.step (s : Standing) (ch : Char) : Standing :=
  match s.quoting with
  | .outside =>
    if ch = '"' then { s with quoting := .inside }
    else if ch = '(' then { s with forms := s.forms + 1 }
    else if ch = ')' then { s with forms := s.forms - 1 }
    else s
  | .inside =>
    if ch = '"' then { s with quoting := .outside }
    else if ch = '\\' then { s with quoting := .escaped }
    else s
  | .escaped => { s with quoting := .inside }

/-- What is known behind a text. -/
def Standing.after (s : Standing) (text : List Char) : Standing := text.foldl step s

/-- What is known of an outline behind the first part of it. -/
def standing (text : List Char) : Standing := Standing.after ⟨0, .outside⟩ text

/-- A text has one form in it. Each line begins with two spaces for each form that is open before it, and then with a
form; no quoted text goes over the end of a line; and the first form stays open up to the last character. -/
structure LaidOut (text : List Char) : Prop where
  indented : ∀ before line, text = before ++ line → before = [] ∨ before.getLast? = some '\n' →
    ∃ rest, line = List.replicate (2 * (standing before).forms) ' ' ++ '(' :: rest
  unbroken : ∀ before behind, text = before ++ '\n' :: behind → (standing before).quoting = .outside
  opened : ∀ before behind, text = before ++ behind → before ≠ [] → behind ≠ [] → 0 < (standing before).forms
  closed : standing text = ⟨0, .outside⟩

variable {s e m : Standing} {low depth : Nat} {q q' q'' : Quoting} {first second text : List Char} {ch : Char}

@[simp]
theorem Standing.after_nil (s : Standing) : s.after [] = s := rfl

@[simp]
theorem Standing.after_cons (s : Standing) (ch : Char) (rest : List Char) :
    s.after (ch :: rest) = (s.step ch).after rest := rfl

@[simp]
theorem Standing.after_append (s : Standing) (first second : List Char) :
    s.after (first ++ second) = (s.after first).after second := List.foldl_append

/-! ## On one line -/

/-- A text that opens no form and closes none, and that has no line break in it. -/
structure OnLine (depth : Nat) (q : Quoting) (text : List Char) (q' : Quoting) : Prop where
  reads : Standing.after ⟨depth, q⟩ text = ⟨depth, q'⟩
  level : ∀ before behind, text = before ++ behind → (Standing.after ⟨depth, q⟩ before).forms = depth
  unbroken : '\n' ∉ text

theorem OnLine.nil : OnLine depth q [] q := by
  refine ⟨rfl, ?_, by simp⟩
  intro before behind split
  obtain ⟨rfl, _⟩ := List.append_eq_nil_iff.mp split.symm
  rfl

theorem OnLine.cons (step : Standing.step ⟨depth, q⟩ ch = ⟨depth, q'⟩) (line : ch ≠ '\n')
    (rest : OnLine depth q' text q'') : OnLine depth q (ch :: text) q'' := by
  refine ⟨?_, ?_, ?_⟩
  · rw [Standing.after_cons, step, rest.reads]
  · intro before behind split
    cases before with
    | nil => rfl
    | cons other before =>
      obtain ⟨rfl, same⟩ := List.cons.inj split
      rw [Standing.after_cons, step]
      exact rest.level before behind same
  · simp [line.symm, rest.unbroken]

theorem OnLine.append (left : OnLine depth q first q') (right : OnLine depth q' second q'') :
    OnLine depth q (first ++ second) q'' := by
  refine ⟨?_, ?_, ?_⟩
  · rw [Standing.after_append, left.reads, right.reads]
  · intro before behind split
    rcases List.append_eq_append_iff.mp split with ⟨more, rfl, same⟩ | ⟨more, rfl, _⟩
    · rw [Standing.after_append, left.reads]
      exact right.level more behind same
    · exact left.level before more rfl
  · simp [left.unbroken, right.unbroken]

/-- Characters that do nothing where they stand. -/
theorem OnLine.run {p : Char → Bool} (each : text.all p = true)
    (idle : ∀ ch, p ch = true → Standing.step ⟨depth, q⟩ ch = ⟨depth, q⟩ ∧ ch ≠ '\n') : OnLine depth q text q := by
  induction text with
  | nil => exact .nil
  | cons ch text ih =>
    rw [List.all_cons, Bool.and_eq_true] at each
    obtain ⟨step, line⟩ := idle ch each.1
    exact .cons step line (ih each.2)

theorem OnLine.word {word : String} (isWord : IsWord word) : OnLine depth .outside word.toList .outside := by
  refine .run isWord fun ch plain => ?_
  simp only [isWordChar, Bool.and_eq_true, bne_iff_ne] at plain
  obtain ⟨⟨⟨⟨_, quote⟩, line⟩, opens⟩, closes⟩ := plain
  simp [Standing.step, quote, line, opens, closes]

theorem idle_inside (quote : ch ≠ '"') (slash : ch ≠ '\\') : Standing.step ⟨depth, .inside⟩ ch = ⟨depth, .inside⟩ := by
  simp [Standing.step, quote, slash]

/-- A backslash takes away the meaning of the character behind it. -/
theorem OnLine.escape (line : ch ≠ '\n') (rest : OnLine depth .inside text q) :
    OnLine depth .inside ('\\' :: ch :: text) q :=
  .cons rfl (by decide) (.cons rfl line rest)

/-- A digit of a code point between quotes. -/
def isHexDigit (ch : Char) : Bool := ch != '"' && ch != '\\' && ch != '\n'

theorem isHexDigit_hexDigit : ∀ n < 16, isHexDigit (hexDigit n) = true := by decide

theorem OnLine.codePoint (n : Nat) : OnLine depth .inside (['\\', 'u', '{'] ++ hexDigitsOnto ['}'] n) .inside := by
  rw [hexDigitsOnto_eq]
  have digits : OnLine depth .inside (hexDigitsOnto [] n) .inside := by
    refine .run (all_hexDigitsOnto isHexDigit_hexDigit n) fun ch digit => ?_
    simp only [isHexDigit, Bool.and_eq_true, bne_iff_ne] at digit
    exact ⟨idle_inside digit.1.1 digit.1.2, digit.2⟩
  have mark : OnLine depth .inside ['}'] .inside := .cons rfl (by decide) .nil
  exact .escape (by decide) (.cons rfl (by decide) (digits.append mark))

/-- A quoted character leaves what is read between quotes. -/
theorem OnLine.quoteChar (ch : Char) : OnLine depth .inside (quoteChar ch) .inside := by
  unfold Text.quoteChar
  split_ifs with zero tab carriage line quote slash shown
  · exact .escape (by decide) .nil
  · exact .escape (by decide) .nil
  · exact .escape (by decide) .nil
  · exact .escape (by decide) .nil
  · exact .escape (by decide) .nil
  · exact .escape (by decide) .nil
  · exact .cons (idle_inside quote slash) line .nil
  · exact .codePoint ch.toNat

theorem OnLine.quote (text : List Char) : OnLine depth .outside (quote text) .outside := by
  have inside : OnLine depth .inside (text.flatMap Text.quoteChar) .inside := by
    induction text with
    | nil => exact .nil
    | cons ch text ih => exact (OnLine.quoteChar ch).append ih
  have mark : OnLine depth .inside ['"'] .outside := .cons rfl (by decide) .nil
  exact .cons rfl (by decide) (inside.append mark)

theorem OnLine.texts (texts : List String) : OnLine depth .outside (textChars texts) .outside := by
  induction texts with
  | nil => exact .nil
  | cons text texts ih => exact .cons rfl (by decide) ((OnLine.quote text.toList).append ih)

/-- What stands on the line of a form is read up to its end. -/
theorem OnLine.line {name : String} {texts : List String} {word : Option String} (isName : IsWord name)
    (isWord : ∀ text ∈ word, IsWord text) : OnLine depth .outside (line name texts word) .outside := by
  rw [line_eq]
  refine (OnLine.word isName).append ((OnLine.texts texts).append ?_)
  cases word with
  | none => exact .nil
  | some word =>
    have chars : wordChars (some word) = ' ' :: word.toList := by simp [wordChars]
    rw [chars]
    exact .cons rfl (by decide) (.word (isWord word rfl))

/-! ## Over several lines -/

/-- A stretch of an outline, from one standing to another. At least `low` forms are open behind each character of it,
and each line that begins in it is indented by the forms that are open, and then has a form. -/
structure Stretch (low : Nat) (s : Standing) (text : List Char) (e : Standing) : Prop where
  reads : s.after text = e
  above : ∀ before behind, text = before ++ behind → before ≠ [] → low ≤ (s.after before).forms
  lines : ∀ before behind, text = before ++ '\n' :: behind →
    (s.after before).quoting = .outside ∧
      ∃ rest, behind = List.replicate (2 * (s.after before).forms) ' ' ++ '(' :: rest

theorem Stretch.mono {low' : Nat} (le : low' ≤ low) (stretch : Stretch low s text e) : Stretch low' s text e :=
  ⟨stretch.reads, fun before behind split front => le.trans (stretch.above before behind split front), stretch.lines⟩

theorem OnLine.stretch (onLine : OnLine depth q text q') (enough : low ≤ depth) :
    Stretch low ⟨depth, q⟩ text ⟨depth, q'⟩ := by
  refine ⟨onLine.reads, ?_, ?_⟩
  · intro before behind split _
    rw [onLine.level before behind split]
    exact enough
  · rintro before behind rfl
    exact absurd onLine.unbroken (by simp)

theorem Stretch.single (line : ch ≠ '\n') (enough : low ≤ (s.step ch).forms) : Stretch low s [ch] (s.step ch) := by
  refine ⟨rfl, ?_, ?_⟩
  · intro before behind split front
    obtain ⟨rfl, _⟩ := List.append_eq_singleton_iff.mp split.symm |>.resolve_left (fun none => front none.1)
    exact enough
  · intro before behind split
    have member : '\n' ∈ [ch] := by simp [split]
    exact absurd (List.mem_singleton.mp member).symm line

theorem Stretch.append (left : Stretch low s first m) (right : Stretch low m second e) :
    Stretch low s (first ++ second) e := by
  refine ⟨?_, ?_, ?_⟩
  · rw [Standing.after_append, left.reads, right.reads]
  · intro before behind split front
    rcases List.append_eq_append_iff.mp split with ⟨more, rfl, same⟩ | ⟨more, rfl, _⟩
    · rw [Standing.after_append, left.reads]
      cases more with
      -- Behind the whole of the first stretch, it is the first that says how many forms are open.
      | nil =>
        have whole := left.above first [] (by simp) (by simpa using front)
        rwa [left.reads] at whole
      | cons => exact right.above _ behind same (by simp)
    · exact left.above before more rfl front
  · intro before behind split
    rcases List.append_eq_append_iff.mp split with ⟨more, rfl, same⟩ | ⟨more, rfl, same⟩
    · rw [Standing.after_append, left.reads]
      exact right.lines more behind same
    · cases more with
      | nil =>
        have here := right.lines [] behind same.symm
        rw [List.append_nil] at left
        rwa [← left.reads] at here
      | cons ch more =>
        obtain ⟨rfl, rfl⟩ := List.cons.inj same
        obtain ⟨outside, rest, rfl⟩ := left.lines before more rfl
        exact ⟨outside, rest ++ second, by simp⟩

/-- A form on a line of its own, indented by the forms that are open. -/
theorem Stretch.onNewLine {rest : List Char} (form : Stretch low ⟨depth, .outside⟩ ('(' :: rest) e)
    (enough : low ≤ depth) : Stretch low ⟨depth, .outside⟩ ('\n' :: (indent depth ++ '(' :: rest)) e := by
  have blank : OnLine depth .outside (indent depth) .outside := by
    refine .run (p := (· == ' ')) ?_ ?_
    · simp [indent]
    · intro ch space
      obtain rfl : ch = ' ' := by simpa using space
      exact ⟨rfl, by decide⟩
  have inner := (blank.stretch enough).append form
  refine ⟨inner.reads, ?_, ?_⟩
  · intro before behind split front
    cases before with
    | nil => exact absurd rfl front
    | cons ch before =>
      obtain ⟨rfl, same⟩ := List.cons.inj split
      cases before with
      | nil => exact enough
      | cons other before => exact inner.above (other :: before) behind same (by simp)
  · intro before behind split
    cases before with
    | nil =>
      obtain ⟨_, rfl⟩ := List.cons.inj split
      exact ⟨rfl, rest, rfl⟩
    | cons ch before =>
      obtain ⟨rfl, same⟩ := List.cons.inj split
      exact inner.lines before behind same

/-- An outline from its first parenthesis on, without the last: its own form stays open behind each character. -/
theorem Legible.exists_stretch {outline : Outline} (legible : outline.Legible) (depth : Nat) :
    ∃ front, chars depth outline = '(' :: front ++ [')'] ∧
      Stretch (depth + 1) ⟨depth, .outside⟩ ('(' :: front) ⟨depth + 1, .outside⟩ := by
  induction legible generalizing depth with
  | @form name texts word below isName isWord inside ih =>
    refine ⟨line name texts word ++ charsBelow (depth + 1) below, by simp [chars], ?_⟩
    have opens : Stretch (depth + 1) ⟨depth, .outside⟩ ['('] ⟨depth + 1, .outside⟩ := .single (by decide) (le_refl _)
    have own : Stretch (depth + 1) ⟨depth + 1, .outside⟩ (line name texts word) ⟨depth + 1, .outside⟩ :=
      (OnLine.line isName isWord).stretch (le_refl _)
    -- Each form below is read from one open form more, and leaves as many open as there were before it.
    have forms : Stretch (depth + 1) ⟨depth + 1, .outside⟩ (charsBelow (depth + 1) below) ⟨depth + 1, .outside⟩ := by
      clear inside
      induction below with
      | nil => exact OnLine.nil.stretch (le_refl _)
      | cons outline below onward =>
        obtain ⟨front, same, stretch⟩ := ih outline (by simp) (depth + 1)
        have closes : Stretch (depth + 1) ⟨depth + 2, .outside⟩ [')'] ⟨depth + 1, .outside⟩ :=
          .single (by decide) (le_refl _)
        have whole := ((stretch.mono (Nat.le_succ _)).append closes).onNewLine (le_refl _)
        have further := whole.append (onward fun outline member => ih outline (by simp [member]))
        simpa [charsBelow, same] using further
    exact opens.append (own.append forms)

/-- A legible outline is well laid out. -/
theorem Legible.laidOut {outline : Outline} (legible : outline.Legible) : LaidOut (chars 0 outline) := by
  obtain ⟨front, same, stretch⟩ := legible.exists_stretch 0
  have closes : Stretch 0 ⟨1, .outside⟩ [')'] ⟨0, .outside⟩ := .single (by decide) (le_refl _)
  have whole := (stretch.mono (Nat.zero_le 1)).append closes
  rw [same]
  refine ⟨?_, fun before behind split => (whole.lines before behind split).1, ?_, whole.reads⟩
  · intro before line split starts
    rcases starts with rfl | ends
    · exact ⟨front ++ [')'], split.symm⟩
    · obtain ⟨before, rfl⟩ := List.getLast?_eq_some_iff.mp ends
      obtain ⟨outside, rest, rfl⟩ := whole.lines before line (by simpa using split)
      have idle : standing (before ++ ['\n']) = Standing.after ⟨0, .outside⟩ before := by
        rw [standing, Standing.after_append, Standing.after_cons, Standing.after_nil, Standing.step, outside]
        rfl
      exact ⟨rest, by rw [idle]⟩
  · intro before behind split some more
    obtain ⟨shorter, last, rfl⟩ := (List.eq_nil_or_concat behind).resolve_left more
    rw [List.concat_eq_append, ← List.append_assoc] at split
    exact stretch.above before shorter (List.append_inj_left' split rfl) some

/-! ## Further in -/

/-- The lines of a text moved in by two spaces. The first stays where it is. -/
def deepen (text : List Char) : List Char := text.flatMap fun ch => if ch = '\n' then ['\n', ' ', ' '] else [ch]

theorem deepen_append (first second : List Char) : deepen (first ++ second) = deepen first ++ deepen second :=
  List.flatMap_append

theorem deepen_of_not_mem (unbroken : '\n' ∉ text) : deepen text = text := by
  induction text with
  | nil => rfl
  | cons ch text ih =>
    rw [List.mem_cons, not_or] at unbroken
    have same : deepen (ch :: text) = ch :: deepen text := by simp [deepen, Ne.symm unbroken.1]
    rw [same, ih unbroken.2]

/-- A line further in. -/
theorem deepen_newLine (depth : Nat) (rest : List Char) :
    deepen ('\n' :: (indent depth ++ rest)) = '\n' :: (indent (depth + 1) ++ deepen rest) := by
  have blank : deepen (indent depth) = indent depth := deepen_of_not_mem (by simp [indent])
  have more : indent (depth + 1) = ' ' :: ' ' :: indent depth := rfl
  have here : deepen ('\n' :: (indent depth ++ rest)) = '\n' :: ' ' :: ' ' :: deepen (indent depth ++ rest) := rfl
  rw [here, deepen_append, blank, more]
  rfl

/-- One step further in, an outline is written with its lines moved in. By induction on the outline. -/
theorem Legible.chars_succ {outline : Outline} (legible : outline.Legible) (depth : Nat) :
    chars (depth + 1) outline = deepen (chars depth outline) := by
  induction legible generalizing depth with
  | @form name texts word below isName isWord inside ih =>
    have forms : charsBelow (depth + 2) below = deepen (charsBelow (depth + 1) below) := by
      clear inside
      induction below with
      | nil => rfl
      | cons outline below onward =>
        have first := ih outline (by simp) (depth + 1)
        have others := onward fun outline member => ih outline (by simp [member])
        simp only [charsBelow, List.cons_append, List.append_assoc]
        rw [deepen_newLine, deepen_append, first, others]
    have own : deepen ('(' :: line name texts word) = '(' :: line name texts word := by
      have unbroken := (OnLine.line isName isWord : OnLine 0 .outside (line name texts word) .outside).unbroken
      exact deepen_of_not_mem (by simp [unbroken])
    rw [chars, chars, deepen_append, deepen_append, own, forms]
    rfl

theorem charsBelow_eq_flatMap (depth : Nat) (below : List Outline) :
    charsBelow depth below = below.flatMap fun outline => '\n' :: (indent depth ++ chars depth outline) := by
  induction below with
  | nil => rfl
  | cons outline below ih => simp [charsBelow, ih]

end Outline

open Outline

/-! ## Trees -/

theorem Node.toList_outlineText (node : Node) : node.outlineText.toList = chars 0 node.outline := String.toList_ofList

/-- The outline of a tree is made of those of its nodes. -/
theorem Tree.toList_outlineText {tree : Tree} (definite : ∀ node ∈ tree.nodes, node.Definite) :
    tree.outlineText.toList = "(template".toList ++
      (tree.nodes.flatMap fun node => "\n  ".toList ++ deepen node.outlineText.toList) ++ [')'] := by
  have forms : charsBelow 1 (tree.nodes.map Node.outline) =
      tree.nodes.flatMap fun node => "\n  ".toList ++ deepen node.outlineText.toList := by
    have each : ∀ node ∈ tree.nodes, '\n' :: (indent 1 ++ chars 1 node.outline) =
        "\n  ".toList ++ deepen node.outlineText.toList := by
      intro node member
      rw [(definite node member).legible.chars_succ 0, node.toList_outlineText]
      rfl
    rw [charsBelow_eq_flatMap, List.flatMap_map, List.flatMap_def, List.map_congr_left each, ← List.flatMap_def]
  rw [← forms, outlineText, String.toList_ofList]
  rfl

/-- Outlines are compositional, and laid out as they should be. The outline of a template is the outlines of its nodes
in order, each on a new line and moved in by two spaces, in a form of their own. In it and in the outline of each node
of the tree, however deep, a line begins with two spaces for each form that is open before it and then with a form;
parentheses are balanced, those between quotes apart, and the first is closed by the last character. And a printer
that has one text to write to and one count of open forms writes just these outlines. -/
theorem Tree.outline_compositional_laidOut {options : ReadOptions} {source : List Char} {tree : Tree}
    (read : Tree.read options source = .ok tree) :
    tree.outlineText.toList = "(template".toList ++
      (tree.nodes.flatMap fun node => "\n  ".toList ++ deepen node.outlineText.toList) ++ [')'] ∧
    LaidOut tree.outlineText.toList ∧ (∀ node ∈ tree.preorder, LaidOut node.outlineText.toList) ∧
    tree.printed = tree.outlineText ∧ ∀ node : Node, node.printed = node.outlineText := by
  have definite := Tree.read_definite read
  refine ⟨Tree.toList_outlineText definite, ?_, ?_, tree.printed_eq, Node.printed_eq⟩
  · rw [outlineText, String.toList_ofList]
    exact (legible_outline definite).laidOut
  · intro node member
    have inner : node.Definite := ((Tree.read_grown read).of_mem_preorder node member).definite
    rw [node.toList_outlineText]
    exact inner.legible.laidOut

/-- A parenthesis and a line break in a text, and forms below forms. -/
def layoutSample : List Char := "(\n@for x in y \x7b<A n=1/>\x7d".toList

def layoutOutline : List Char :=
  ("(template\n  (text \"(\\n\")\n  (for \"x in y\"\n    (body\n" ++
    "      (component \"A\"\n        (param \"n\" 1)))))").toList

theorem Tree.outline_compositional_laidOut_sample :
    ∃ tree, Tree.read {} layoutSample = .ok tree ∧ LaidOut tree.outlineText.toList ∧
      tree.outlineText.toList = layoutOutline := by
  have written : (Tree.read {} layoutSample).toOption.map (·.outline.chars 0) = some layoutOutline := by decide +kernel
  cases read : Tree.read {} layoutSample with
  | error fault => simp [read, Except.toOption] at written
  | ok tree =>
    refine ⟨tree, rfl, (Tree.outline_compositional_laidOut read).2.1, ?_⟩
    rw [outlineText, String.toList_ofList]
    simpa [read, Except.toOption] using written

end SigilTemplate
