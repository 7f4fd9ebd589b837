import SigilTemplate.Diagnostic.Render
import SigilTemplate.Proofs.Diagnostic.Snippet

/-!
The text of a diagnostic, character by character. It says where the span starts
and what is wrong; then the line follows in which the span starts, behind its
number, and under it the carets, as far in as the span is. The related span is
shown below in the same way. Of a span that starts behind the last line nothing
is shown.
-/

namespace SigilTemplate.Diagnostic
open Text

/-! ## What is to be shown -/

def red (color : Bool) : String := if color then "\x1b[1;31m" else ""

def dim (color : Bool) : String := if color then "\x1b[2m" else ""

def cyan (color : Bool) : String := if color then "\x1b[1;38;5;73m" else ""

def reset (color : Bool) : String := if color then "\x1b[0m" else ""

/-- A source line with its colours, if there are any. -/
def inColours (color : Bool) (line : List Char) : List Char := if color then highlight line else line

/-- A character so many times. -/
def fill (count : Nat) (ch : Char) : String := String.ofList (List.replicate count ch)

/-- The text with which a span of a source is shown, behind a margin of the given width. -/
inductive Excerpt (color : Bool) (width : Nat) (ink label : String) (source : List Char) (span : Span) : String → Prop
  /-- The span starts behind the last line. -/
  | nothing (start : Clamped source span.start source) (ends : EndsLine source) :
      Excerpt color width ink label source span ""
  /-- The line with its number, and the carets under the characters that the snippet points at. -/
  | lines {before upTo : List Char} {snippet : Snippet} (start : Clamped source span.start before)
      (stop : Clamped source span.stop upTo) (inside : ¬(before = source ∧ EndsLine source))
      (points : snippet.Points source before upTo) :
      Excerpt color width ink label source span
        (dim color ++ fill (width - (toString snippet.number).length) ' ' ++ toString snippet.number ++ " |" ++
            reset color ++ " " ++ String.ofList (inColours color snippet.line) ++ "\n" ++
          (dim color ++ fill width ' ' ++ " |" ++ reset color ++ " " ++ fill snippet.column ' ' ++ ink ++
            fill snippet.width '^' ++ label ++ reset color ++ "\n"))

/-- The place of a diagnostic, with colours as a link to the file. -/
def placeText (color : Bool) (canonical? : String → Option String) (file place : String) : String :=
  if color then
    " \x1b[2mfile:\x1b[0m \x1b]8;;file://" ++ (canonical? file).getD file ++ "\x07\x1b[4m" ++ place ++
      "\x1b[0m\x1b]8;;\x07"
  else " file: " ++ place

/-- Help, with its lines below each other. -/
def helpText (color : Bool) : Option String → String
  | none => ""
  | some help =>
    "\n" ++ String.join ((lines help.toList).mapIdx fun i line =>
      (if i = 0 then " " ++ cyan color ++ "help:" ++ reset color ++ " " else "       ") ++ String.ofList line ++ "\n")

/-- The whole text of a diagnostic. Its span starts behind `before`, and `front` is what is before it on its line. The
margin has room for the number of that line and two columns at least. -/
inductive Shown (color : Bool) (canonical? : String → Option String) (source : List Char) (file : String)
    (diagnostic : Diagnostic) : String → Prop
  | text {before earlier front : List Char} {number own related : String} {width : Nat}
      (start : Clamped source diagnostic.span.start before) (last : LastLine before earlier front)
      (line : number = toString (before.count '\n' + 1)) (room : width = max number.length 2)
      (ofSpan : Excerpt color width (red color) "" source diagnostic.span own)
      (alone : diagnostic.related = none → related = "")
      (ofRelated : ∀ span, diagnostic.related = some span →
        Excerpt color width (dim color) (" " ++ diagnostic.relatedLabel.getD "opened here") source span related) :
      Shown color canonical? source file diagnostic
        ("\n" ++ placeText color canonical? file (file ++ ":" ++ number ++ ":" ++ toString (front.length + 1)) ++
          "\n" ++ (red color ++ "error:" ++ reset color ++ " " ++ diagnostic.message ++ "\n") ++
          (dim color ++ fill width ' ' ++ " |" ++ reset color ++ "\n") ++ own ++ related ++
          helpText color diagnostic.help ++ "\n")

variable {color : Bool} {canonical? : String → Option String} {source : List Char} {file : String}

/-! ## Colours -/

@[simp]
theorem red_of (color : Bool) : (Palette.of color canonical?).red = red color := by
  cases color <;> rfl

@[simp]
theorem dim_of (color : Bool) : (Palette.of color canonical?).dim = dim color := by
  cases color <;> rfl

@[simp]
theorem cyan_of (color : Bool) : (Palette.of color canonical?).cyan = cyan color := by
  cases color <;> rfl

@[simp]
theorem reset_of (color : Bool) : (Palette.of color canonical?).reset = reset color := by
  cases color <;> rfl

@[simp]
theorem paintLine_of (color : Bool) (line : List Char) :
    (Palette.of color canonical?).paintLine line = inColours color line := by
  cases color <;> rfl

@[simp]
theorem placeLine_of (color : Bool) (file place : String) :
    (Palette.of color canonical?).placeLine file place = placeText color canonical? file place := by
  cases color <;> rfl

/-- A line is shown in pieces that are the line together. What is added to a piece is its colour. -/
theorem exists_pieces (color : Bool) (line : List Char) :
    ∃ sheet : List Piece, sheet.flatMap (·.text) = line ∧ sheet.flatMap Piece.painted = inColours color line := by
  cases color with
  | false =>
    refine ⟨[⟨none, line⟩], ?_, ?_⟩
    · exact List.append_nil line
    · exact List.append_nil line
  | true => exact ⟨Highlight.pieces line, Highlight.flatMap_pieces line, rfl⟩

/-! ## Lines below each other -/

/-- The text of some lines. -/
def joined (lines : List String) : String := String.join (lines.map (· ++ "\n"))

theorem joined_cons (line : String) (rest : List String) : joined (line :: rest) = line ++ "\n" ++ joined rest := by
  rw [joined, List.map_cons, String.join_cons, joined]

theorem joined_append (above below : List String) : joined (above ++ below) = joined above ++ joined below := by
  rw [joined, List.map_append, String.join_append, joined, joined]

@[simp]
theorem joined_nil : joined [] = "" := rfl

theorem gutter_eq (color : Bool) (canonical? : String → Option String) (width : Nat) (number : String) :
    gutter (.of color canonical?) width number =
      dim color ++ fill (width - number.length) ' ' ++ number ++ " |" ++ reset color := by
  rw [gutter, dim_of, reset_of]
  rfl

/-- The two lines of a snippet. -/
theorem joined_snippetLines (color : Bool) (canonical? : String → Option String) (width : Nat) (ink label : String)
    (snippet : Snippet) :
    joined (snippetLines (.of color canonical?) width ink label snippet) =
      dim color ++ fill (width - (toString snippet.number).length) ' ' ++ toString snippet.number ++ " |" ++
          reset color ++ " " ++ String.ofList (inColours color snippet.line) ++ "\n" ++
        (dim color ++ fill width ' ' ++ " |" ++ reset color ++ " " ++ fill snippet.column ' ' ++ ink ++
          fill snippet.width '^' ++ label ++ reset color ++ "\n") := by
  rw [snippetLines, joined_cons, joined_cons, gutter_eq, gutter_eq, reset_of, paintLine_of]
  simp [spaces, fill, String.append_assoc]

/-- What a diagnostic shows of a span is the text of its snippet. -/
theorem excerpt_of? (color : Bool) (canonical? : String → Option String) (width : Nat) (ink label : String)
    (source : List Char) (span : Span) :
    Excerpt color width ink label source span (joined (((Snippet.of? source span).map
      (snippetLines (.of color canonical?) width ink label)).getD [])) := by
  obtain ⟨before, start⟩ := exists_clamped source span.start
  obtain ⟨upTo, stop⟩ := exists_clamped source span.stop
  cases found : Snippet.of? source span with
  | none =>
    obtain ⟨rfl, ends⟩ := (Snippet.of?_eq_none_iff start).mp found
    exact .nothing start ends
  | some snippet =>
    have inside : ¬(before = source ∧ EndsLine source) := by
      rw [← Snippet.of?_eq_none_iff start, found]
      simp
    rw [Option.map_some, Option.getD_some, joined_snippetLines]
    exact .lines start stop inside (Snippet.points_of_of? start stop found)

theorem joined_helpLines (color : Bool) (canonical? : String → Option String) (help : Option String) :
    joined ((help.map (helpLines (.of color canonical?))).getD []) = helpText color help := by
  cases help with
  | none => rfl
  | some help =>
    rw [Option.map_some, Option.getD_some, helpText, helpLines, joined_cons, String.empty_append, cyan_of, reset_of]
    cases lines help.toList with
    | nil => rfl
    | cons first rest =>
      -- Behind the first line the number of a line does not matter.
      have others : (rest.mapIdx fun _ line => "       " ++ String.ofList line ++ "\n") =
          rest.map fun line => "       " ++ String.ofList line ++ "\n" := List.ext_getElem (by simp) (by simp)
      simp [joined, List.mapIdx_cons, Function.comp_def, others]

/-! ## The whole text -/

/-- The parts of a diagnostic, one below the other. -/
theorem render_eq_append {diagnostic : Diagnostic} {before earlier front : List Char} {number : String} {width : Nat}
    (color : Bool) (canonical? : String → Option String) (file : String)
    (start : Clamped source diagnostic.span.start before) (last : LastLine before earlier front)
    (line : number = toString (before.count '\n' + 1)) (room : width = max number.length 2) :
    diagnostic.render (.of color canonical?) source file =
      "\n" ++ placeText color canonical? file (file ++ ":" ++ number ++ ":" ++ toString (front.length + 1)) ++
        "\n" ++ (red color ++ "error:" ++ reset color ++ " " ++ diagnostic.message ++ "\n") ++
        (dim color ++ fill width ' ' ++ " |" ++ reset color ++ "\n") ++
        joined (((Snippet.of? source diagnostic.span).map
          (snippetLines (.of color canonical?) width (red color) "")).getD []) ++
        joined (((diagnostic.related.bind (Snippet.of? source)).map (snippetLines (.of color canonical?) width
          (dim color) (" " ++ diagnostic.relatedLabel.getD "opened here"))).getD []) ++
        helpText color diagnostic.help ++ "\n" := by
  have margin : gutterWidth (before.count '\n' + 1) = width := by
    rw [room, line]
    rfl
  have whole : diagnostic.render (.of color canonical?) source file =
      joined ("" :: diagnostic.bodyLines (.of color canonical?) source file ++ [""]) := rfl
  rw [whole, bodyLines, start.locate_eq last]
  simp only [List.cons_append, List.append_assoc, List.nil_append, joined_cons, joined_append, joined_helpLines,
    joined_nil, gutter_eq, red_of, dim_of, reset_of, placeLine_of, margin, ← line]
  simp [String.append_assoc]

/-- What is rendered is the text of the diagnostic. -/
theorem shown_render (color : Bool) (canonical? : String → Option String) (source : List Char) (file : String)
    (diagnostic : Diagnostic) :
    diagnostic.Shown color canonical? source file (diagnostic.render (.of color canonical?) source file) := by
  obtain ⟨before, start⟩ := exists_clamped source diagnostic.span.start
  obtain ⟨earlier, front, last⟩ := exists_lastLine before
  rw [render_eq_append color canonical? file start last rfl rfl]
  refine .text start last rfl rfl (excerpt_of? color canonical? _ _ _ source diagnostic.span) ?alone ?ofRelated
  case alone =>
    intro none
    rw [none]
    rfl
  case ofRelated =>
    intro span related
    rw [related]
    exact excerpt_of? color canonical? _ _ _ source span

/-- A span that starts inside a character is shown from the start of that character on. -/
example : ({ message := "m", span := ⟨7, 10⟩ } : Diagnostic).render .plain "<p>\n  é@x\r\n".toList "t" =
    "\n file: t:2:3\nerror: m\n   |\n 2 |   é@x\n   |   ^^^\n\n" := by cbv

end SigilTemplate.Diagnostic
