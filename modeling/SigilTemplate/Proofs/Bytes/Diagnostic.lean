import SigilTemplate.Proofs.Bytes.Highlight
import SigilTemplate.Proofs.Bytes.Place
import SigilTemplate.Proofs.Diagnostic.Rendered

/-!
Diagnostics by offset. For every source and every span, also one behind the end,
a reversed one or one inside a character, no access on the way is a breach, and
what is rendered points at the span: it shows the line where the span starts,
with the mark under the characters of the span.
-/

namespace SigilTemplate.Bytes
open Text

/-- A line as it is shown. -/
def paint (color : Bool) (line : List Char) : Checked (List Char) := if color then paintFrom line [] 0 else pure line

/-- The snippet of a span. Its line is painted already. -/
def snippet? (color : Bool) (source : List Char) (span : Span) : Checked (Option Snippet) := do
  let start ← locate source span.start
  let stop ← locate source span.stop
  match (lines source)[start.line]? with
  | none => pure none
  | some line =>
    let painted ← paint color line
    pure (some ⟨start.line + 1, painted, start.column, Snippet.markWidth start stop line⟩)

/-- The snippet of the related span. -/
def related? (color : Bool) (source : List Char) : Option Span → Checked (Option Snippet)
  | none => pure none
  | some span => snippet? color source span

/-- A diagnostic for a source that came from a file of the given name. -/
def render (color : Bool) (canonical? : String → Option String) (source : List Char) (file : String)
    (diagnostic : Diagnostic) : Checked String := do
  let codes := { Palette.of color canonical? with paintLine := id }
  let start ← locate source diagnostic.span.start
  let place := file ++ ":" ++ toString (start.line + 1) ++ ":" ++ toString (start.column + 1)
  let width := Diagnostic.gutterWidth (start.line + 1)
  let label := " " ++ diagnostic.relatedLabel.getD "opened here"
  let own ← snippet? color source diagnostic.span
  let related ← related? color source diagnostic.related
  let body :=
    [codes.placeLine file place, codes.red ++ "error:" ++ codes.reset ++ " " ++ diagnostic.message,
        Diagnostic.gutter codes width ""] ++
      (own.map (Diagnostic.snippetLines codes width codes.red "")).getD [] ++
      (related.map (Diagnostic.snippetLines codes width codes.dim label)).getD [] ++
      (diagnostic.help.map (Diagnostic.helpLines codes)).getD []
  pure (String.join (("" :: body ++ [""]).map (· ++ "\n")))

theorem paint_eq (color : Bool) (line : List Char) : paint color line = .ok (Diagnostic.inColours color line) := by
  cases color with
  | false => rfl
  | true =>
    have ahead : line.drop 0 = line := List.drop_zero
    exact paintFrom_eq ahead []

/-- A snippet with its line as it is shown. -/
def painted (color : Bool) (snippet : Snippet) : Snippet :=
  { snippet with line := Diagnostic.inColours color snippet.line }

theorem snippet?_eq (color : Bool) (source : List Char) (span : Span) :
    snippet? color source span = .ok ((Snippet.of? source span).map (painted color)) := by
  rw [snippet?, locate_eq, ok_bind, locate_eq, ok_bind, Snippet.of?]
  cases (lines source)[(Position.locate source span.start).line]? with
  | none => rfl
  | some line =>
    simp only [paint_eq, ok_bind]
    rfl

theorem related?_eq (color : Bool) (source : List Char) (related : Option Span) :
    related? color source related = .ok ((related.bind (Snippet.of? source)).map (painted color)) := by
  cases related with
  | none => rfl
  | some span => exact snippet?_eq color source span

theorem snippetLines_painted (color : Bool) (canonical? : String → Option String) (width : Nat) (ink label : String) :
    Diagnostic.snippetLines { Palette.of color canonical? with paintLine := id } width ink label ∘ painted color =
      Diagnostic.snippetLines (.of color canonical?) width ink label := by
  funext snippet
  rw [Function.comp_apply, Diagnostic.snippetLines, Diagnostic.snippetLines, Diagnostic.paintLine_of]
  rfl

/-- Rendering by offsets never is a breach, and renders what rendering by characters does. -/
theorem render_eq (color : Bool) (canonical? : String → Option String) (source : List Char) (file : String)
    (diagnostic : Diagnostic) :
    render color canonical? source file diagnostic =
      .ok (diagnostic.render (.of color canonical?) source file) := by
  rw [render, locate_eq, ok_bind, snippet?_eq, ok_bind, related?_eq, ok_bind, Diagnostic.render, Diagnostic.bodyLines]
  simp only [Option.map_map, snippetLines_painted]
  rfl

/-- Diagnostics point at their span. Rendering never is a breach, whatever the file is called and wherever it is, and
the text shows, character by character, the line of the span with the carets under it, and those of the related span.
Nothing but colour is added to a line. A span, whatever its ends, has no snippet just where it starts at the end of a
source that is empty or ends with a line feed, and otherwise its snippet points at it. -/
theorem render_points (color : Bool) (canonical? : String → Option String) (source : List Char) (file : String)
    (diagnostic : Diagnostic) :
    ∃ text, render color canonical? source file diagnostic = .ok text ∧
      diagnostic.render (.of color canonical?) source file = text ∧
      diagnostic.Shown color canonical? source file text ∧
      (∀ line, ∃ sheet : List Piece,
        sheet.flatMap (·.text) = line ∧ sheet.flatMap Piece.painted = Diagnostic.inColours color line) ∧
      ∀ span, ∃ before upTo, Clamped source span.start before ∧ Clamped source span.stop upTo ∧
        (Snippet.of? source span = none ↔ before = source ∧ EndsLine source) ∧
        ∀ snippet ∈ Snippet.of? source span, snippet.Points source before upTo := by
  refine ⟨_, render_eq color canonical? source file diagnostic, rfl,
    Diagnostic.shown_render color canonical? source file diagnostic, Diagnostic.exists_pieces color, ?_⟩
  intro span
  obtain ⟨before, start⟩ := exists_clamped source span.start
  obtain ⟨upTo, stop⟩ := exists_clamped source span.stop
  refine ⟨before, upTo, start, stop, Snippet.of?_eq_none_iff start, ?_⟩
  intro snippet found
  exact Snippet.points_of_of? start stop found

end SigilTemplate.Bytes
