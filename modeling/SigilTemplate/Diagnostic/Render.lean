import SigilTemplate.Diagnostic.Highlight
import SigilTemplate.Diagnostic.Snippet
import SigilTemplate.Fault

/-!
Diagnostics as they are shown to people: where, what, the line with a mark
under the span, the related line if there is one, and help. The palette decides
whether the text carries terminal codes.
-/

namespace SigilTemplate

open Text

structure Diagnostic where
  message : String
  span : Span
  related : Option Span := none
  /-- What stands beside the mark of the related span. -/
  relatedLabel : Option String := none
  help : Option String := none
deriving DecidableEq

def Fault.diagnostic (fault : Fault) : Diagnostic :=
  ⟨fault.cause.message, fault.span, fault.related, fault.cause.relatedLabel?, some fault.cause.help⟩

/-- The diagnostic of an error node at its span. -/
def Malformation.diagnostic (cause : Malformation) (span : Span) : Diagnostic :=
  { message := cause.message, span }

/-- The codes around the parts of a diagnostic, and how source lines and the place are written. -/
structure Palette where
  red : String := ""
  dim : String := ""
  cyan : String := ""
  reset : String := ""
  paintLine : List Char → List Char := id
  /-- The line that says where, from the file name and the place in it. -/
  placeLine : String → String → String

namespace Palette

/-- Without codes. -/
def plain : Palette := { placeLine := fun _ place => " file: " ++ place }

/-- With colours, and the place as a link to the file. The link goes to the absolute path that `canonical?` finds for a
file that exists, and otherwise to the name as it is given. By default no file is found. -/
def colored (canonical? : String → Option String := fun _ => none) : Palette where
  red := "\x1b[1;31m"
  dim := "\x1b[2m"
  cyan := "\x1b[1;38;5;73m"
  reset := "\x1b[0m"
  paintLine := highlight
  placeLine file place :=
    " \x1b[2mfile:\x1b[0m \x1b]8;;file://" ++ (canonical? file).getD file ++ "\x07\x1b[4m" ++ place ++
      "\x1b[0m\x1b]8;;\x07"

/-- With colours or without. -/
def of (color : Bool) (canonical? : String → Option String) : Palette := if color then colored canonical? else plain

end Palette

namespace Diagnostic

def spaces (count : Nat) : String := String.ofList (List.replicate count ' ')

/-- The columns of a gutter that holds the number of a line, at least two. -/
def gutterWidth (number : Nat) : Nat := max (toString number).length 2

/-- What stands before a source line: its number, or blanks, and a bar. -/
def gutter (palette : Palette) (width : Nat) (number : String) : String :=
  palette.dim ++ spaces (width - number.length) ++ number ++ " |" ++ palette.reset

/-- A source line and the mark under it, with a label beside the mark. -/
def snippetLines (palette : Palette) (width : Nat) (ink label : String) (snippet : Snippet) :
    List String :=
  [gutter palette width (toString snippet.number) ++ " " ++ String.ofList (palette.paintLine snippet.line),
    gutter palette width "" ++ " " ++ spaces snippet.column ++ ink ++
      String.ofList (List.replicate snippet.width '^') ++ label ++ palette.reset]

def helpLines (palette : Palette) (help : String) : List String :=
  "" ::
    match (lines help.toList).map String.ofList with
    | [] => []
    | first :: rest => (" " ++ palette.cyan ++ "help:" ++ palette.reset ++ " " ++ first) :: rest.map ("       " ++ ·)

/-- The lines of a diagnostic, between an empty first and an empty last one. -/
def bodyLines (palette : Palette) (source : List Char) (file : String) (diagnostic : Diagnostic) :
    List String :=
  let start := Position.locate source diagnostic.span.start
  let place := file ++ ":" ++ toString (start.line + 1) ++ ":" ++ toString (start.column + 1)
  let width := gutterWidth (start.line + 1)
  let label := " " ++ diagnostic.relatedLabel.getD "opened here"
  [palette.placeLine file place, palette.red ++ "error:" ++ palette.reset ++ " " ++ diagnostic.message,
      gutter palette width ""] ++
    ((Snippet.of? source diagnostic.span).map (snippetLines palette width palette.red "")).getD [] ++
    ((diagnostic.related.bind (Snippet.of? source)).map
      (snippetLines palette width palette.dim label)).getD [] ++
    (diagnostic.help.map (helpLines palette)).getD []

/-- A diagnostic for a source that came from a file of the given name. -/
def render (palette : Palette) (source : List Char) (file : String) (diagnostic : Diagnostic) :
    String :=
  String.join (("" :: diagnostic.bodyLines palette source file ++ [""]).map (· ++ "\n"))

end Diagnostic

end SigilTemplate
