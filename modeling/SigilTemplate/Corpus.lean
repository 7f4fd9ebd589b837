import SigilTemplate.Reading.Template
import SigilTemplate.Text.Lines
import SigilTemplate.Tree.Outline

/-!
Corpus files: titled sources with the outline that is expected of each. An
entry is a title between two rules of equals signs, the source, a rule of
dashes, and the expected outline up to the next rule of equals signs. Accepting
a corpus writes every entry anew with the outline that its source really has.
-/

namespace SigilTemplate

open Text

namespace Corpus

structure Entry where
  title : List Char
  source : List Char
deriving DecidableEq

/-- A rule: the given mark three times or more, and nothing else. -/
def isRule (mark : Char) (line : List Char) : Bool := 3 ≤ line.length && line.all (· == mark)

/-- Lines put together with a line feed between them. -/
def joinLines (lines : List (List Char)) : List Char := ['\n'].intercalate lines

theorem length_dropWhile_le {α : Type} (p : α → Bool) (items : List α) :
    (items.dropWhile p).length ≤ items.length :=
  (List.dropWhile_suffix p).length_le

/-- The entries in some lines. The line after a title is not looked at, and lines outside the entries
are passed over. -/
def entriesOf (lines : List (List Char)) : List Entry :=
  match lines with
  | rule :: title :: third :: rest =>
    if isRule '=' rule then
      let source := rest.takeWhile fun line => !isRule '-' line
      let after := rest.dropWhile fun line => !isRule '-' line
      ⟨trim title, joinLines source⟩ :: entriesOf (after.dropWhile fun line => !isRule '=' line)
    else entriesOf (title :: third :: rest)
  | _ => []
termination_by lines.length
decreasing_by
  · have first := length_dropWhile_le (fun line => !isRule '-' line) rest
    have second := length_dropWhile_le (fun line => !isRule '=' line)
      (rest.dropWhile fun line => !isRule '-' line)
    simp only [List.length_cons]
    omega
  · simp

def entries (text : List Char) : List Entry := entriesOf (lines text)

/-- A rule as it is written. -/
def rule (mark : Char) : List Char := List.replicate 80 mark

/-- What is expected of a source: its outline, or the fault in its place. -/
def expectation (source : List Char) : List Char :=
  match Tree.read {} source with
  | .ok tree => tree.outlineText.toList
  | .error fault => ("(FATAL " ++ fault.cause.name ++ ")").toList

/-- An entry as it is written, with an empty line behind it. -/
def Entry.written (entry : Entry) : List Char :=
  [rule '=', entry.title, rule '=', entry.source, rule '-', [], expectation entry.source, []].flatMap
    (· ++ ['\n'])

/-- The corpus with the outlines that its sources have. -/
def accept (text : List Char) : List Char :=
  trimEnd ((entries text).flatMap Entry.written) ++ ['\n']

end Corpus

end SigilTemplate
