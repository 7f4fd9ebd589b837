import SigilTemplate.Code.Enclosed
import SigilTemplate.Text.Blank

/-!
The header of a `for` loop, as in `(i, item) in list`. The word `in` parts it
where it stands between spaces outside all brackets; the first such place
counts.
-/

namespace SigilTemplate.Code

open Text

structure LoopHeader where
  binding : List Char
  iterable : List Char
deriving DecidableEq

namespace LoopHeader

/-- Parts a header after characters that are given in reverse, inside `depth` brackets. -/
def splitFrom (depth : Nat) (before : List Char) : List Char → Option LoopHeader
  | [] => none
  | ch :: rest =>
    if isOpener ch then splitFrom (depth + 1) (ch :: before) rest
    else if isCloser ch then splitFrom (depth - 1) (ch :: before) rest
    else if ch = ' ' ∧ depth = 0 ∧ ['i', 'n', ' '].isPrefixOf rest then
      some ⟨trim before.reverse, trim (rest.drop 3)⟩
    else splitFrom depth (ch :: before) rest

/-- Both sides of a header, without the white space around them. -/
def split? (header : List Char) : Option LoopHeader := splitFrom 0 [] header

end LoopHeader

end SigilTemplate.Code
