/-!
Sets of characters as closed ranges of code points, ascending and apart.
-/

namespace SigilTemplate.Text

/-- The code point lies in one of the ranges. -/
def inRanges : List (Nat × Nat) → Nat → Bool
  | [], _ => false
  | (first, last) :: rest, n => if n < first then false else if n ≤ last then true else inRanges rest n

end SigilTemplate.Text
