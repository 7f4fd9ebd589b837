import SigilTemplate.Proofs.Text.Part
import SigilTemplate.Reading.Declaration

/-!
The faults a reading can end with. Each goes back to the opening of a construct
whose end is missing, and shows at the end of the source; only nesting too deep
shows where it is met.
-/

namespace SigilTemplate
open Text

/-- The end of the source is one of its places. -/
theorem Span.point_end_within (source : List Char) :
    (Span.point (byteLength source)).Within (Cursor.ofText source) := by
  have size : (Cursor.ofText source).finish.pos = byteLength source := by simp [Cursor.finish, Cursor.ofText]
  rw [← size]
  exact Span.point_within (Cursor.le_finish _)

namespace Fault

/-- Both spans that a fault names are spans of the source. -/
def Within (fault : Fault) (source : List Char) : Prop :=
  fault.span.Within (Cursor.ofText source) ∧ ∀ related ∈ fault.related, related.Within (Cursor.ofText source)

/-- What must have been read of the source for a fault to be raised. -/
inductive Raised (source : List Char) : Fault → Prop
  | comment {start : Cursor} (place : Cursor.ofText source ≤ start) (opens : start.Reads ['@', '*'] (start.skip 2))
      (unclosed : (start.skip 2).commentClose? = none) :
      Raised source
        ⟨.unterminatedComment, .point (byteLength source), some (start.spanTo (start.skip 2))⟩
  | rawBlock {brace : Cursor} (place : Cursor.ofText source ≤ brace) (opens : brace.Reads ['{'] brace.next)
      (unclosed : rawClose? 1 brace.next.pos brace.next.rest = none) :
      Raised source ⟨.unterminatedRawBlock, .point (byteLength source), some (brace.spanTo brace.next)⟩
  | block {role : BlockRole} {brace : Cursor} (place : Cursor.ofText source ≤ brace)
      (opens : brace.Reads ['{'] brace.next) :
      Raised source ⟨.unterminatedBlock role, .point (byteLength source), some (brace.spanTo brace.next)⟩
  | delimiter {ch : Char} {opener : Cursor} (place : Cursor.ofText source ≤ opener)
      (opens : opener.Reads [ch] opener.next) (delimits : Code.isOpener ch = true) :
      Raised source ⟨.unbalancedDelimiter ch, .point (byteLength source), some (opener.spanTo opener.next)⟩
  | depth {limit : Nat} {c : Cursor} (place : Cursor.ofText source ≤ c) :
      Raised source ⟨.recursionLimit limit, .point c.pos, none⟩

theorem within_of_opening {source : List Char} {cause : FaultCause} {c d : Cursor} (place : Cursor.ofText source ≤ c)
    (le : c ≤ d) : Within ⟨cause, .point (byteLength source), some (c.spanTo d)⟩ source := by
  refine ⟨Span.point_end_within source, ?_⟩
  rintro related ⟨⟩
  exact Span.spanTo_within place le

theorem Raised.within {source : List Char} {fault : Fault} (raised : fault.Raised source) : fault.Within source := by
  cases raised with
  | comment place opens => exact within_of_opening place (Cursor.le_of_reads opens)
  | rawBlock place opens => exact within_of_opening place (Cursor.le_of_reads opens)
  | block place opens => exact within_of_opening place (Cursor.le_of_reads opens)
  | delimiter place opens => exact within_of_opening place (Cursor.le_of_reads opens)
  | depth place => exact ⟨Span.point_within place, by simp⟩

end Fault

end SigilTemplate
