import SigilTemplate.Proofs.Bytes.Part
import SigilTemplate.Proofs.Code.Rest
import SigilTemplate.Proofs.Reading.Soundness

/-!
Statements by offsets: their heads, the rest of a match behind a malformed arm,
and the white space at the end of an arm. The rest is gone over from one arrow
to the next, two bytes on; the end of the last text is moved back by the bytes
of what is cut off.
-/

namespace SigilTemplate.Bytes
open Text

/-- The code of a head and the `{` behind it, or where it ends. -/
def statementHead (source : List Char) (c : Cursor) : Checked Head := do
  match ← headAt (encode source) c.pos with
  | .found brace =>
    let place ← moveTo source brace
    let code ← trimmed source c.pos brace
    pure (.ready code place)
  | .stopped stop => return .missing (← trimmedEnd source c.pos stop)

/-- The offset after the `}` that ends a match. An arrow that does not lead on is a breach. -/
def matchRest (bytes : List UInt8) (i : Nat) : Checked (Option Nat) :=
  match patternAt bytes i with
  | .error breach => .error breach
  | .ok (.found arrow) =>
    if i < arrow + 2 ∧ arrow + 2 ≤ bytes.length then matchRest bytes (arrow + 2) else .error (.index (arrow + 2))
  | .ok (.stopped stop) => .ok (if stop < bytes.length then some (stop + 1) else none)
termination_by bytes.length - i

/-- The body of an arm without the white space at its end. -/
def trimTail (nodes : List Node) : Checked (List Node) :=
  match nodes.getLast? with
  | some ⟨.text content, span⟩ => do
    let text := content.toList
    let kept ← piece text 0 (byteLength (trimEnd text))
    let cut ← minus (byteLength text) (byteLength kept)
    let stop ← minus span.stop cut
    if kept.isEmpty then pure nodes.dropLast
    else pure (nodes.dropLast ++ [⟨.text (String.ofList kept), ⟨span.start, stop⟩⟩])
  | _ => pure nodes

variable {source : List Char}

theorem statementHead_eq {c : Cursor} (place : Cursor.ofText source ≤ c) :
    statementHead source c = .ok (SigilTemplate.statementHead c) := by
  rw [statementHead, headAt_eq place, ok_bind, SigilTemplate.statementHead]
  cases ends : Code.headEnd c with
  | block brace =>
    obtain ⟨later, _⟩ := Code.headEnd_block ends
    have code := trimmed_eq ((Cursor.upTo_partOf later).trans (Cursor.partOf_of_le place))
    rw [pos_finish_upTo later] at code
    simp only [moveTo_eq (place.trans later), ok_bind]
    change (do
      let code ← trimmed source (c.upTo brace).pos brace.pos
      pure (Head.ready code brace)) = _
    rw [code]
    rfl
  | stopped stop =>
    simp only [trimmedEnd_eq place (Code.headEnd_stopped ends)]
    rfl

/-- A pattern without an arrow ends at a brace or at the end of the text. -/
theorem patternEnd_stopped {c stop : Cursor} (ends : Code.patternEnd c = .stopped stop) :
    c ≤ stop ∧ (stop.peek = some '}' ∨ stop = c.finish) := by
  unfold Code.patternEnd at ends
  split at ends
  · next place found =>
    obtain ⟨later, stops⟩ := Code.seek_spec found
    split at ends
    · simp at ends
    · next noArrow =>
      obtain rfl := Code.PatternEnd.stopped.inj ends
      exact ⟨later, .inl (by simpa [noArrow] using stops)⟩
  · obtain rfl := Code.PatternEnd.stopped.inj ends
    exact ⟨Cursor.le_finish c, .inr rfl⟩

theorem matchRest_eq {c : Cursor} (place : Cursor.ofText source ≤ c) :
    matchRest (encode source) c.pos = .ok ((Code.unmatchedBrace? c).map (·.next.pos)) := by
  induction left : c.rest.length using Nat.strong_induction_on generalizing c with
  | _ n ih =>
    subst left
    rw [matchRest, patternAt_eq place, Code.unmatchedBrace?_eq, Code.restStep]
    cases ends : Code.patternEnd c with
    | arrow arrow =>
      obtain ⟨later, here⟩ := Code.patternEnd_arrow ends
      obtain ⟨rest, starts⟩ := Code.rest_of_atArrow here
      have onward : c < arrow.skip 2 := Code.lt_of_restStep (by rw [Code.restStep, ends])
      have skipped : arrow.Reads ['=', '>'] (arrow.skip 2) := Cursor.reads_skip starts
      have after : (arrow.skip 2).pos = arrow.pos + 2 := skipped.pos_eq
      have inside := (Aligned.of_place (place.trans onward.le)).length_eq.2
      have moves := Cursor.pos_lt onward
      simp only [← after]
      rw [if_pos ⟨moves, by omega⟩]
      exact ih _ (Cursor.length_lt onward) (place.trans onward.le) rfl
    | stopped stop =>
      obtain ⟨later, last⟩ := patternEnd_stopped ends
      have total := (Aligned.of_place (place.trans later)).length_eq.2
      simp only
      rcases last with brace | rfl
      · obtain ⟨rest, starts⟩ := Cursor.peek_eq_some.mp brace
        have next : stop.next.pos = stop.pos + 1 := by
          simp [Cursor.next, starts, utf8Size_of_ascii (by decide : '}'.toNat < 0x80)]
        have positive := Char.utf8Size_pos '}'
        rw [starts, byteLength_cons] at total
        rw [if_pos (by omega), if_pos brace, Option.map_some, next]
      · have none : c.finish.peek = none := rfl
        rw [none, ← pos_finish place, if_neg (by omega)]
        simp

/-- A text is written with at least as many bytes as are cut off at its end. -/
theorem trimTail_eq {nodes : List Node} (grown : ∀ node ∈ nodes, Grown source node) :
    trimTail nodes = .ok (SigilTemplate.trimTail nodes) := by
  unfold trimTail SigilTemplate.trimTail
  cases last : nodes.getLast? with
  | none => rfl
  | some node =>
    cases grown node (List.mem_of_getLast? last) with
    | construct _ spells _ =>
      obtain ⟨form, span⟩ := node
      cases form with
      | text content => exact absurd rfl (spells.form_ne_text content)
      | _ => rfl
    | @text c d content _ _ reads =>
      obtain ⟨blanks, split, written, _, cut⟩ := exists_escape_trimEnd_append content.toList
      have stop : d.pos = c.pos + byteLength (escape (trimEnd content.toList)) + byteLength blanks := by
        rw [reads.pos_eq, written, byteLength_append]
        omega
      have kept : piece content.toList 0 (byteLength (trimEnd content.toList)) = .ok (trimEnd content.toList) := by
        have slice := Cursor.slice?_append [] (trimEnd content.toList) blanks
        rw [List.nil_append, ← split, byteLength_nil, Nat.zero_add] at slice
        rw [piece, slice]
      have shorter : byteLength (trimEnd content.toList) ≤ byteLength content.toList := by
        conv => rhs; rw [split]
        rw [byteLength_append]
        omega
      have within : byteLength content.toList - byteLength (trimEnd content.toList) ≤ (c.spanTo d).stop := by
        change _ ≤ d.pos
        omega
      simp only
      rw [kept, ok_bind, minus_eq shorter, ok_bind, minus_eq within, ok_bind]
      split <;> rfl

end SigilTemplate.Bytes
