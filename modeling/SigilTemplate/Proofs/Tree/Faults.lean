import SigilTemplate.Proofs.Markup.Braces
import SigilTemplate.Proofs.Reading.Progress
import SigilTemplate.Proofs.Tree.Spelling

/-!
What a fault says is true of the source. The opening it goes back to stands
there, and what would close it does not.
-/

namespace SigilTemplate
open Text

namespace Fault

/-- The fault shows at the end of the source, and goes back to an opening that is written as `text`. -/
def GoesBackTo (source : List Char) (fault : Fault) (opening : Span) (text : List Char) : Prop :=
  fault.span = .point (byteLength source) ∧ fault.related = some opening ∧ slice? source opening = some text

/-- No text `mark` stands at or behind an offset. -/
def NeverBehind (source : List Char) (offset : Nat) (mark : List Char) : Prop :=
  ∀ before after, source = before ++ (mark ++ after) → byteLength before < offset

/-- From an offset on, there are always more braces opened than closed. -/
def NeverBalanced (source : List Char) (offset : Nat) : Prop :=
  ∀ before part after, source = before ++ (part ++ after) → byteLength before = offset → part ≠ [] →
    part.count '}' < part.count '{'

/-- What the fault says of the source, by its cause. -/
def Truthful (source : List Char) (fault : Fault) : Prop :=
  match fault.cause with
  | .unterminatedComment =>
    ∃ opening, fault.GoesBackTo source opening ['@', '*'] ∧ NeverBehind source opening.stop ['*', '@']
  | .unterminatedRawBlock => ∃ opening, fault.GoesBackTo source opening ['{'] ∧ NeverBalanced source opening.start
  | .unterminatedBlock _ => ∃ opening, fault.GoesBackTo source opening ['{']
  | .unbalancedDelimiter ch => ch ∈ ['(', '[', '{'] ∧ ∃ opening, fault.GoesBackTo source opening [ch]
  | .recursionLimit _ =>
    fault.related = none ∧ ∃ offset, fault.span = .point offset ∧ (Cursor.ofText source).HasOffset offset

end Fault

/-- Where a text is split behind a place of it, what follows is still to be read from that place. -/
theorem Cursor.exists_rest_eq {source before after : List Char} {c : Cursor} (place : ofText source ≤ c)
    (split : source = before ++ after) (behind : c.pos ≤ byteLength before) :
    ∃ more, c.rest = more ++ after ∧ byteLength before = c.pos + byteLength more := by
  obtain ⟨read, reads⟩ := place
  have pos : c.pos = byteLength read := by simpa [ofText] using reads.pos_eq
  have same : read ++ c.rest = before ++ after := reads.rest_eq.symm.trans split
  obtain ⟨more, longer, rest⟩ := exists_append_of_byteLength_le same (by omega)
  exact ⟨more, rest, by rw [longer, byteLength_append, pos]⟩

/-- A comment without an end has no closing mark behind its opening one. -/
theorem Cursor.neverBehind_of_commentClose? {source : List Char} {c : Cursor} (place : ofText source ≤ c)
    (unclosed : c.commentClose? = none) : Fault.NeverBehind source c.pos ['*', '@'] := by
  intro before after split
  by_contra behind
  obtain ⟨more, rest, _⟩ := exists_rest_eq place split (Nat.le_of_not_lt behind)
  obtain ⟨close, found, _⟩ := commentClose?_go_le c.pos more after
  have closes : c.commentClose? = some close := by
    rw [commentClose?, rest]
    exact found
  simp [closes] at unclosed

/-- While no `}` closes a raw block, what has been read of it closes fewer braces than are open. -/
theorem count_lt_of_rawClose? {depth pos : Nat} {text : List Char} (inside : 0 < depth)
    (unclosed : rawClose? depth pos text = none) :
    ∀ front, front <+: text → front.count '}' < front.count '{' + depth := by
  fun_induction rawClose? depth pos text with
  | case1 depth =>
    intro front isPrefix
    simpa [List.prefix_nil.mp isPrefix] using inside
  | case2 depth pos rest ih =>
    intro front isPrefix
    rcases List.prefix_cons_iff.mp isPrefix with rfl | ⟨front, rfl, shorter⟩
    · simpa using inside
    · have deeper := ih (by omega) unclosed front shorter
      have opened : ('{' :: front).count '{' = front.count '{' + 1 := by simp
      have closed : ('{' :: front).count '}' = front.count '}' := by simp
      omega
  | case3 => simp at unclosed
  | case4 depth pos rest _ further ih =>
    intro front isPrefix
    rcases List.prefix_cons_iff.mp isPrefix with rfl | ⟨front, rfl, shorter⟩
    · simpa using inside
    · have shallower := ih (by omega) unclosed front shorter
      have opened : ('}' :: front).count '{' = front.count '{' := by simp
      have closed : ('}' :: front).count '}' = front.count '}' + 1 := by simp
      omega
  | case5 depth pos ch rest notOpen notClose ih =>
    intro front isPrefix
    rcases List.prefix_cons_iff.mp isPrefix with rfl | ⟨front, rfl, shorter⟩
    · simpa using inside
    · have same := ih inside unclosed front shorter
      have opened : (ch :: front).count '{' = front.count '{' := List.count_cons_of_ne notOpen
      have closed : (ch :: front).count '}' = front.count '}' := List.count_cons_of_ne notClose
      omega

/-- A raw block without an end never balances its braces. -/
theorem Cursor.neverBalanced_of_rawClose? {source : List Char} {brace : Cursor} (place : ofText source ≤ brace)
    (opens : brace.Reads ['{'] brace.next) (unclosed : rawClose? 1 brace.next.pos brace.next.rest = none) :
    Fault.NeverBalanced source brace.pos := by
  intro before part after split here nonempty
  obtain ⟨more, rest, length⟩ := exists_rest_eq place split (Nat.le_of_eq here.symm)
  have nothing : more = [] := by
    by_contra something
    have := byteLength_pos something
    omega
  cases part with
  | nil => exact absurd rfl nonempty
  | cons ch front =>
    have whole : '{' :: brace.next.rest = ch :: (front ++ after) := by
      calc
        '{' :: brace.next.rest = brace.rest := opens.rest_eq.symm
        _ = more ++ ((ch :: front) ++ after) := rest
        _ = ch :: (front ++ after) := by rw [nothing]; rfl
    obtain ⟨rfl, inner⟩ := List.cons.inj whole
    have fewer := count_lt_of_rawClose? Nat.one_pos unclosed front ⟨after, inner.symm⟩
    have opened : ('{' :: front).count '{' = front.count '{' + 1 := by simp
    have closed : ('{' :: front).count '}' = front.count '}' := by simp
    omega

namespace Fault

theorem goesBackTo {source text : List Char} {cause : FaultCause} {c d : Cursor} (place : Cursor.ofText source ≤ c)
    (opens : c.Reads text d) :
    GoesBackTo source ⟨cause, .point (byteLength source), some (c.spanTo d)⟩ (c.spanTo d) text :=
  ⟨rfl, rfl, opens.slice?_eq place⟩

/-- What raises a fault bears it out. -/
theorem Raised.truthful {source : List Char} {fault : Fault} (raised : fault.Raised source) :
    fault.Truthful source := by
  cases raised with
  | comment place opens unclosed =>
    have inside := place.trans (Cursor.le_of_reads opens)
    exact ⟨_, goesBackTo place opens, Cursor.neverBehind_of_commentClose? inside unclosed⟩
  | rawBlock place opens unclosed =>
    exact ⟨_, goesBackTo place opens, Cursor.neverBalanced_of_rawClose? place opens unclosed⟩
  | block place opens => exact ⟨_, goesBackTo place opens⟩
  | @delimiter ch opener place opens delimits =>
    have among : ch ∈ ['(', '[', '{'] := by simpa [Code.isOpener, or_assoc] using delimits
    exact ⟨among, _, goesBackTo place opens⟩
  | depth place => exact ⟨rfl, _, rfl, Cursor.hasOffset_of_le place⟩

end Fault

/-! ## Regions between braces -/

/-- The region ends at a `}`, or the text does. -/
def Region.EndsBraced (region : Region) : Prop :=
  (region.stop = .closeBrace ∧ region.after.peek = some '}') ∨ (region.stop = .textEnd ∧ region.after.rest = [])

/-- The text between braces only ever expects a `}`, so what ends its region is one that it does not expect. -/
theorem TextState.Tracks.eq_closeBrace {state : TextState} {text : List Char} {ch : Char} {stop : RegionEnd}
    (tracks : state.Tracks text) (ends : endAt? .braced state ch = some stop) : ch = '}' ∧ stop = .closeBrace := by
  unfold endAt? at ends
  rw [if_neg (by simp [tracks.outside])] at ends
  by_cases closes : ch = '}'
  · rw [if_pos closes] at ends
    cases opened : state.expected with
    | nil =>
      rw [opened] at ends
      exact ⟨closes, (Option.some.inj ends).symm⟩
    | cons closer outer =>
      obtain rfl := tracks.expected closer (by simp [opened])
      simp [opened] at ends
  · rw [if_neg closes, if_neg (by simp)] at ends
    simp at ends

theorem Region.GrownFrom.endsBraced {source : List Char} {c : Cursor} {region : Region}
    (grown : region.GrownFrom source .braced c) : region.EndsBraced := by
  obtain ⟨nodes, stop, after⟩ := region
  obtain ⟨state, items, ends⟩ := grown.items
  cases ends with
  | textEnd empty => exact .inr ⟨rfl, empty⟩
  | marked head ends =>
    obtain ⟨rfl, rfl⟩ := items.tracks.eq_closeBrace ends
    exact .inl ⟨rfl, head⟩
  | closeTag _ tag => simp [RegionKind.isTagBody] at tag

/-- A block between braces fails as what is inside it does, or because the source ends before its `}`. -/
theorem readBlock_error {source : List Char} {context : Context} {role : BlockRole} {brace : Cursor} {fault : Fault}
    {nested : Context → RegionKind → Cursor → Traced Region} (sound : ReadsRegions source nested)
    (size : context.size = byteLength source) (place : Cursor.ofText source ≤ brace)
    (failed : (readBlock nested context role brace).outcome = .error fault) :
    (nested context.insideBraces .braced brace.next).outcome = .error fault ∨
      ∃ region, (nested context.insideBraces .braced brace.next).outcome = .ok region ∧
        region.after.pos = byteLength source ∧ fault = unterminatedBlock context role brace := by
  have onward := place.trans (Cursor.le_next brace)
  have yields := sound context.insideBraces .braced brace.next size onward
  cases outcome : (nested context.insideBraces .braced brace.next).outcome with
  | error inner =>
    rw [readBlock, Traced.bind_error outcome] at failed
    cases failed
    exact .inl rfl
  | ok region =>
    rw [readBlock, Traced.bind_ok outcome] at failed
    have grown := yields.of_outcome outcome
    obtain ⟨state, items, _⟩ := grown.items
    rcases grown.endsBraced with ⟨stop, _⟩ | ⟨stop, empty⟩
    · rw [stop] at failed
      cases failed
    · rw [stop] at failed
      cases failed
      have ends := Cursor.pos_add_rest (onward.trans items.inOrder.le)
      exact .inr ⟨region, rfl, by simpa [empty, Cursor.ofText] using ends, rfl⟩

/-! ## Faults of a reading -/

/-- The fault that ends a reading says what is true of its source. The region of a block ends at a `}` or with the
source, at every level and wherever it starts, so that a block is found unterminated nowhere but at the end. -/
theorem Tree.read_fault_truthful (options : ReadOptions) (source : List Char) :
    (∀ fault, Tree.read options source = .error fault → fault.Truthful source) ∧
      ∀ room context brace, context.size = byteLength source → Cursor.ofText source ≤ brace →
        (∀ region, ((Level.withRoom room).region context .braced brace).outcome = .ok region → region.EndsBraced) ∧
          ∀ role fault, (readBlock (Level.withRoom room).nested context role brace).outcome = .error fault →
            ((Level.withRoom room).nested context.insideBraces .braced brace.next).outcome = .error fault ∨
              ∃ region,
                ((Level.withRoom room).nested context.insideBraces .braced brace.next).outcome = .ok region ∧
                  region.after.pos = byteLength source ∧ fault = unterminatedBlock context role brace := by
  refine ⟨fun fault read => ((Tree.trace_yields options source).of_fault read).truthful, ?_⟩
  intro room context brace size place
  have sound := Level.withRoom_sound source room
  constructor
  · intro region read
    exact ((sound.region context .braced brace size place).of_outcome read).endsBraced
  · intro role fault failed
    exact readBlock_error sound.nested size place failed

/-- The body of a condition is still open at the end. -/
def unclosedSample : List Char := "@if x \x7b b".toList

/-- The `{` of the body. -/
def unclosedBrace : Cursor := (Cursor.ofText unclosedSample).skip 6

/-- The sample fails, truthfully. From the `{` on, a region ends with the text, and a block is unterminated. -/
theorem Tree.read_fault_truthful_unclosed :
    (∃ fault, Tree.read {} unclosedSample = .error fault ∧ fault.Truthful unclosedSample) ∧
      (∃ region,
        ((Level.withRoom 1).region (.outermost {} unclosedSample) .braced unclosedBrace).outcome = .ok region ∧
          region.EndsBraced) ∧
        ∃ fault,
          (readBlock (Level.withRoom 1).nested (.outermost {} unclosedSample) .component unclosedBrace).outcome =
            .error fault ∧
          (((Level.withRoom 1).nested (Context.outermost {} unclosedSample).insideBraces .braced
              unclosedBrace.next).outcome = .error fault ∨
            ∃ region,
              ((Level.withRoom 1).nested (Context.outermost {} unclosedSample).insideBraces .braced
                unclosedBrace.next).outcome = .ok region ∧
                region.after.pos = byteLength unclosedSample ∧
                  fault = unterminatedBlock (.outermost {} unclosedSample) .component unclosedBrace) := by
  obtain ⟨truthful, block⟩ := Tree.read_fault_truthful {} unclosedSample
  obtain ⟨ends, fails⟩ := block 1 (.outermost {} unclosedSample) unclosedBrace rfl (Cursor.le_skip 6 _)
  refine ⟨?_, ?_, ?_⟩
  · have failed : (Tree.read {} unclosedSample).isOk = false := by decide +kernel
    cases read : Tree.read {} unclosedSample with
    | ok tree => simp [read, Except.isOk, Except.toBool] at failed
    | error fault => exact ⟨fault, rfl, truthful fault read⟩
  · have found : ((Level.withRoom 1).region (.outermost {} unclosedSample) .braced unclosedBrace).outcome.isOk =
        true := by decide +kernel
    cases read : ((Level.withRoom 1).region (.outermost {} unclosedSample) .braced unclosedBrace).outcome with
    | ok region => exact ⟨region, rfl, ends region read⟩
    | error fault => simp [read, Except.isOk, Except.toBool] at found
  · have failed : (readBlock (Level.withRoom 1).nested (.outermost {} unclosedSample) .component
        unclosedBrace).outcome.isOk = false := by decide +kernel
    cases read : (readBlock (Level.withRoom 1).nested (.outermost {} unclosedSample) .component
        unclosedBrace).outcome with
    | ok block => simp [read, Except.isOk, Except.toBool] at failed
    | error fault => exact ⟨fault, rfl, fails _ fault read⟩

end SigilTemplate
