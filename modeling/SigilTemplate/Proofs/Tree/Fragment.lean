import SigilTemplate.Proofs.Markup.Run
import SigilTemplate.Proofs.Text.Part
import SigilTemplate.Proofs.Text.Runs
import SigilTemplate.Reading.Argument
import SigilTemplate.Tree.Fold

/-!
Fragments and where their text comes from. A fragment lies within a part of the
source if its text is a piece of what can be read there and its span says which;
the slice of the source at the span is then the text.
-/

namespace SigilTemplate
open Text

/-- The text of a fragment is a piece of a part of the source, and its span says which. -/
structure Fragment.Within (fragment : Fragment) (part : Cursor) : Prop where
  partOf : Cursor.PartOf ⟨fragment.span.start, fragment.text.toList⟩ part
  stop_eq : fragment.span.stop = fragment.span.start + byteLength fragment.text.toList

namespace Fragment

theorem Within.mono {fragment : Fragment} {inner outer : Cursor} (within : fragment.Within inner)
    (part : inner.PartOf outer) : fragment.Within outer :=
  ⟨within.partOf.trans part, within.stop_eq⟩

theorem Within.span {fragment : Fragment} {part : Cursor} (within : fragment.Within part) :
    fragment.span.Within part := by
  obtain ⟨before, after, rest, pos⟩ := within.partOf
  have stop := within.stop_eq
  refine ⟨⟨before, _, rest, pos⟩, ⟨before ++ fragment.text.toList, after, by simp [rest], ?_⟩, by omega⟩
  rw [stop, byteLength_append, ← Nat.add_assoc, ← pos]

/-- The slice of the source at the span of a fragment is its text. -/
theorem Within.slice? {fragment : Fragment} {source : List Char}
    (within : fragment.Within (Cursor.ofText source)) :
    Text.slice? source fragment.span = some fragment.text.toList := by
  obtain ⟨before, after, rest, pos⟩ := within.partOf
  have start : fragment.span.start = byteLength before := by simpa [Cursor.ofText] using pos
  have span : fragment.span = ⟨byteLength before, byteLength before + byteLength fragment.text.toList⟩ := by
    rw [← start, ← within.stop_eq]
  have split : source = before ++ (fragment.text.toList ++ after) := rest
  rw [span]
  conv => lhs; rw [split]
  exact Cursor.slice?_append before fragment.text.toList after

theorem ofChars_within {start : Nat} {text : List Char} {part : Cursor}
    (piece : Cursor.PartOf ⟨start, text⟩ part) : (ofChars start text).Within part := by
  constructor
  · simpa [ofChars] using piece
  · simp [ofChars]

theorem between_within {c x y d : Cursor} (first : c ≤ x) (second : x ≤ y) (third : y ≤ d) :
    (between x y).Within (c.upTo d) :=
  ofChars_within (Cursor.upTo_partOf_upTo first second third)

theorem Within.widen {fragment : Fragment} {c x y d : Cursor} (within : fragment.Within (x.upTo y)) (first : c ≤ x)
    (second : x ≤ y) (third : y ≤ d) : fragment.Within (c.upTo d) :=
  within.mono (Cursor.upTo_partOf_upTo first second third)

/-- White space at both ends can be left out. -/
theorem trimmed_within (part : Cursor) : (trimmed part).Within part := by
  apply ofChars_within
  refine Cursor.PartOf.trans ?_ (Cursor.partOf_of_le (Cursor.le_skipBlank part))
  obtain ⟨blanks, split, _⟩ := exists_trimEnd_append part.skipBlank.rest
  exact ⟨[], blanks, split, by simp⟩

/-- A stretch of the source is its trimmed text with white space around it. -/
theorem reads_trimmed {c d : Cursor} (le : c ≤ d) :
    ∃ x y before after, c.Reads before x ∧ x.Reads (trimmed (c.upTo d)).text.toList y ∧ y.Reads after d ∧
      before.all isBlank = true ∧ after.all isBlank = true ∧ (trimmed (c.upTo d)).span = x.spanTo y := by
  obtain ⟨text, reads⟩ := le
  rw [Cursor.upTo_eq reads]
  obtain ⟨before, start, first⟩ := Cursor.reads_skipBlank ⟨c.pos, text⟩
  obtain ⟨after, split, last⟩ := exists_trimEnd_append (Cursor.skipBlank ⟨c.pos, text⟩).rest
  simp only [trimmed, ofChars, String.toList_ofList]
  generalize (Cursor.skipBlank ⟨c.pos, text⟩) = inner at start split
  have whole : text = before ++ (trimEnd inner.rest ++ after) := by
    rw [← split]
    exact start.rest_eq
  have length := congrArg byteLength whole
  simp only [byteLength_append] at length
  have ends := reads.pos_eq
  have here : inner.pos = c.pos + byteLength before := start.pos_eq
  refine ⟨⟨inner.pos, trimEnd inner.rest ++ (after ++ d.rest)⟩, ⟨inner.pos + byteLength (trimEnd inner.rest), after ++ d.rest⟩,
    before, after, ⟨?_, start.pos_eq⟩, ⟨rfl, rfl⟩, ⟨rfl, ?_⟩, first, List.all_eq_true.mpr last, rfl⟩
  · rw [reads.rest_eq, whole]
    simp only [List.append_assoc]
  · change d.pos = inner.pos + byteLength (trimEnd inner.rest) + byteLength after
    omega

/-- A text in quotes is a quote, what it holds, and the quote again. -/
theorem eq_of_isQuotedBy {quote : Char} {text : List Char} (quoted : isQuotedBy quote text = true) :
    text = quote :: (text.tail.dropLast ++ [quote]) := by
  simp only [isQuotedBy, Bool.and_eq_true, beq_iff_eq, decide_eq_true_eq] at quoted
  obtain ⟨⟨first, last⟩, two⟩ := quoted
  cases text with
  | nil => simp at first
  | cons head tail =>
    have opens : head = quote := by simpa using first
    have inside : tail ≠ [] := by
      intro empty
      simp [empty] at two
    have closes : tail.getLast inside = quote := by
      rw [List.getLast?_cons, List.getLast?_eq_some_getLast inside] at last
      simpa using last
    rw [opens, List.tail_cons, ← closes, List.dropLast_concat_getLast inside]

/-- The text between quotes lies one byte further in at both ends. -/
theorem unquoted_within {fragment : Fragment} {part : Cursor} {quote : Char} (byte : quote.utf8Size = 1)
    (quoted : isQuotedBy quote fragment.text.toList = true) (within : fragment.Within part) :
    fragment.unquoted.Within part := by
  have split := eq_of_isQuotedBy quoted
  obtain ⟨before, after, rest, pos⟩ := within.partOf
  have start : fragment.span.start = part.pos + byteLength before := pos
  constructor
  · refine ⟨before ++ [quote], quote :: after, ?_, ?_⟩
    · rw [rest]
      conv => lhs; rw [split]
      simp [unquoted]
    · simp [unquoted, start, byte]
      omega
  · have length := congrArg byteLength split
    simp only [byteLength_cons, byteLength_append, byteLength_nil, byte] at length
    have stop := within.stop_eq
    simp only [unquoted, String.toList_ofList]
    omega

end Fragment

/-! ## What a form keeps of the source -/

variable {α : Type}

/-- The fragments of a value, apart from those in its nodes. -/
def ArgumentValue.fragments : ArgumentValue α → List Fragment
  | string text => [text]
  | code text => [text]
  | flag | bool _ | number _ | expression _ | block _ => []

def Argument.fragments (argument : Argument α) : List Fragment := argument.name :: argument.value.fragments

def Directive.fragments : Directive α → List Fragment
  | layout path => path.toList
  | useFile path component => path :: component.toList
  | includeFile path => [path]
  | render name => [name]
  | renderBody | childContent => []
  | sectionBlock name _ => [name]
  | sectionValue name value => [name, value]
  | raw body => [body]
  | function name parameters _ => [name, parameters]

def Statement.fragments : Statement α → List Fragment
  | conditional condition _ _ => [condition]
  | forLoop header _ => [header]
  | whileLoop header _ => [header]
  | matchOn subject arms => subject :: arms.map (·.pattern)
  | continueLoop | breakLoop => []

/-- The fragments of a form, apart from those in its children. -/
def Form.fragments : Form α → List Fragment
  | .text _ | .comment _ | .expression _ | .codeBlock _ | .error _ _ => []
  | .parameters list => list.flatMap fun parameter => [parameter.name, parameter.type]
  | .directive d => d.fragments
  | .statement s => s.fragments
  | .component c => c.name :: c.arguments.flatMap Argument.fragments

/-- The spans of the arms and arguments in a form. -/
def Form.partSpans : Form α → List Span
  | .statement (.matchOn _ arms) => arms.map (·.span)
  | .component c => c.arguments.map (·.span)
  | _ => []

end SigilTemplate
