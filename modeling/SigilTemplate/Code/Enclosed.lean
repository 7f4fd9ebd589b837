import SigilTemplate.Code.Scan

/-!
Code between matching delimiters. `enclosed` reads from an opening `(`, `[` or
`{` to the delimiter that closes it; delimiters of all three kinds nest in
between, up to a limit, and literals are opaque.
-/

namespace SigilTemplate.Code

def isOpener (ch : Char) : Bool := ch == '(' || ch == '[' || ch == '{'

def isCloser (ch : Char) : Bool := ch == ')' || ch == ']' || ch == '}'

/-- The delimiter that closes an opening one. -/
def closerOf (opener : Char) : Char :=
  match opener with
  | '(' => ')'
  | '[' => ']'
  | _ => '}'

/-- A delimiter that is still open, and its offset. -/
structure OpenDelimiter where
  ch : Char
  pos : Nat
deriving DecidableEq

/-- Why a fragment of code has no end. -/
inductive Refusal where
  /-- The delimiter at `place` does not close the innermost open one. -/
  | mismatched (place : Cursor) (found : Char) (innermost : OpenDelimiter)
  /-- The text ends before the fragment does. -/
  | unterminated (opener : OpenDelimiter)
  /-- One more delimiter than the limit allows opens at `pos`. -/
  | tooDeep (pos : Nat)

/-- A delimited fragment: what stands between the delimiters, and the place after them. -/
structure Enclosed where
  inner : Cursor
  after : Cursor

/-- The open delimiters at a place inside a fragment: the innermost one and those around it. -/
structure Nesting where
  innermost : OpenDelimiter
  around : List OpenDelimiter

def Nesting.depth (nesting : Nesting) : Nat := nesting.around.length + 1

/-- One character of a fragment whose content starts at `start`. -/
def encloseStep (limit : Nat) (start : Cursor) (nesting : Nesting) (ch : Char) (place : Cursor) :
    Except Refusal Enclosed ⊕ Nesting :=
  if isOpener ch then
    if nesting.depth ≥ max limit 1 then
      .inl (.error (.tooDeep place.pos))
    else
      .inr ⟨⟨ch, place.pos⟩, nesting.innermost :: nesting.around⟩
  else if isCloser ch then
    if closerOf nesting.innermost.ch = ch then
      match nesting.around with
      | [] => .inl (.ok ⟨start.upTo place, place.next⟩)
      | outer :: around => .inr ⟨outer, around⟩
    else
      .inl (.error (.mismatched place ch nesting.innermost))
  else
    .inr nesting

/-- The fragment whose opening delimiter is at `c`. A limit below one counts as one. -/
def enclosed (limit : Nat) (c : Cursor) : Except Refusal Enclosed :=
  let opener : OpenDelimiter := ⟨c.peek.getD '(', c.pos⟩
  scan (encloseStep limit c.next) (fun _ _ => .error (.unterminated opener)) ⟨opener, []⟩ c.next

/-- A fragment ends after the place where it starts. -/
theorem reads_enclosed {limit : Nat} {c : Cursor} {ch : Char} {rest : List Char}
    (head : c.rest = ch :: rest) {found : Enclosed} (ok : enclosed limit c = .ok found) :
    ∃ text, text ≠ [] ∧ c.Reads text found.after := by
  have first := Cursor.reads_next head
  let inv (_ : Nesting) (d : Cursor) : Prop := ∃ text, text ≠ [] ∧ c.Reads text d
  let post (answer : Except Refusal Enclosed) : Prop :=
    ∀ found, answer = .ok found → ∃ text, text ≠ [] ∧ c.Reads text found.after
  suffices all : post (enclosed limit c) from all found ok
  refine scan_post inv post ?_ ?_ ?_ _ c.next ⟨_, by simp, first⟩
  · rintro _ d e ⟨text, nonempty, reads⟩ literal
    obtain ⟨more, _, onward⟩ := reads_literalEnd? literal
    exact ⟨text ++ more, by simp [nonempty], reads.trans onward⟩
  · rintro nesting d ch rest ⟨text, nonempty, reads⟩ _ head
    have onward := reads.trans (Cursor.reads_next head)
    constructor
    · intro answer steps found same
      subst same
      unfold encloseStep at steps
      split at steps
      · split at steps <;> simp at steps
      · split at steps
        · split at steps
          · split at steps
            · simp at steps
              subst steps
              exact ⟨_, by simp, onward⟩
            · simp at steps
          · simp at steps
        · simp at steps
    · intro _ _
      exact ⟨_, by simp, onward⟩
  · simp [post]

end SigilTemplate.Code
