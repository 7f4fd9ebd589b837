import SigilTemplate.Code.Enclosed

/-!
Simple expressions: borrows, a name, and then fields, paths, calls and indices
for as long as they follow without a break, as in `user.name::to_string(a)[0]`.
A chain ends where nothing further can belong to it, so sentence punctuation
after a name stays text.
-/

namespace SigilTemplate.Code

open Text

/-- One link of a chain. Calls and indices hold the text between their delimiters. -/
inductive Segment where
  | ident (name : String)
  | field (name : String)
  | path (name : String)
  | borrow (name : String)
  | call (arguments : String)
  | index (argument : String)
deriving DecidableEq

/-- How a link is written. -/
def Segment.spelling : Segment → String
  | .ident name => name
  | .field name => "." ++ name
  | .path name => "::" ++ name
  | .borrow name => "&" ++ name
  | .call arguments => "(" ++ arguments ++ ")"
  | .index argument => "[" ++ argument ++ "]"

/-- A chain that has been read: the leading borrows, the links in order and the place after them. -/
structure Chain where
  refs : Nat
  segments : List Segment
  after : Cursor

/-- The identifier at `c`, after a mark that has already been read. -/
def named? (link : String → Segment) (c : Cursor) : Option (Segment × Cursor) :=
  match c.textTo c.skipIdent with
  | [] => none
  | name => some (link (String.ofList name), c.skipIdent)

/-- The text between delimiters, as a link. -/
def delimited? (link : String → Segment) (limit : Nat) (c : Cursor) :
    Except Refusal (Option (Segment × Cursor)) :=
  match enclosed limit c with
  | .ok found => .ok (some (link (String.ofList found.inner.rest), found.after))
  | .error refusal => .error refusal

/-- The link that follows a name. -/
def segment? (limit : Nat) (c : Cursor) : Except Refusal (Option (Segment × Cursor)) :=
  match c.rest with
  | '.' :: _ => .ok (named? .field c.next)
  | ':' :: ':' :: _ => .ok (named? .path c.next.next)
  | '&' :: _ => .ok (named? .borrow c.next)
  | '(' :: _ => delimited? .call limit c
  | '[' :: _ => delimited? .index limit c
  | _ => .ok none

theorem reads_named? {link : String → Segment} {c d : Cursor} {segment : Segment}
    (found : named? link c = some (segment, d)) : ∃ text, c.Reads text d := by
  unfold named? at found
  split at found
  · simp at found
  · simp only [Option.some.injEq, Prod.mk.injEq] at found
    exact ⟨_, found.2 ▸ Cursor.reads_skipIdent c⟩

theorem reads_delimited? {link : String → Segment} {limit : Nat} {c d : Cursor} {ch : Char}
    {rest : List Char} (head : c.rest = ch :: rest) {segment : Segment}
    (found : delimited? link limit c = .ok (some (segment, d))) :
    ∃ text, text ≠ [] ∧ c.Reads text d := by
  unfold delimited? at found
  split at found
  · rename_i inside ok
    simp only [Except.ok.injEq, Option.some.injEq, Prod.mk.injEq] at found
    exact found.2 ▸ reads_enclosed head ok
  · simp at found

/-- A link takes at least one character. -/
theorem reads_segment? {limit : Nat} {c d : Cursor} {segment : Segment}
    (found : segment? limit c = .ok (some (segment, d))) : ∃ text, text ≠ [] ∧ c.Reads text d := by
  unfold segment? at found
  split at found
  · rename_i head
    obtain ⟨text, reads⟩ := reads_named? (Except.ok.inj found)
    exact ⟨_, by simp, (Cursor.reads_next head).trans reads⟩
  · rename_i tail head
    obtain ⟨text, reads⟩ := reads_named? (Except.ok.inj found)
    have inner : c.next.rest = ':' :: tail := by simp [Cursor.next, head]
    exact ⟨_, by simp, ((Cursor.reads_next head).trans (Cursor.reads_next inner)).trans reads⟩
  · rename_i head
    obtain ⟨text, reads⟩ := reads_named? (Except.ok.inj found)
    exact ⟨_, by simp, (Cursor.reads_next head).trans reads⟩
  · rename_i head
    exact reads_delimited? head found
  · rename_i head
    exact reads_delimited? head found
  · simp at found

/-- The links from `c` on, after those in `done`, which are in reverse order. -/
def segmentsFrom (limit : Nat) (done : List Segment) (c : Cursor) :
    Except Refusal (List Segment × Cursor) :=
  match _link : segment? limit c with
  | .error refusal => .error refusal
  | .ok none => .ok (done.reverse, c)
  | .ok (some (segment, after)) => segmentsFrom limit (segment :: done) after
termination_by c.rest.length
decreasing_by
  obtain ⟨text, nonempty, reads⟩ := reads_segment? _link
  exact reads.length_lt nonempty

/-- The chain at `c`; none where no name follows the borrows. A limit on delimiters applies to each
link of its own. -/
def chain? (limit : Nat) (c : Cursor) : Except Refusal (Option Chain) :=
  let name := c.skipWhile (· == '&')
  match named? .ident name with
  | none => .ok none
  | some (first, after) =>
    match segmentsFrom limit [first] after with
    | .error refusal => .error refusal
    | .ok (segments, after) => .ok (some ⟨name.pos - c.pos, segments, after⟩)

end SigilTemplate.Code
