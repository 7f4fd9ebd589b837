import SigilTemplate.Code.Chain
import SigilTemplate.Code.TopLevel
import SigilTemplate.Proofs.Text.Part

/-!
How far the readings of embedded code go. For each of them one statement says
where it can end and what stands there; what calls it needs no more than that.
-/

namespace SigilTemplate.Code
open Text

theorem lt_of_literalEnd? {c d : Cursor} (found : literalEnd? c = some d) : c < d := by
  obtain ⟨text, nonempty, reads⟩ := reads_literalEnd? found
  exact Cursor.lt_of_reads reads nonempty

section

variable {σ ρ : Type} {step : σ → Char → Cursor → ρ ⊕ σ} {finish : σ → Cursor → ρ} {state : σ} {c : Cursor}

theorem scan_literal {after : Cursor} (literal : literalEnd? c = some after) :
    scan step finish state c = scan step finish state after := by
  conv => lhs; rw [scan.eq_def]
  split
  · next other found =>
    obtain rfl := Option.some.inj (found.symm.trans literal)
    rfl
  · next plain => simp [literal] at plain

theorem scan_step {ch : Char} {rest : List Char} (plain : literalEnd? c = none) (starts : c.rest = ch :: rest) :
    scan step finish state c = match step state ch c with
      | .inl answer => answer
      | .inr next => scan step finish next c.next := by
  conv => lhs; rw [scan.eq_def]
  split
  · next literal => simp [literal] at plain
  · split
    · next empty => simp [starts] at empty
    · next other rest' starts' =>
      obtain ⟨rfl, _⟩ := List.cons.inj (starts.symm.trans starts')
      cases step state ch c <;> rfl

theorem scan_end (empty : c.rest = []) : scan step finish state c = finish state c := by
  have plain : literalEnd? c = none := by simp [literalEnd?, empty]
  rw [scan.eq_def]
  split
  · next literal => simp [literal] at plain
  · split
    · rfl
    · next starts => simp [empty] at starts

end

/-- The delimiters that are open at a place of a fragment, innermost first. -/
def Nesting.openers (nesting : Nesting) : List OpenDelimiter := nesting.innermost :: nesting.around

/-- A delimiter stands where it was opened, at or after `c` and before `d`. -/
def OpenDelimiter.StandsBetween (c d : Cursor) (opener : OpenDelimiter) : Prop :=
  isOpener opener.ch = true ∧ ∃ place, c ≤ place ∧ place < d ∧ place.peek = some opener.ch ∧ place.pos = opener.pos

theorem OpenDelimiter.StandsBetween.mono {c d e : Cursor} {opener : OpenDelimiter}
    (stands : opener.StandsBetween c d) (later : d ≤ e) : opener.StandsBetween c e := by
  obtain ⟨kind, place, first, second, head, pos⟩ := stands
  exact ⟨kind, place, first, second.trans_le later, head, pos⟩

/-- What is open at a place of a fragment was opened between its start and that place, its own delimiter first. -/
structure Nesting.OpenedSince (c : Cursor) (opener : Char) (nesting : Nesting) (place : Cursor) : Prop where
  reached : c.next ≤ place
  stand : ∀ delimiter ∈ nesting.openers, delimiter.StandsBetween c place
  bottom : nesting.openers.getLast? = some ⟨opener, c.pos⟩

theorem Nesting.OpenedSince.mono {c place later : Cursor} {opener : Char} {nesting : Nesting}
    (opened : nesting.OpenedSince c opener place) (onward : place ≤ later) : nesting.OpenedSince c opener later :=
  ⟨opened.reached.trans onward, fun delimiter member => (opened.stand delimiter member).mono onward, opened.bottom⟩

/-- The ways in which the reading of a fragment that opens at `c` with `ch` can end. -/
inductive Encloses (c : Cursor) (ch : Char) : Except Refusal Enclosed → Prop
  | closed {close : Cursor} (after : c.next ≤ close) (closer : close.peek = some (closerOf ch)) :
    Encloses c ch (.ok ⟨c.next.upTo close, close.next⟩)
  | mismatched {place : Cursor} {found : Char} {innermost : OpenDelimiter} (after : c.next ≤ place)
    (head : place.peek = some found) (closer : isCloser found = true)
    (other : closerOf innermost.ch ≠ found) (stands : innermost.StandsBetween c place) :
    Encloses c ch (.error (.mismatched place found innermost))
  | unterminated : Encloses c ch (.error (.unterminated ⟨ch, c.pos⟩))
  | tooDeep {place : Cursor} (after : c.next ≤ place) : Encloses c ch (.error (.tooDeep place.pos))

/-- What one character of a fragment does, while delimiters are open of which the first is `opener`. -/
theorem encloseStep_spec (limit : Nat) {c place : Cursor} {opener ch : Char} {nesting : Nesting}
    (opened : nesting.OpenedSince c opener place) (head : place.peek = some ch) :
    match encloseStep limit c.next nesting ch place with
    | .inl answer => Encloses c opener answer
    | .inr next => next.OpenedSince c opener place.next := by
  have onward := Cursor.lt_next head
  obtain ⟨reached, later, bottom⟩ := opened.mono onward.le
  unfold encloseStep
  by_cases opens : isOpener ch = true
  · rw [if_pos opens]
    by_cases deep : nesting.depth ≥ max limit 1
    · rw [if_pos deep]
      exact .tooDeep opened.reached
    · rw [if_neg deep]
      refine ⟨reached, ?_, by simpa [Nesting.openers] using bottom⟩
      intro delimiter member
      rcases List.mem_cons.mp member with rfl | member
      · exact ⟨opens, place, (Cursor.le_next c).trans opened.reached, onward, head, rfl⟩
      · exact later delimiter member
  · rw [if_neg opens]
    by_cases closes : isCloser ch = true
    · rw [if_pos closes]
      by_cases match_ : closerOf nesting.innermost.ch = ch
      · rw [if_pos match_]
        cases around : nesting.around with
        | nil =>
          have first : nesting.innermost = ⟨opener, c.pos⟩ := by simpa [Nesting.openers, around] using bottom
          rw [first] at match_
          exact .closed opened.reached (by rw [head, match_])
        | cons outer rest =>
          refine ⟨reached, ?_, by simpa [Nesting.openers, around] using bottom⟩
          intro delimiter member
          exact later delimiter (by simp [Nesting.openers, around] at member ⊢; exact .inr member)
      · rw [if_neg match_]
        exact .mismatched opened.reached head closes match_ (opened.stand nesting.innermost (by simp [Nesting.openers]))
    · rw [if_neg closes]
      exact ⟨reached, later, bottom⟩

theorem enclosed_spec {c : Cursor} {ch : Char} (limit : Nat) (head : c.peek = some ch)
    (opens : isOpener ch = true) : Encloses c ch (enclosed limit c) := by
  unfold enclosed
  rw [head]
  refine scan_post (Nesting.OpenedSince c ch) (Encloses c ch) ?literal ?step ?last _ c.next
    ⟨le_refl _, ?first, by simp [Nesting.openers]⟩
  case literal => exact fun nesting d e opened literal => opened.mono (lt_of_literalEnd? literal).le
  case step =>
    intro nesting d other rest opened _ starts
    have step := encloseStep_spec limit opened (Cursor.peek_eq_some.mpr ⟨rest, starts⟩)
    constructor
    · intro answer answers
      rwa [answers] at step
    · intro onward goesOn
      rwa [goesOn] at step
  case last => exact fun _ _ _ _ => .unterminated
  case first =>
    intro delimiter member
    obtain rfl : delimiter = ⟨ch, c.pos⟩ := by simpa [Nesting.openers] using member
    exact ⟨opens, c, le_refl c, Cursor.lt_next head, head, rfl⟩

/-- A fragment has its own closing delimiter at its end. -/
theorem enclosed_ok {limit : Nat} {c : Cursor} {ch : Char} {found : Enclosed} (head : c.peek = some ch)
    (opens : isOpener ch = true) (ok : enclosed limit c = .ok found) :
    ∃ close, c.next ≤ close ∧ close.peek = some (closerOf ch) ∧ found = ⟨c.next.upTo close, close.next⟩ := by
  have spec := enclosed_spec limit head opens
  rw [ok] at spec
  cases spec with
  | closed after closer => exact ⟨_, after, closer, rfl⟩

theorem lt_of_enclosed {limit : Nat} {c : Cursor} {ch : Char} {found : Enclosed} (head : c.peek = some ch)
    (opens : isOpener ch = true) (ok : enclosed limit c = .ok found) : c < found.after := by
  obtain ⟨close, after, _, rfl⟩ := enclosed_ok head opens ok
  exact (Cursor.lt_next head).trans_le (after.trans (Cursor.le_next close))

theorem enclosed_inner_partOf {limit : Nat} {c : Cursor} {ch : Char} {found : Enclosed} (head : c.peek = some ch)
    (opens : isOpener ch = true) (ok : enclosed limit c = .ok found) : found.inner.PartOf (c.upTo found.after) := by
  obtain ⟨close, after, _, rfl⟩ := enclosed_ok head opens ok
  exact Cursor.upTo_partOf_upTo (Cursor.le_next c) after (Cursor.le_next close)

/-- A place that is sought is one that was looked for, and the text up to it was passed over. -/
theorem seek_spec {stops : Cursor → Bool} {c place : Cursor} (found : seek stops c = some place) :
    c ≤ place ∧ stops place = true := by
  suffices all : ∀ place, seek stops c = some place → c ≤ place ∧ stops place = true from all place found
  refine scan_post (fun _ d => c ≤ d) (fun answer => ∀ place, answer = some place → c ≤ place ∧ stops place = true)
    ?_ ?_ ?_ 0 c (le_refl c)
  · intro _ d e reached literal
    exact reached.trans (lt_of_literalEnd? literal).le
  · intro depth d ch rest reached _ starts
    refine ⟨?_, fun _ _ => reached.trans (Cursor.le_next d)⟩
    intro answer answers
    split at answers
    · next here =>
      obtain rfl := Sum.inl.inj answers
      rintro _ ⟨⟩
      simp only [Bool.and_eq_true] at here
      exact ⟨reached, here.2⟩
    · split at answers
      · simp at answers
      · split at answers <;> simp at answers
  · rintro _ _ _ _ _ ⟨⟩

theorem headEnd_block {c brace : Cursor} (ends : headEnd c = .block brace) :
    c ≤ brace ∧ brace.peek = some '{' := by
  unfold headEnd at ends
  split at ends
  · next place found =>
    split at ends
    · next opens =>
      obtain rfl := HeadEnd.block.inj ends
      exact ⟨(seek_spec found).1, opens⟩
    · simp at ends
  · simp at ends

theorem headEnd_stopped {c place : Cursor} (ends : headEnd c = .stopped place) : c ≤ place := by
  unfold headEnd at ends
  split at ends
  · next found =>
    split at ends
    · simp at ends
    · obtain rfl := HeadEnd.stopped.inj ends
      exact (seek_spec found).1
  · obtain rfl := HeadEnd.stopped.inj ends
    exact Cursor.le_finish c

theorem patternEnd_arrow {c arrow : Cursor} (ends : patternEnd c = .arrow arrow) :
    c ≤ arrow ∧ atArrow arrow = true := by
  unfold patternEnd at ends
  split at ends
  · next place found =>
    split at ends
    · next here =>
      obtain rfl := PatternEnd.arrow.inj ends
      exact ⟨(seek_spec found).1, here⟩
    · simp at ends
  · simp at ends

theorem unmatchedBrace?_spec {c place : Cursor} (found : unmatchedBrace? c = some place) :
    c ≤ place ∧ place.peek = some '}' := by
  have spec := seek_spec found
  exact ⟨spec.1, by simpa using spec.2⟩

/-! ## Chains -/

/-- The link after a name, by the characters that come next. -/
theorem segment?_eq (limit : Nat) (c : Cursor) : segment? limit c =
    if c.peek = some '.' then .ok (named? .field c.next)
    else if c.peek = some ':' ∧ c.next.peek = some ':' then .ok (named? .path c.next.next)
    else if c.peek = some '&' then .ok (named? .borrow c.next)
    else if c.peek = some '(' then delimited? .call limit c
    else if c.peek = some '[' then delimited? .index limit c
    else .ok none := by
  have second : ∀ ch rest, c.rest = ch :: rest → c.next.peek = rest.head? := by
    intro ch rest starts
    simp [Cursor.next, starts, Cursor.peek]
  unfold segment?
  split
  · next starts => simp [Cursor.peek, starts]
  · next starts => simp [Cursor.peek_eq_some.mpr ⟨_, starts⟩, second _ _ starts]
  · next starts => simp [Cursor.peek, starts]
  · next starts => simp [Cursor.peek, starts]
  · next starts => simp [Cursor.peek, starts]
  · next dot colons borrow call index =>
    have other : ∀ ch, (∀ rest, c.rest = ch :: rest → False) → c.peek ≠ some ch := by
      intro ch never head
      obtain ⟨rest, starts⟩ := Cursor.peek_eq_some.mp head
      exact never rest starts
    have path : ¬(c.peek = some ':' ∧ c.next.peek = some ':') := by
      rintro ⟨head, further⟩
      obtain ⟨rest, starts⟩ := Cursor.peek_eq_some.mp head
      rw [second _ _ starts] at further
      cases rest with
      | nil => simp at further
      | cons first more => exact colons more (by rw [starts, Option.some.inj further])
    rw [if_neg (other _ dot), if_neg path, if_neg (other _ borrow), if_neg (other _ call), if_neg (other _ index)]

theorem named?_spec {link : String → Segment} {c d : Cursor} {segment : Segment}
    (found : named? link c = some (segment, d)) : c < d := by
  unfold named? at found
  split at found
  · simp at found
  · next nonempty =>
    simp only [Option.some.injEq, Prod.mk.injEq] at found
    obtain ⟨_, rfl⟩ := found
    apply Cursor.lt_of_reads (Cursor.reads_textTo (Cursor.le_skipIdent c))
    simpa using nonempty

theorem delimited?_error {link : String → Segment} {limit : Nat} {c : Cursor} {ch : Char}
    {refusal : Refusal} (head : c.peek = some ch) (opens : isOpener ch = true)
    (refused : delimited? link limit c = .error refusal) : Encloses c ch (.error refusal) := by
  have spec := enclosed_spec limit head opens
  unfold delimited? at refused
  split at refused
  · simp at refused
  · next other found =>
    obtain rfl := Except.error.inj refused
    rw [found] at spec
    exact spec

/-- A fragment inside a chain was refused: the fragment opens at or after `c`. -/
def RefusedFrom (c : Cursor) (refusal : Refusal) : Prop :=
  ∃ opener ch, c ≤ opener ∧ opener.peek = some ch ∧ isOpener ch = true ∧ Encloses opener ch (.error refusal)

theorem segment?_error {limit : Nat} {c : Cursor} {refusal : Refusal}
    (refused : segment? limit c = .error refusal) : RefusedFrom c refusal := by
  unfold segment? at refused
  split at refused
  · simp at refused
  · simp at refused
  · simp at refused
  · next rest starts =>
    have head := Cursor.peek_eq_some.mpr ⟨rest, starts⟩
    exact ⟨c, _, le_refl c, head, rfl, delimited?_error head rfl refused⟩
  · next rest starts =>
    have head := Cursor.peek_eq_some.mpr ⟨rest, starts⟩
    exact ⟨c, _, le_refl c, head, rfl, delimited?_error head rfl refused⟩
  · simp at refused

theorem lt_of_segment? {limit : Nat} {c d : Cursor} {segment : Segment}
    (found : segment? limit c = .ok (some (segment, d))) : c < d := by
  obtain ⟨text, nonempty, reads⟩ := reads_segment? found
  exact Cursor.lt_of_reads reads nonempty

theorem segmentsFrom_ok {limit : Nat} {done segments : List Segment} {c d : Cursor}
    (found : segmentsFrom limit done c = .ok (segments, d)) : c ≤ d := by
  fun_induction segmentsFrom limit done c with
  | case1 => simp at found
  | case2 => simp_all
  | case3 _ _ _ _ link ih => exact (lt_of_segment? link).le.trans (ih found)

theorem segmentsFrom_error {limit : Nat} {done : List Segment} {c : Cursor} {refusal : Refusal}
    (refused : segmentsFrom limit done c = .error refusal) : RefusedFrom c refusal := by
  fun_induction segmentsFrom limit done c with
  | case1 _ _ _ link =>
    obtain rfl := Except.error.inj refused
    exact segment?_error link
  | case2 => simp at refused
  | case3 _ _ _ _ link ih =>
    obtain ⟨opener, ch, later, rest⟩ := ih refused
    exact ⟨opener, ch, (lt_of_segment? link).le.trans later, rest⟩

/-- A chain is a name behind its borrows, with the links that follow the name. -/
theorem exists_of_chain?_eq_some {limit : Nat} {c : Cursor} {chain : Chain}
    (found : chain? limit c = .ok (some chain)) :
    ∃ first after, named? .ident (c.skipWhile (· == '&')) = some (first, after) ∧
      segmentsFrom limit [first] after = .ok (chain.segments, chain.after) ∧
      chain.refs = (c.skipWhile (· == '&')).pos - c.pos := by
  simp only [chain?] at found
  split at found
  · simp at found
  · next first after named =>
    split at found
    · simp at found
    · next segments last links =>
      obtain rfl := Option.some.inj (Except.ok.inj found)
      exact ⟨first, after, named, links, rfl⟩

/-- A chain goes beyond its leading borrows. -/
theorem chain?_ok {limit : Nat} {c : Cursor} {chain : Chain} (found : chain? limit c = .ok (some chain)) :
    c < chain.after := by
  obtain ⟨first, after, named, links, _⟩ := exists_of_chain?_eq_some found
  calc
    c ≤ c.skipWhile (· == '&') := Cursor.le_skipWhile _ c
    _ < after := named?_spec named
    _ ≤ chain.after := segmentsFrom_ok links

theorem chain?_error {limit : Nat} {c : Cursor} {refusal : Refusal} (refused : chain? limit c = .error refusal) :
    RefusedFrom c refusal := by
  simp only [chain?] at refused
  split at refused
  · simp at refused
  · next first after named =>
    split at refused
    · next links =>
      obtain rfl := Except.error.inj refused
      obtain ⟨opener, ch, later, rest⟩ := segmentsFrom_error links
      exact ⟨opener, ch, ((Cursor.le_skipWhile _ c).trans (named?_spec named).le).trans later, rest⟩
    · simp at refused

end SigilTemplate.Code
