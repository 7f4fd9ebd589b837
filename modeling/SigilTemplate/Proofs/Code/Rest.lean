import SigilTemplate.Proofs.Code.Extent

/-!
The rest of a match, pattern by pattern. Going over one arrow after the other
ends at the first brace that closes nothing, and every arrow on the way lies
further on than the one before it.
-/

namespace SigilTemplate.Code
open Text

/-- What seeking does with one character at a bracket depth. -/
def seekStep (stops : Cursor → Bool) (depth : Nat) (ch : Char) (place : Cursor) : Option Cursor ⊕ Nat :=
  if depth = 0 && stops place then .inl (some place)
  else if isOpener ch then .inr (depth + 1)
  else if isCloser ch then .inr (depth - 1)
  else .inr depth

/-- Seeking from a place inside as many brackets. -/
def seekFrom (stops : Cursor → Bool) (depth : Nat) (c : Cursor) : Option Cursor :=
  scan (seekStep stops) (fun _ _ => none) depth c

theorem seek_eq (stops : Cursor → Bool) (c : Cursor) : seek stops c = seekFrom stops 0 c := rfl

variable {stops fewer : Cursor → Bool}

theorem seekFrom_literal {depth : Nat} {c after : Cursor} (literal : literalEnd? c = some after) :
    seekFrom stops depth c = seekFrom stops depth after :=
  scan_literal literal

theorem seekFrom_step {depth : Nat} {c : Cursor} {ch : Char} (plain : literalEnd? c = none) (head : c.peek = some ch) :
    seekFrom stops depth c = match seekStep stops depth ch c with
      | .inl answer => answer
      | .inr depth => seekFrom stops depth c.next := by
  obtain ⟨rest, starts⟩ := Cursor.peek_eq_some.mp head
  rw [seekFrom, scan_step plain starts]
  cases seekStep stops depth ch c <;> rfl

theorem seekFrom_end {depth : Nat} {c : Cursor} (empty : c.rest = []) : seekFrom stops depth c = none :=
  scan_end empty

theorem seekStep_inl {depth : Nat} {ch : Char} {place : Cursor} {answer : Option Cursor}
    (answers : seekStep stops depth ch place = .inl answer) : depth = 0 ∧ stops place = true ∧ answer = some place := by
  unfold seekStep at answers
  split at answers
  · next here =>
    simp only [Bool.and_eq_true, decide_eq_true_eq] at here
    exact ⟨here.1, here.2, (Sum.inl.inj answers).symm⟩
  · split at answers
    · simp at answers
    · split at answers <;> simp at answers

/-- Where one search goes on, so does a search that stops at fewer places. -/
theorem seekStep_inr {depth next : Nat} {ch : Char} {place here : Cursor}
    (sub : fewer here = true → stops place = true) (goesOn : seekStep stops depth ch place = .inr next) :
    seekStep fewer depth ch here = .inr next := by
  by_cases stopped : (decide (depth = 0) && stops place) = true
  · simp [seekStep, stopped] at goesOn
  · have neither : ¬(decide (depth = 0) && fewer here) = true := by
      intro both
      simp only [Bool.and_eq_true] at both stopped
      exact stopped ⟨both.1, sub both.2⟩
    rw [← goesOn, seekStep, seekStep, if_neg stopped, if_neg neither]

/-- A search that stops at fewer places either stops where the other one does or goes on from there. -/
theorem seekFrom_fewer (sub : ∀ place, fewer place = true → stops place = true) (depth : Nat) (c : Cursor) :
    match seekFrom stops depth c with
    | some place => literalEnd? place = none ∧ stops place = true ∧
        seekFrom fewer depth c = if fewer place then some place else seekFrom fewer 0 place
    | none => seekFrom fewer depth c = none := by
  unfold seekFrom
  fun_induction scan (seekStep stops) (fun _ _ => none) depth c with
  | case1 depth c after literal ih =>
    have same : seekFrom fewer depth c = seekFrom fewer depth after := seekFrom_literal literal
    rw [seekFrom, seekFrom] at same
    rw [same]
    exact ih
  | case2 depth c literal empty => exact seekFrom_end empty
  | case3 depth c literal ch rest starts answer answers =>
    have head := Cursor.peek_eq_some.mpr ⟨rest, starts⟩
    obtain ⟨rfl, stop, rfl⟩ := seekStep_inl answers
    refine ⟨literal, stop, ?_⟩
    by_cases here : fewer c = true
    · have step : seekStep fewer 0 ch c = .inl (some c) := by simp [seekStep, here]
      rw [if_pos here, ← seekFrom, seekFrom_step literal head, step]
    · rw [if_neg here]
  | case4 depth c literal ch rest starts next goesOn ih =>
    have head := Cursor.peek_eq_some.mpr ⟨rest, starts⟩
    have same : seekFrom fewer depth c = seekFrom fewer next c.next := by
      rw [seekFrom_step literal head, seekStep_inr (sub _) goesOn]
    rw [seekFrom, seekFrom] at same
    rw [same]
    exact ih

/-- A character that is no literal is passed over if it is no bracket and does not stop the search. -/
theorem seekFrom_next {c : Cursor} {ch : Char} (plain : literalEnd? c = none) (head : c.peek = some ch)
    (opener : isOpener ch = false) (closer : isCloser ch = false) (on : stops c = false) :
    seekFrom stops 0 c = seekFrom stops 0 c.next := by
  have step : seekStep stops 0 ch c = .inr 0 := by simp [seekStep, on, opener, closer]
  rw [seekFrom_step plain head, step]

/-- One round over the rest of a match: on from behind the next arrow, or the brace that ends it, if one does. -/
def restStep (c : Cursor) : Cursor ⊕ Option Cursor :=
  match patternEnd c with
  | .arrow arrow => .inl (arrow.skip 2)
  | .stopped place => .inr (if place.peek = some '}' then some place else none)

theorem rest_of_atArrow {c : Cursor} (here : atArrow c = true) : ∃ rest, c.rest = '=' :: '>' :: rest := by
  obtain ⟨rest, starts⟩ := List.isPrefixOf_iff_prefix.mp here
  exact ⟨rest, starts.symm⟩

/-- A round that goes on has moved on by an arrow at least. -/
theorem lt_of_restStep {c next : Cursor} (goesOn : restStep c = .inl next) : c < next := by
  unfold restStep at goesOn
  split at goesOn
  · next arrow ends =>
    obtain ⟨later, here⟩ := patternEnd_arrow ends
    obtain ⟨rest, starts⟩ := rest_of_atArrow here
    obtain rfl := Sum.inl.inj goesOn
    calc
      c ≤ arrow := later
      _ < arrow.next := Cursor.lt_next (Cursor.peek_eq_some.mpr ⟨_, starts⟩)
      _ ≤ arrow.skip 2 := Cursor.le_next arrow.next
  · simp at goesOn

/-- The brace that ends the rest of a match is the one at which the rounds end. -/
theorem unmatchedBrace?_eq (c : Cursor) :
    unmatchedBrace? c = match restStep c with
      | .inl next => unmatchedBrace? next
      | .inr answer => answer := by
  let brace (place : Cursor) : Bool := decide (place.peek = some '}')
  let either (place : Cursor) : Bool := decide (place.peek = some '}') || atArrow place
  have sub : ∀ place, brace place = true → either place = true := by
    intro place here
    exact Bool.or_eq_true_iff.mpr (.inl here)
  have fewer := seekFrom_fewer sub 0 c
  have from_ (place : Cursor) : unmatchedBrace? place = seekFrom brace 0 place := rfl
  have pattern : patternEnd c = match seekFrom either 0 c with
    | some place => if atArrow place then .arrow place else .stopped place
    | none => .stopped c.finish := rfl
  rw [restStep, pattern, from_]
  cases found : seekFrom either 0 c with
  | none =>
    rw [found] at fewer
    exact fewer
  | some place =>
    rw [found] at fewer
    obtain ⟨plain, stop, same⟩ := fewer
    rw [same]
    by_cases here : atArrow place = true
    · obtain ⟨rest, starts⟩ := rest_of_atArrow here
      have first : place.peek = some '=' := Cursor.peek_eq_some.mpr ⟨_, starts⟩
      have second : place.next.peek = some '>' := by simp [Cursor.next, Cursor.peek, starts]
      have plain' : literalEnd? place.next = none := by simp [literalEnd?, Cursor.next, starts]
      have on : brace place = false := by simp [brace, first]
      have on' : brace place.next = false := by simp [brace, second]
      simp only [if_pos here, on, from_]
      rw [if_neg (by decide), seekFrom_next plain first rfl rfl on, seekFrom_next plain' second rfl rfl on']
      rfl
    · have close : place.peek = some '}' := by simpa [either, here] using stop
      simp [brace, here, close]

end SigilTemplate.Code
