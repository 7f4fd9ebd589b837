import SigilTemplate.Proofs.Code.Extent

/-!
A higher limit on open delimiters. Where code is not refused for want of depth,
a higher limit reads it in just the same way.
-/

namespace SigilTemplate.Code
open Text

/-- The first answer is that there are too many open delimiters, or it is the second. -/
def Deepens {α : Type} (shallow deep : Except Refusal α) : Prop :=
  (∃ pos, shallow = .error (.tooDeep pos)) ∨ shallow = deep

/-- Two scans whose steps differ only where the first one is refused for want of depth. -/
theorem scan_deepens {σ α : Type} {step other : σ → Char → Cursor → Except Refusal α ⊕ σ}
    {finish : σ → Cursor → Except Refusal α}
    (steps : ∀ state ch c, (∃ pos, step state ch c = .inl (.error (.tooDeep pos))) ∨ step state ch c = other state ch c)
    (state : σ) (c : Cursor) : Deepens (scan step finish state c) (scan other finish state c) := by
  fun_induction scan step finish state c with
  | case1 state c after literal ih =>
    rw [scan_literal literal]
    exact ih
  | case2 state c literal empty => exact .inr (scan_end empty).symm
  | case3 state c literal ch rest starts answer answers =>
    rcases steps state ch c with ⟨pos, deep⟩ | same
    · exact .inl ⟨pos, Sum.inl.inj (answers.symm.trans deep)⟩
    · rw [scan_step literal starts, ← same, answers]
      exact .inr rfl
  | case4 state c literal ch rest starts next goesOn ih =>
    rcases steps state ch c with ⟨pos, deep⟩ | same
    · simp [goesOn] at deep
    · rw [scan_step literal starts, ← same, goesOn]
      exact ih

variable {low high : Nat}

theorem enclosed_deepens (le : low ≤ high) (c : Cursor) : Deepens (enclosed low c) (enclosed high c) := by
  unfold enclosed
  refine scan_deepens ?_ _ c.next
  intro nesting ch place
  unfold encloseStep
  by_cases opens : isOpener ch = true
  · simp only [if_pos opens]
    by_cases deep : nesting.depth ≥ max low 1
    · rw [if_pos deep]
      exact .inl ⟨_, rfl⟩
    · have fits : ¬nesting.depth ≥ max high 1 := by omega
      rw [if_neg deep, if_neg fits]
      exact .inr rfl
  · right
    simp only [if_neg opens]

theorem segment?_deepens (le : low ≤ high) (c : Cursor) : Deepens (segment? low c) (segment? high c) := by
  have delimited (link : String → Segment) : Deepens (delimited? link low c) (delimited? link high c) := by
    unfold delimited?
    rcases enclosed_deepens le c with ⟨pos, deep⟩ | same
    · rw [deep]
      exact .inl ⟨pos, rfl⟩
    · rw [same]
      exact .inr rfl
  unfold segment?
  split
  · exact .inr rfl
  · exact .inr rfl
  · exact .inr rfl
  · exact delimited _
  · exact delimited _
  · exact .inr rfl

theorem segmentsFrom_eq (limit : Nat) (done : List Segment) (c : Cursor) :
    segmentsFrom limit done c = match segment? limit c with
      | .error refusal => .error refusal
      | .ok none => .ok (done.reverse, c)
      | .ok (some (segment, after)) => segmentsFrom limit (segment :: done) after := by
  conv => lhs; rw [segmentsFrom.eq_def]
  split
  · next link => rw [link]
  · next link => rw [link]
  · next link => rw [link]

theorem segmentsFrom_deepens (le : low ≤ high) (done : List Segment) (c : Cursor) :
    Deepens (segmentsFrom low done c) (segmentsFrom high done c) := by
  fun_induction segmentsFrom low done c with
  | case1 done c refusal link =>
    rcases segment?_deepens le c with ⟨pos, deep⟩ | same
    · rw [Except.error.inj (link.symm.trans deep)]
      exact .inl ⟨pos, rfl⟩
    · rw [segmentsFrom_eq, ← same, link]
      exact .inr rfl
  | case2 done c link =>
    rcases segment?_deepens le c with ⟨pos, deep⟩ | same
    · simp [link] at deep
    · rw [segmentsFrom_eq, ← same, link]
      exact .inr rfl
  | case3 done c segment after link ih =>
    rcases segment?_deepens le c with ⟨pos, deep⟩ | same
    · simp [link] at deep
    · rw [segmentsFrom_eq high, ← same, link]
      exact ih

theorem chain?_deepens (le : low ≤ high) (c : Cursor) : Deepens (chain? low c) (chain? high c) := by
  simp only [chain?]
  split
  · exact .inr rfl
  · next first after _ =>
    rcases segmentsFrom_deepens le [first] after with ⟨pos, deep⟩ | same
    · rw [deep]
      exact .inl ⟨pos, rfl⟩
    · rw [same]
      exact .inr rfl

/-- A chain whose name is followed by a parenthesis that is refused is refused with it. -/
theorem chain?_of_enclosed {limit pos : Nat} {c : Cursor} {ch : Char} (head : c.peek = some ch) (letter : isIdentStart ch = true)
    (opens : c.skipIdent.peek = some '(') (deep : enclosed limit c.skipIdent = .error (.tooDeep pos)) :
    chain? limit c = .error (.tooDeep pos) := by
  obtain ⟨rest, starts⟩ := Cursor.peek_eq_some.mp head
  have plain : (ch == '&') = false := by
    rw [beq_eq_false_iff_ne]
    rintro rfl
    revert letter
    decide
  have here : c.skipWhile (· == '&') = c := by
    have reads := Cursor.reads_skipWhile (· == '&') c
    rw [starts, List.takeWhile_cons_of_neg (by simp [plain])] at reads
    exact (Cursor.reads_nil reads).symm
  have name : c.textTo c.skipIdent = ch :: rest.takeWhile isIdentPart := by
    rw [(Cursor.reads_skipIdent c).textTo_eq, starts, identHead, if_pos letter]
  obtain ⟨tail, paren⟩ := Cursor.peek_eq_some.mp opens
  have link : segment? limit c.skipIdent = .error (.tooDeep pos) := by
    simp only [segment?, paren, delimited?, deep]
  simp only [chain?, here, named?, name, segmentsFrom_eq, link]

end SigilTemplate.Code
