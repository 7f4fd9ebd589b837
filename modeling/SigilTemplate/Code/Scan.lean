import SigilTemplate.Code.Literal

/-!
Reading embedded code as far as needed. Literals are passed over whole, so a
delimiter inside one is never seen; every other character is offered to a step
function together with its place, until that function has its answer.
-/

namespace SigilTemplate.Code

variable {σ ρ : Type}

/-- Reads code from `c` on. At each character outside literals `step` answers or goes on with a
new state; at the end of the text `finish` answers. -/
def scan (step : σ → Char → Cursor → ρ ⊕ σ) (finish : σ → Cursor → ρ) (state : σ) (c : Cursor) : ρ :=
  match _literal : literalEnd? c with
  | some after => scan step finish state after
  | none =>
    match _head : c.rest with
    | [] => finish state c
    | ch :: _ =>
      match step state ch c with
      | .inl answer => answer
      | .inr state => scan step finish state c.next
termination_by c.rest.length
decreasing_by
  · obtain ⟨text, nonempty, reads⟩ := reads_literalEnd? _literal
    exact reads.length_lt nonempty
  · exact (Cursor.reads_next _head).length_lt (by simp)

/-- What holds at the start, over every literal and after every step that goes on, holds wherever
an answer is given. -/
theorem scan_post {step : σ → Char → Cursor → ρ ⊕ σ} {finish : σ → Cursor → ρ}
    (inv : σ → Cursor → Prop) (post : ρ → Prop)
    (overLiteral : ∀ state c d, inv state c → literalEnd? c = some d → inv state d)
    (overStep : ∀ state c ch rest, inv state c → literalEnd? c = none → c.rest = ch :: rest →
      (∀ answer, step state ch c = .inl answer → post answer) ∧
        ∀ next, step state ch c = .inr next → inv next c.next)
    (atEnd : ∀ state c, inv state c → c.rest = [] → post (finish state c))
    (state : σ) (c : Cursor) (start : inv state c) : post (scan step finish state c) := by
  fun_induction scan step finish state c with
  | case1 state c after literal ih => exact ih (overLiteral _ _ _ start literal)
  | case2 state c literal empty => exact atEnd _ _ start empty
  | case3 state c literal ch rest head answer answers =>
    exact (overStep _ _ _ _ start literal head).1 _ answers
  | case4 state c literal ch rest head next goesOn ih =>
    exact ih ((overStep _ _ _ _ start literal head).2 _ goesOn)

end SigilTemplate.Code
