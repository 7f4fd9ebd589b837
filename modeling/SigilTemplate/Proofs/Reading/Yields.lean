import SigilTemplate.Proofs.Reading.Fault

/-!
What a reading yields. A reading of a source yields values with a property if
its answer has the property, and if otherwise its fault is raised by what the
source says. A loop yields what its steps preserve: as every step moves on
within the text, the answer is always that of a step.
-/

namespace SigilTemplate
open Text

namespace Traced

variable {α β σ ρ : Type} {source : List Char}

/-- The answer has the property; a fault is one that the source raises. -/
def Yields (source : List Char) (x : Traced α) (post : α → Prop) : Prop :=
  match x.outcome with
  | .ok answer => post answer
  | .error fault => fault.Raised source

theorem Yields.pure {answer : α} {post : α → Prop} (holds : post answer) :
    (Pure.pure answer : Traced α).Yields source post :=
  holds

theorem Yields.fail {fault : Fault} {post : α → Prop} (raised : fault.Raised source) :
    (Traced.fail fault : Traced α).Yields source post :=
  raised

theorem Yields.of_outcome {x : Traced α} {post : α → Prop} {answer : α} (yields : x.Yields source post)
    (outcome : x.outcome = .ok answer) : post answer := by
  rw [Yields, outcome] at yields
  exact yields

theorem Yields.of_fault {x : Traced α} {post : α → Prop} {fault : Fault} (yields : x.Yields source post)
    (outcome : x.outcome = .error fault) : fault.Raised source := by
  rw [Yields, outcome] at yields
  exact yields

theorem bind_ok {x : Traced α} {answer : α} (outcome : x.outcome = .ok answer) (f : α → Traced β) :
    x >>= f = ⟨x.recoveries ++ (f answer).recoveries, (f answer).outcome⟩ := by
  change Traced.bind x f = _
  simp only [Traced.bind, outcome]

theorem bind_error {x : Traced α} {fault : Fault} (outcome : x.outcome = .error fault) (f : α → Traced β) :
    x >>= f = ⟨x.recoveries, .error fault⟩ := by
  change Traced.bind x f = _
  simp only [Traced.bind, outcome]

theorem bind_pure_eq (x : Traced α) (f : α → β) :
    (x >>= fun answer => pure (f answer)) = ⟨x.recoveries, x.outcome.map f⟩ := by
  cases outcome : x.outcome with
  | ok answer =>
    rw [bind_ok outcome]
    exact congrArg (Traced.mk · _) (List.append_nil _)
  | error fault => exact bind_error outcome _

theorem bind_pure (x : Traced α) : x >>= pure = x := by
  rw [bind_pure_eq x fun answer => answer]
  cases x with
  | mk recoveries outcome => cases outcome <;> rfl

theorem bind_assoc {γ : Type} (x : Traced α) (f : α → Traced β) (g : β → Traced γ) :
    x >>= f >>= g = x >>= fun answer => f answer >>= g := by
  cases outcome : x.outcome with
  | error fault => rw [bind_error outcome, bind_error outcome, bind_error rfl]
  | ok answer =>
    rw [bind_ok outcome, bind_ok outcome]
    cases next : (f answer).outcome with
    | error fault => rw [bind_error next, bind_error rfl]
    | ok further =>
      rw [bind_ok next, bind_ok rfl, List.append_assoc]

theorem Yields.bind {x : Traced α} {f : α → Traced β} {between : α → Prop} {post : β → Prop}
    (first : x.Yields source between) (second : ∀ answer, between answer → (f answer).Yields source post) :
    (x >>= f).Yields source post := by
  cases outcome : x.outcome with
  | ok answer =>
    rw [bind_ok outcome]
    exact second answer (first.of_outcome outcome)
  | error fault =>
    rw [bind_error outcome]
    exact first.of_fault outcome

/-- After a recovery, reading goes on with the error node. -/
theorem Yields.recover {cause : Malformation} {span : Span} {children : List Node} {f : Node → Traced β}
    {post : β → Prop} (next : (f ⟨.error cause children, span⟩).Yields source post) :
    (Traced.recover cause span children >>= f).Yields source post := by
  have first : (Traced.recover cause span children).Yields source fun node => node = ⟨.error cause children, span⟩ :=
    rfl
  apply Yields.bind first
  intro node same
  rw [same]
  exact next

/-- The step answers, or goes on to a later state within the limit. -/
def Advances (source : List Char) (limit : Nat) (pos : σ → Nat) (inv : σ → Prop) (post : ρ → Prop)
    (step : σ → Traced (σ ⊕ ρ)) : Prop :=
  ∀ state, inv state → (step state).Yields source fun
    | .inl next => inv next ∧ pos state < pos next ∧ pos next ≤ limit
    | .inr answer => post answer

theorem Yields.iterate_go {limit : Nat} {pos : σ → Nat} {inv : σ → Prop} {post : ρ → Prop}
    {step : σ → Traced (σ ⊕ ρ)} {stuck : σ → ρ} (advances : Advances source limit pos inv post step)
    (done : List Recovery) (state : σ) (start : inv state) :
    (Traced.iterate.go limit pos step stuck done state).Yields source post := by
  fun_induction Traced.iterate.go limit pos step stuck done state with
  | case1 done state more fault outcome =>
    have yields := advances state start
    rw [outcome] at yields
    exact yields
  | case2 done state more answer outcome =>
    have yields := advances state start
    rw [outcome] at yields
    exact yields
  | case3 done state more next outcome onward ih =>
    have yields := advances state start
    rw [outcome] at yields
    exact ih yields.1
  | case4 done state more next outcome stuck =>
    have yields := advances state start
    rw [outcome] at yields
    exact absurd yields.2 stuck

/-- A loop yields what its steps preserve. -/
theorem Yields.iterate {limit : Nat} {pos : σ → Nat} {inv : σ → Prop} {post : ρ → Prop}
    {step : σ → Traced (σ ⊕ ρ)} {stuck : σ → ρ} {state : σ} (advances : Advances source limit pos inv post step)
    (start : inv state) : (Traced.iterate limit pos step stuck state).Yields source post :=
  Yields.iterate_go advances [] state start

end Traced

end SigilTemplate
