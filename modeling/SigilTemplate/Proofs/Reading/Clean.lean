import SigilTemplate.Proofs.Reading.Loop

/-!
Readings that give nothing up. Such a reading is a plain answer, and so is each
reading on the way to it: a recovery or a fault anywhere would show. A loop
gives an answer in this way if each of its rounds goes on or answers so.
-/

namespace SigilTemplate.Traced

variable {α β σ ρ : Type} {source : List Char}

theorem Yields.of_clean {x : Traced α} {post : α → Prop} {answer : α} (yields : x.Yields source post)
    (clean : x = Pure.pure answer) : post answer :=
  yields.of_outcome (congrArg Traced.outcome clean)

theorem pure_inj {first second : α} : (pure first : Traced α) = pure second ↔ first = second := by
  constructor
  · intro same
    exact Except.ok.inj (congrArg Traced.outcome same)
  · exact congrArg pure

theorem pure_bind (answer : α) (f : α → Traced β) : (pure answer : Traced α) >>= f = f answer := by
  have outcome : (pure answer : Traced α).outcome = .ok answer := rfl
  rw [bind_ok outcome]
  rfl

theorem fail_ne_pure {fault : Fault} {answer : α} : (Traced.fail fault : Traced α) ≠ pure answer := fun same =>
  nomatch congrArg Traced.outcome same

theorem recover_ne_pure {cause : Malformation} {span : Span} {children : List Node} {answer : Node} :
    Traced.recover cause span children ≠ pure answer := fun same => nomatch congrArg Traced.recoveries same

/-- A reading in two parts that gives nothing up has two such parts. -/
theorem exists_of_bind_eq_pure {x : Traced α} {f : α → Traced β} {answer : β} (clean : x >>= f = pure answer) :
    ∃ between, x = pure between ∧ f between = pure answer := by
  cases outcome : x.outcome with
  | error fault =>
    rw [bind_error outcome] at clean
    exact nomatch congrArg Traced.outcome clean
  | ok between =>
    rw [bind_ok outcome] at clean
    obtain ⟨recoveries, last⟩ := Traced.mk.inj clean
    obtain ⟨first, second⟩ := List.append_eq_nil_iff.mp recoveries
    refine ⟨between, ?_, ?_⟩
    · cases x
      simp only at outcome first
      rw [outcome, first]
      rfl
    · cases here : f between
      simp only [here] at second last
      rw [second, last]
      rfl

theorem recover_bind_ne_pure {cause : Malformation} {span : Span} {children : List Node} {f : Node → Traced β}
    {answer : β} : Traced.recover cause span children >>= f ≠ pure answer := fun clean =>
  have ⟨_, first, _⟩ := exists_of_bind_eq_pure clean
  recover_ne_pure first

/-! ## Loops -/

variable {step other : σ → Traced (σ ⊕ ρ)} {limit : Nat} {pos : σ → Nat} {state start : σ} {answer : ρ}

/-- A loop comes from a state to an answer, and none of its rounds gives anything up. -/
inductive Answers (step : σ → Traced (σ ⊕ ρ)) (answer : ρ) : σ → Prop
  | last {state : σ} (ends : step state = pure (.inr answer)) : Answers step answer state
  | next {state next : σ} (goesOn : step state = pure (.inl next)) (onward : Answers step answer next) :
    Answers step answer state

theorem Answers.runs (answers : Answers step answer state) : Runs step state (pure answer) := by
  induction answers with
  | last ends => exact .answer ends
  | next goesOn _ ih => exact .next goesOn ih

theorem Runs.answers {run : Traced ρ} (runs : Runs step state run) (clean : run = pure answer) :
    Answers step answer state := by
  induction runs with
  | fault => exact nomatch congrArg Traced.outcome clean
  | @answer state more given ends =>
    obtain ⟨rfl, same⟩ := Traced.mk.inj clean
    obtain rfl := Except.ok.inj same
    exact .last ends
  | @next state next more run goesOn _ ih =>
    obtain ⟨recoveries, last⟩ := Traced.mk.inj clean
    obtain ⟨rfl, nothing⟩ := List.append_eq_nil_iff.mp recoveries
    refine .next goesOn (ih ?_)
    cases run
    simp only at nothing last
    rw [nothing, last]
    rfl

/-- A loop whose rounds move on gives what its rounds come to. -/
theorem MovesOn.iterate_eq_pure_iff (moves : MovesOn limit pos step start) (stuck : σ → ρ) :
    iterate limit pos step stuck start = pure answer ↔ Answers step answer start := by
  rw [eq_comm, ← moves.runs_iff stuck]
  exact ⟨fun runs => runs.answers rfl, Answers.runs⟩

/-- What each round preserves holds in the last one. -/
theorem Answers.exists_last {inv : σ → Prop} (answers : Answers step answer state) (start : inv state)
    (rounds : ∀ state next, inv state → step state = pure (.inl next) → inv next) :
    ∃ last, inv last ∧ step last = pure (.inr answer) := by
  induction answers with
  | last ends => exact ⟨_, start, ends⟩
  | next goesOn _ ih => exact ih (rounds _ _ start goesOn)

/-- Two loops in step: as long as corresponding states lead to corresponding ones, so do the answers correspond. -/
theorem Answers.transfer {τ υ : Type} {alone : τ → Traced (τ ⊕ υ)} {rel : σ → τ → Prop} {post : υ → Prop} {first : τ}
    (answers : Answers step answer state) (start : rel state first)
    (rounds : ∀ state next first, rel state first → step state = pure (.inl next) → Answers step answer next →
      ∃ second, alone first = pure (.inl second) ∧ rel next second)
    (last : ∀ state first, rel state first → step state = pure (.inr answer) →
      ∃ own, alone first = pure (.inr own) ∧ post own) :
    ∃ own, Answers alone own first ∧ post own := by
  induction answers generalizing first with
  | last ends =>
    obtain ⟨own, same, holds⟩ := last _ _ start ends
    exact ⟨own, .last same, holds⟩
  | next goesOn onward ih =>
    obtain ⟨second, same, holds⟩ := rounds _ _ _ start goesOn onward
    obtain ⟨own, answers, holds⟩ := ih holds
    exact ⟨own, .next same answers, holds⟩

end SigilTemplate.Traced
