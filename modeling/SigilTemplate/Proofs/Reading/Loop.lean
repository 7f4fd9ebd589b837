import SigilTemplate.Proofs.Reading.Yields

/-!
Loops without a guard. A loop whose rounds move on needs no guard to end: it
runs round after round until one of them answers, and the guarded loop gives
just what such a run gives.
-/

namespace SigilTemplate.Traced

variable {σ ρ : Type} {source : List Char} {limit : Nat} {pos : σ → Nat} {step : σ → Traced (σ ⊕ ρ)}

/-- The states that a loop comes to, round after round. -/
inductive Reaches (step : σ → Traced (σ ⊕ ρ)) (start : σ) : σ → Prop
  | start : Reaches step start start
  | next {state next : σ} (earlier : Reaches step start state) (goesOn : (step state).outcome = .ok (.inl next)) :
    Reaches step start next

/-- In every state that the loop comes to, a round that goes on moves on, and not beyond the limit. -/
def MovesOn (limit : Nat) (pos : σ → Nat) (step : σ → Traced (σ ⊕ ρ)) (start : σ) : Prop :=
  ∀ state next, Reaches step start state → (step state).outcome = .ok (.inl next) → pos state < pos next ∧ pos next ≤ limit

/-- A loop as it runs when nothing watches over its rounds. -/
inductive Runs (step : σ → Traced (σ ⊕ ρ)) : σ → Traced ρ → Prop
  | fault {state : σ} {more : List Recovery} {fault : Fault} (ends : step state = ⟨more, .error fault⟩) :
    Runs step state ⟨more, .error fault⟩
  | answer {state : σ} {more : List Recovery} {answer : ρ} (ends : step state = ⟨more, .ok (.inr answer)⟩) :
    Runs step state ⟨more, .ok answer⟩
  | next {state next : σ} {more : List Recovery} {run : Traced ρ} (goesOn : step state = ⟨more, .ok (.inl next)⟩)
    (onward : Runs step next run) : Runs step state ⟨more ++ run.recoveries, run.outcome⟩

/-- A loop runs in one way only. -/
theorem Runs.unique {state : σ} {first second : Traced ρ} (left : Runs step state first) (right : Runs step state second) :
    first = second := by
  induction left generalizing second with
  | fault ends => cases right <;> simp_all
  | answer ends => cases right <;> simp_all
  | @next state next more run goesOn onward ih =>
    cases right with
    | fault ends => simp [goesOn] at ends
    | answer ends => simp [goesOn] at ends
    | @next _ next' more' run' goesOn' onward' =>
      obtain ⟨rfl, same⟩ := Traced.mk.inj (goesOn.symm.trans goesOn')
      obtain rfl := Sum.inl.inj (Except.ok.inj same)
      rw [ih onward']

/-- What the rounds of a loop preserve holds in every state that it comes to. -/
theorem Advances.of_reaches {inv : σ → Prop} {post : ρ → Prop} {start state : σ}
    (advances : Advances source limit pos inv post step) (holds : inv start) (reached : Reaches step start state) :
    inv state := by
  induction reached with
  | start => exact holds
  | next _ goesOn ih => exact ((advances _ ih).of_outcome goesOn).1

theorem Advances.movesOn {inv : σ → Prop} {post : ρ → Prop} {start : σ} (advances : Advances source limit pos inv post step)
    (holds : inv start) : MovesOn limit pos step start := by
  intro state next reached goesOn
  exact ((advances state (advances.of_reaches holds reached)).of_outcome goesOn).2

theorem MovesOn.runs_go {start : σ} (moves : MovesOn limit pos step start) (stuck : σ → ρ) (done : List Recovery)
    (state : σ) (reached : Reaches step start state) :
    ∃ run, Runs step state run ∧
      iterate.go limit pos step stuck done state = ⟨done.reverse ++ run.recoveries, run.outcome⟩ := by
  fun_induction iterate.go limit pos step stuck done state with
  | case1 done state more fault ends => exact ⟨_, .fault ends, by simp⟩
  | case2 done state more answer ends => exact ⟨_, .answer ends, by simp⟩
  | case3 done state more next goesOn onward ih =>
    obtain ⟨run, runs, same⟩ := ih (reached.next (by rw [goesOn]))
    exact ⟨_, .next goesOn runs, by rw [same]; simp⟩
  | case4 done state more next goesOn stays =>
    exact absurd (moves state next reached (by rw [goesOn])) stays

/-- The guard of a loop whose rounds move on is never needed. -/
theorem MovesOn.runs_iff {start : σ} (moves : MovesOn limit pos step start) (stuck : σ → ρ) (run : Traced ρ) :
    Runs step start run ↔ run = iterate limit pos step stuck start := by
  obtain ⟨whole, runs, same⟩ := moves.runs_go stuck [] start .start
  have same : iterate limit pos step stuck start = whole := same
  rw [same]
  constructor
  · intro other
    exact other.unique runs
  · rintro rfl
    exact runs

/-- A loop that comes to a state gives the answer of a round there. -/
theorem MovesOn.outcome_eq {start state : σ} {answer : ρ} (moves : MovesOn limit pos step start) (stuck : σ → ρ)
    (reached : Reaches step start state) (ends : (step state).outcome = .ok (.inr answer)) :
    (iterate limit pos step stuck start).outcome = .ok answer := by
  have back : ∀ run, Runs step state run → ∃ whole, Runs step start whole ∧ whole.outcome = run.outcome := by
    clear ends
    induction reached with
    | start => exact fun run runs => ⟨run, runs, rfl⟩
    | @next state next _ goesOn ih =>
      intro run runs
      exact ih ⟨(step state).recoveries ++ run.recoveries, run.outcome⟩ (.next (by rw [← goesOn]) runs)
  obtain ⟨whole, runs, same⟩ := back ⟨(step state).recoveries, .ok answer⟩ (.answer (by rw [← ends]))
  rw [← (moves.runs_iff stuck whole).mp runs, same]

end SigilTemplate.Traced
