import SigilTemplate.Proofs.Bytes.Access
import SigilTemplate.Proofs.Reading.Yields
import SigilTemplate.Reading.Level

/-!
Reading by offsets. Besides what it gives, a run counts the braces that are
open around it; a breach ends it at once. A run follows a reading if it is no
breach, gives what the reading gives, and leaves as many braces open as before.
-/

namespace SigilTemplate.Bytes
open Text

/-- A reading by offsets, from a number of open braces. -/
def Run (α : Type) := Nat → Checked (Traced α × Nat)

namespace Run

variable {α β σ ρ : Type}

def bind (x : Run α) (f : α → Run β) : Run β := fun braces =>
  match x braces with
  | .error breach => .error breach
  | .ok (⟨recoveries, .error fault⟩, after) => .ok (⟨recoveries, .error fault⟩, after)
  | .ok (⟨recoveries, .ok answer⟩, between) =>
    match f answer between with
    | .error breach => .error breach
    | .ok (⟨more, outcome⟩, after) => .ok (⟨recoveries ++ more, outcome⟩, after)

instance : Monad Run where
  pure a := fun braces => .ok (pure a, braces)
  bind := bind

instance : MonadLift Checked Run where
  monadLift x := fun braces => x.map fun a => (pure a, braces)

instance : MonadLift Traced Run where
  monadLift x := fun braces => .ok (x, braces)

/-- Some brace is open. -/
def isBraced : Run Bool := fun braces => .ok (pure (0 < braces), braces)

/-- Reads with one more open brace. -/
def insideBraces (x : Run α) : Run α := fun braces =>
  match x (braces + 1) with
  | .error breach => .error breach
  | .ok (⟨recoveries, .error fault⟩, after) => .ok (⟨recoveries, .error fault⟩, after)
  | .ok (⟨recoveries, .ok answer⟩, after) => (minus after 1).map fun after => (⟨recoveries, .ok answer⟩, after)

/-- Repeats a step until it answers. A step that does not move on is a breach. -/
def iterate (limit : Nat) (pos : σ → Nat) (step : σ → Run (σ ⊕ ρ)) (state : σ) : Run ρ := fun braces =>
  match step state braces with
  | .error breach => .error breach
  | .ok (⟨more, .error fault⟩, after) => .ok (⟨more, .error fault⟩, after)
  | .ok (⟨more, .ok (.inr answer)⟩, after) => .ok (⟨more, .ok answer⟩, after)
  | .ok (⟨more, .ok (.inl next)⟩, after) =>
    if pos state < pos next ∧ pos next ≤ limit then
      match iterate limit pos step next after with
      | .error breach => .error breach
      | .ok (⟨further, outcome⟩, after) => .ok (⟨more ++ further, outcome⟩, after)
    else .error (.index (pos next))
termination_by limit - pos state

end Run

/-- The run is no breach, reads the same, and closes all braces that it opens. -/
def Follows {α : Type} (context : Context) (run : Run α) (reading : Traced α) : Prop :=
  ∀ braces, (context.braced = true ↔ 0 < braces) →
    ∃ after, run braces = .ok (reading, after) ∧ ∀ answer, reading.outcome = .ok answer → after = braces

namespace Follows

variable {α β σ ρ : Type} {context : Context}

theorem pure (a : α) : Follows context (Pure.pure a) (Pure.pure a) :=
  fun braces _ => ⟨braces, rfl, fun _ _ => rfl⟩

theorem traced (reading : Traced α) : Follows context (liftM reading : Run α) reading :=
  fun braces _ => ⟨braces, rfl, fun _ _ => rfl⟩

theorem bind {x : Run α} {f : α → Run β} {y : Traced α} {g : α → Traced β} (first : Follows context x y)
    (second : ∀ a, y.outcome = .ok a → Follows context (f a) (g a)) : Follows context (x >>= f) (y >>= g) := by
  intro braces inside
  obtain ⟨between, run, closed⟩ := first braces inside
  obtain ⟨recoveries, outcome⟩ := y
  change ∃ after, Run.bind x f braces = .ok (Traced.bind ⟨recoveries, outcome⟩ g, after) ∧ _
  rw [Run.bind, run]
  cases outcome with
  | error fault =>
    refine ⟨between, rfl, ?_⟩
    intro answer ok
    cases ok
  | ok a =>
    obtain rfl := closed a rfl
    obtain ⟨after, further, closes⟩ := second a rfl between inside
    refine ⟨after, ?_, closes⟩
    dsimp only
    rw [further]
    rfl

/-- An access that is no breach leaves the rest of the run to be followed. -/
theorem check {x : Checked α} {a : α} {f : α → Run β} {reading : Traced β} (ok : x = .ok a)
    (next : Follows context (f a) reading) : Follows context ((liftM x : Run α) >>= f) reading := by
  intro braces inside
  obtain ⟨after, run, closes⟩ := next braces inside
  refine ⟨after, ?_, closes⟩
  rw [ok]
  change Run.bind (fun braces => .ok (Pure.pure a, braces)) f braces = _
  simp only [Run.bind, Pure.pure, run, List.nil_append]

/-- So does what is given at once. -/
theorem given {a : α} {f : α → Run β} {reading : Traced β} (next : Follows context (f a) reading) :
    Follows context ((Pure.pure a : Run α) >>= f) reading :=
  check (x := .ok a) rfl next

theorem isBraced {f : Bool → Run α} {reading : Traced α} (next : Follows context (f context.braced) reading) :
    Follows context (Run.isBraced >>= f) reading := by
  intro braces inside
  have same : decide (0 < braces) = context.braced := by
    rw [Bool.eq_iff_iff, inside, decide_eq_true_eq]
  obtain ⟨after, run, closes⟩ := next braces inside
  refine ⟨after, ?_, closes⟩
  change Run.bind Run.isBraced f braces = _
  simp only [Run.bind, Run.isBraced, Pure.pure, same, run, List.nil_append]

theorem insideBraces {run : Run α} {reading : Traced α} (inner : Follows context.insideBraces run reading) :
    Follows context run.insideBraces reading := by
  intro braces _
  obtain ⟨after, ran, closes⟩ := inner (braces + 1) ⟨fun _ => Nat.succ_pos braces, fun _ => rfl⟩
  obtain ⟨recoveries, outcome⟩ := reading
  unfold Run.insideBraces
  rw [ran]
  cases outcome with
  | error fault =>
    refine ⟨after, rfl, ?_⟩
    intro answer ok
    simp at ok
  | ok answer =>
    obtain rfl := closes answer rfl
    refine ⟨braces, ?_, fun _ _ => rfl⟩
    simp only [minus_add]
    rfl

theorem iterate_go {source : List Char} {limit : Nat} {pos : σ → Nat} {inv : σ → Prop} {post : ρ → Prop}
    {bytes : σ → Run (σ ⊕ ρ)} {step : σ → Traced (σ ⊕ ρ)} {stuck : σ → ρ}
    (advances : Traced.Advances source limit pos inv post step)
    (follows : ∀ state, inv state → Follows context (bytes state) (step state)) (done : List Recovery) (state : σ)
    (holds : inv state) (braces : Nat) (inside : context.braced = true ↔ 0 < braces) :
    ∃ more outcome after, Run.iterate limit pos bytes state braces = .ok (⟨more, outcome⟩, after) ∧
      Traced.iterate.go limit pos step stuck done state = ⟨done.reverse ++ more, outcome⟩ ∧
      ∀ answer, outcome = .ok answer → after = braces := by
  fun_induction Traced.iterate.go limit pos step stuck done state with
  | case1 done state more fault ends =>
    obtain ⟨after, run, _⟩ := follows state holds braces inside
    rw [Run.iterate, run, ends]
    exact ⟨more, .error fault, after, rfl, by simp, by simp⟩
  | case2 done state more answer ends =>
    obtain ⟨after, run, closes⟩ := follows state holds braces inside
    rw [Run.iterate, run]
    rw [ends] at closes ⊢
    exact ⟨more, .ok answer, after, rfl, by simp, fun _ _ => closes _ rfl⟩
  | case3 done state more next goesOn onward ih =>
    obtain ⟨after, run, closes⟩ := follows state holds braces inside
    have outcome : (step state).outcome = .ok (.inl next) := by rw [goesOn]
    have spec := (advances state holds).of_outcome outcome
    rw [goesOn] at run closes
    obtain rfl := closes _ rfl
    obtain ⟨further, outcome, last, ran, same, closed⟩ := ih spec.1
    refine ⟨more ++ further, outcome, last, ?_, by simp [same], closed⟩
    rw [Run.iterate, run]
    simp only [if_pos onward, ran]
  | case4 done state more next goesOn stays =>
    have outcome : (step state).outcome = .ok (.inl next) := by rw [goesOn]
    have spec := (advances state holds).of_outcome outcome
    exact absurd spec.2 stays

/-- A loop follows one whose rounds move on, if each round does. -/
theorem iterate {source : List Char} {limit : Nat} {pos : σ → Nat} {inv : σ → Prop} {post : ρ → Prop}
    {bytes : σ → Run (σ ⊕ ρ)} {step : σ → Traced (σ ⊕ ρ)} {stuck : σ → ρ} {state : σ}
    (advances : Traced.Advances source limit pos inv post step)
    (follows : ∀ state, inv state → Follows context (bytes state) (step state)) (holds : inv state) :
    Follows context (Run.iterate limit pos bytes state) (Traced.iterate limit pos step stuck state) := by
  intro braces inside
  obtain ⟨more, outcome, after, run, same, closes⟩ := iterate_go advances follows [] state holds braces inside
  refine ⟨after, ?_, ?_⟩
  · rw [run, Traced.iterate, same]
    rfl
  · rw [Traced.iterate, same]
    exact closes

end Follows

end SigilTemplate.Bytes
