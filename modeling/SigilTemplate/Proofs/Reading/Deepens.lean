import SigilTemplate.Proofs.Reading.Soundness

/-!
More depth. What nests too deeply ends a reading, so that a reading which is not
ended in this way does not depend on the depth that was allowed. There is one
exception: a helper whose parameters nest too deeply is taken for a malformed
directive, and with more depth it may be none.
-/

namespace SigilTemplate
open Text

/-- A helper that was given up before its parameters, where these nest too deeply for one limit and end under another. -/
inductive CutFunction (source : List Char) : Recovery → Prop
  | cut {start c after : Cursor} {name : Fragment} {low high pos : Nat} {found : Code.Enclosed}
    (place : Cursor.ofText source ≤ start) (opens : Opens .function start c)
    (named : identifier c.skipInlineBlank = .ok (name, after)) (paren : after.skipInlineBlank.peek = some '(')
    (deep : Code.enclosed low after.skipInlineBlank = .error (.tooDeep pos))
    (ends : Code.enclosed high after.skipInlineBlank = .ok found) :
    CutFunction source ⟨.malformedDirective, start.spanTo (start.trimmedEnd after.skipInlineBlank)⟩

namespace Traced

variable {α β σ ρ : Type} {source : List Char}

/-- The reading has ended because something nests too deeply. -/
def Exhausted (x : Traced α) : Prop := ∃ fault limit, x.outcome = .error fault ∧ fault.cause = .recursionLimit limit

/-- With more depth the reading is the same, unless it ended for want of depth or has cut a helper. -/
def Deepens (source : List Char) (x y : Traced α) : Prop :=
  x.Exhausted ∨ (∃ recovery ∈ x.recoveries, CutFunction source recovery) ∨ x = y

theorem Deepens.refl (x : Traced α) : x.Deepens source x := .inr (.inr rfl)

theorem Deepens.tooDeep {context : Context} {pos : Nat} {y : Traced α} :
    (Traced.fail (tooDeep context pos) : Traced α).Deepens source y :=
  .inl ⟨_, _, rfl, rfl⟩

theorem Exhausted.bind {x : Traced α} {f : α → Traced β} (exhausted : x.Exhausted) : (x >>= f).Exhausted := by
  obtain ⟨fault, limit, outcome, cause⟩ := exhausted
  exact ⟨fault, limit, by rw [bind_error outcome], cause⟩

theorem mem_bind {x : Traced α} {f : α → Traced β} {recovery : Recovery} (among : recovery ∈ x.recoveries) :
    recovery ∈ (x >>= f).recoveries := by
  cases outcome : x.outcome with
  | ok answer =>
    rw [bind_ok outcome]
    exact List.mem_append_left _ among
  | error fault =>
    rw [bind_error outcome]
    exact among

theorem Deepens.bind {x y : Traced α} {f g : α → Traced β} {between : α → Prop} (first : x.Deepens source y)
    (yields : x.Yields source between) (second : ∀ answer, between answer → (f answer).Deepens source (g answer)) :
    (x >>= f).Deepens source (y >>= g) := by
  rcases first with exhausted | ⟨recovery, among, cut⟩ | rfl
  · exact .inl exhausted.bind
  · exact .inr (.inl ⟨recovery, mem_bind among, cut⟩)
  · cases outcome : x.outcome with
    | error fault =>
      rw [bind_error outcome, bind_error outcome]
      exact .refl _
    | ok answer =>
      rw [bind_ok outcome, bind_ok outcome]
      rcases second answer (yields.of_outcome outcome) with ⟨fault, limit, ends, cause⟩ | ⟨recovery, among, cut⟩ | same
      · exact .inl ⟨fault, limit, ends, cause⟩
      · exact .inr (.inl ⟨recovery, List.mem_append_right _ among, cut⟩)
      · rw [same]
        exact .refl _

/-- A loop keeps what was recorded before its rounds. -/
theorem mem_iterate_go {limit : Nat} {pos : σ → Nat} {step : σ → Traced (σ ⊕ ρ)} {stuck : σ → ρ} {recovery : Recovery}
    (done : List Recovery) (state : σ) (among : recovery ∈ done) :
    recovery ∈ (iterate.go limit pos step stuck done state).recoveries := by
  fun_induction iterate.go limit pos step stuck done state with
  | case3 done state more next outcome onward ih => exact ih (List.mem_append_right _ among)
  | _ => simp [among]

theorem Deepens.iterate_go {limit : Nat} {pos : σ → Nat} {inv : σ → Prop} {post : ρ → Prop}
    {step other : σ → Traced (σ ⊕ ρ)} {stuck : σ → ρ} (advances : Advances source limit pos inv post step)
    (steps : ∀ state, inv state → (step state).Deepens source (other state)) (done : List Recovery) (state : σ)
    (start : inv state) :
    (iterate.go limit pos step stuck done state).Deepens source (iterate.go limit pos other stuck done state) := by
  fun_induction iterate.go limit pos step stuck done state with
  | case1 done state more fault outcome =>
    rcases steps state start with ⟨other, limit, ends, cause⟩ | ⟨recovery, among, cut⟩ | same
    · rw [outcome] at ends
      obtain rfl := Except.error.inj ends
      exact .inl ⟨fault, limit, rfl, cause⟩
    · rw [outcome] at among
      exact .inr (.inl ⟨recovery, by simp [among], cut⟩)
    · rw [iterate.go, ← same, outcome]
      exact .refl _
  | case2 done state more answer outcome =>
    rcases steps state start with ⟨other, limit, ends, _⟩ | ⟨recovery, among, cut⟩ | same
    · simp [outcome] at ends
    · rw [outcome] at among
      exact .inr (.inl ⟨recovery, by simp [among], cut⟩)
    · rw [iterate.go, ← same, outcome]
      exact .refl _
  | case3 done state more next outcome onward ih =>
    have yields := advances state start
    rw [outcome] at yields
    rcases steps state start with ⟨other, limit, ends, _⟩ | ⟨recovery, among, cut⟩ | same
    · simp [outcome] at ends
    · rw [outcome] at among
      exact .inr (.inl ⟨recovery, mem_iterate_go _ next (by simp [among]), cut⟩)
    · conv => arg 3; rw [iterate.go, ← same, outcome]
      simp only [if_pos onward]
      exact ih yields.1
  | case4 done state more next outcome stuck =>
    have yields := advances state start
    rw [outcome] at yields
    exact absurd yields.2 stuck

theorem Deepens.iterate {limit : Nat} {pos : σ → Nat} {inv : σ → Prop} {post : ρ → Prop}
    {step other : σ → Traced (σ ⊕ ρ)} {stuck : σ → ρ} {state : σ} (advances : Advances source limit pos inv post step)
    (steps : ∀ state, inv state → (step state).Deepens source (other state)) (start : inv state) :
    (Traced.iterate limit pos step stuck state).Deepens source (Traced.iterate limit pos other stuck state) :=
  .iterate_go advances steps [] state start

end Traced

/-- The same surroundings under another limit. -/
def Context.withLimit (limit : Nat) (context : Context) : Context := { context with maxDepth := limit }

/-- Regions of the source that are read under a higher limit as well. -/
def RegionsDeepen (source : List Char) (limit : Nat) (read deep : Context → RegionKind → Cursor → Traced Region) : Prop :=
  ∀ context kind c, context.size = byteLength source → Cursor.ofText source ≤ c →
    (read context kind c).Deepens source (deep (context.withLimit limit) kind c)

/-- All that a level reads of the source, the other reads as well under a higher limit. -/
structure Level.Deepens (source : List Char) (limit : Nat) (level deep : Level) : Prop where
  region : RegionsDeepen source limit level.region deep.region
  nested : RegionsDeepen source limit level.nested deep.nested
  sigil : ∀ context c, context.size = byteLength source → Cursor.ofText source ≤ c → c.atSigil = true →
    (level.sigil context c).Deepens source (deep.sigil (context.withLimit limit) c)
  conditional : ∀ context start c, context.size = byteLength source → Cursor.ofText source ≤ start →
    Opens .ifBlock start c → (level.conditional context start c).Deepens source (deep.conditional (context.withLimit limit) start c)

/-- There are as many levels below in the other case at least, and the next one reads what this one does. -/
structure Below.Deepens (source : List Char) (limit : Nat) (below deep : Below) : Prop where
  room : below.room ≤ deep.room
  next : ∀ level ∈ below.next, ∃ further ∈ deep.next, (level ()).Deepens source limit (further ())

end SigilTemplate
