import SigilTemplate.Tree.Basic

/-!
Reading with a trace. Every malformed construct leaves a recovery behind, in
the order in which the constructs are given up, inner ones first. The trace is
kept also where the reading ends in a fault.
-/

namespace SigilTemplate

/-- One malformed construct that was given up. -/
structure Recovery where
  kind : MalformationKind
  span : Span
deriving DecidableEq

/-- What a reading gives, and the recoveries on the way. -/
structure Traced (α : Type) where
  recoveries : List Recovery
  outcome : Except Fault α

namespace Traced

variable {α β σ ρ : Type}

def bind (x : Traced α) (f : α → Traced β) : Traced β :=
  match x.outcome with
  | .ok a =>
    let y := f a
    ⟨x.recoveries ++ y.recoveries, y.outcome⟩
  | .error fault => ⟨x.recoveries, .error fault⟩

instance : Monad Traced where
  pure a := ⟨[], .ok a⟩
  bind := bind

def fail (fault : Fault) : Traced α := ⟨[], .error fault⟩

/-- Gives a construct up: an error node takes its place. -/
def recover (cause : Malformation) (span : Span) (children : List Node) : Traced Node :=
  ⟨[⟨cause.kind, span⟩], .ok ⟨.error cause children, span⟩⟩

/-- Repeats a step until it answers. The place must move on with every step and stay within the
text; `stuck` answers where it does not. -/
def iterate (limit : Nat) (pos : σ → Nat) (step : σ → Traced (σ ⊕ ρ)) (stuck : σ → ρ)
    (state : σ) : Traced ρ :=
  go [] state
where
  /-- The recoveries of the steps already taken are given in reverse. -/
  go (done : List Recovery) (state : σ) : Traced ρ :=
    match step state with
    | ⟨more, .error fault⟩ => ⟨(more.reverse ++ done).reverse, .error fault⟩
    | ⟨more, .ok (.inr answer)⟩ => ⟨(more.reverse ++ done).reverse, .ok answer⟩
    | ⟨more, .ok (.inl next)⟩ =>
      if pos state < pos next ∧ pos next ≤ limit then go (more.reverse ++ done) next
      else ⟨(more.reverse ++ done).reverse, .ok (stuck next)⟩
  termination_by limit - pos state

end Traced

end SigilTemplate
