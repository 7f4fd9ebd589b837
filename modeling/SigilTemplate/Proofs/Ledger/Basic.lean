import SigilTemplate.Proofs.Reading.Progress

/-!
Reading by the books. Levels, open braces and open tags can also be kept in one
ledger, which every construct changes as it starts and changes back as it ends.
Nothing but the writing of each reader sees to it that it does; here are the
changes, and what it means that a reader makes up for all of its own.
-/

namespace SigilTemplate

/-- What is open around a place. -/
structure Ledger where
  /-- Levels that are entered and not left. -/
  depth : Nat
  braces : Nat
  /-- Names of the open component tags, innermost first, back to the innermost brace. -/
  openTags : List String
deriving DecidableEq

/-- What stays the same over a whole template. -/
structure Bounds where
  /-- Bytes of the source. -/
  size : Nat
  maxDepth : Nat

namespace Ledger

def outermost : Ledger := ⟨0, 0, []⟩

def entered (ledger : Ledger) : Ledger := { ledger with depth := ledger.depth + 1 }

/-- Between braces, tags opened outside are out of sight. -/
def insideBraces (ledger : Ledger) : Ledger := { ledger with braces := ledger.braces + 1, openTags := [] }

def insideTag (ledger : Ledger) (name : String) : Ledger := { ledger with openTags := name :: ledger.openTags }

variable (bounds : Bounds) (ledger : Ledger)

def context : Context := ⟨bounds.size, bounds.maxDepth, ledger.openTags, decide (0 < ledger.braces)⟩

/-- How many levels are left. Delimiters in code may nest as deep. -/
def room : Nat := bounds.maxDepth - ledger.depth

/-- The levels that are left. -/
def below : Below := .ofRoom (ledger.room bounds)

/-- What can be read at the depth of the ledger. -/
def level : Level := .withRoom (ledger.room bounds)

theorem level_eq : ledger.level bounds = .above (ledger.below bounds) := Level.withRoom_eq _

theorem below_room : (ledger.below bounds).room = ledger.room bounds := Below.room_ofRoom _

theorem level_nested : (ledger.level bounds).nested = (ledger.below bounds).nested := by
  rw [level_eq]
  rfl

theorem insideBraces_context : ledger.insideBraces.context bounds = (ledger.context bounds).insideBraces := by
  simp [context, insideBraces, Context.insideBraces]

end Ledger

/-- The ledger, and the greatest depth that it has shown. -/
structure Books where
  ledger : Ledger
  deepest : Nat

/-- A reading that keeps books. -/
abbrev Booked : Type → Type := StateT Books Traced

namespace Booked

variable {α β σ ρ : Type}

def ledger : Booked Ledger := fun books => pure (books.ledger, books)

/-- Writes another ledger; there is no other way to write one. -/
def change (f : Ledger → Ledger) : Booked Unit := fun books =>
  pure ((), ⟨f books.ledger, max books.deepest (f books.ledger).depth⟩)

/-- A reading that has nothing to do with the books. -/
def traced (x : Traced α) : Booked α := fun books => x >>= fun answer => pure (answer, books)

/-- One level further in, if the limit allows it. -/
def enter (bounds : Bounds) (c : Cursor) : Booked Unit := do
  change Ledger.entered
  let inside ← ledger
  if bounds.maxDepth < inside.depth then traced (.fail (tooDeep (inside.context bounds) c.pos))

def leave : Booked Unit := change fun ledger => { ledger with depth := ledger.depth - 1 }

def openBrace : Booked Unit := change fun ledger => { ledger with braces := ledger.braces + 1 }

def closeBrace : Booked Unit := change fun ledger => { ledger with braces := ledger.braces - 1 }

def pushTag (name : String) : Booked Unit := change (·.insideTag name)

def popTag : Booked Unit := change fun ledger => { ledger with openTags := ledger.openTags.tail }

/-- The open tags; after it there are none. -/
def takeTags : Booked (List String) := do
  let ledger ← ledger
  change fun ledger => { ledger with openTags := [] }
  pure ledger.openTags

def restoreTags (tags : List String) : Booked Unit := change fun ledger => { ledger with openTags := tags }

/-- A step of a loop, with the books as part of its state. -/
def round (step : σ → Booked (σ ⊕ ρ)) (state : σ × Books) : Traced (σ × Books ⊕ ρ × Books) := do
  let (next, books) ← step state.1 state.2
  pure (next.map (·, books) (·, books))

/-- Repeats a step until it answers. -/
def iterate (limit : Nat) (pos : σ → Nat) (step : σ → Booked (σ ⊕ ρ)) (stuck : σ → ρ) (state : σ) : Booked ρ :=
  fun books => .iterate limit (pos ·.1) (round step) (fun last => (stuck last.1, last.2)) (state, books)

/-- From one ledger to another the reading with books is the one without; on the way no depth is above the limit. -/
structure Reads (limit : Nat) (before : Ledger) (booked : Booked α) (plain : Traced α) (after : Ledger) : Prop where
  run : ∀ mark ≤ limit, ∃ last ≤ limit,
    booked ⟨before, mark⟩ = ⟨plain.recoveries, plain.outcome.map (·, ⟨after, last⟩)⟩

end Booked

/-! ## Rules -/

namespace Booked.Reads

variable {α β : Type} {bounds : Bounds} {limit : Nat} {before between after : Ledger}

theorem pure (answer : α) : Reads limit before (Pure.pure answer) (Pure.pure answer) before where
  run mark most := ⟨mark, most, rfl⟩

theorem traced (x : Traced α) : Reads limit before (Booked.traced x) x before where
  run mark most := ⟨mark, most, Traced.bind_pure_eq x _⟩

theorem bind {booked : Booked α} {plain : Traced α} {f : α → Booked β} {g : α → Traced β}
    (reads : Reads limit before booked plain between) (next : ∀ answer, Reads limit between (f answer) (g answer) after) :
    Reads limit before (booked >>= f) (plain >>= g) after where
  run mark most := by
    obtain ⟨middle, less, same⟩ := reads.run mark most
    change ∃ last ≤ limit, (booked ⟨before, mark⟩ >>= fun (answer, books) => f answer books) = _
    cases outcome : plain.outcome with
    | error fault =>
      refine ⟨middle, less, ?_⟩
      rw [same, Traced.bind_error (by rw [outcome]; rfl), Traced.bind_error outcome]
      rfl
    | ok answer =>
      obtain ⟨last, least, further⟩ := (next answer).run middle less
      refine ⟨last, least, ?_⟩
      rw [same, Traced.bind_ok (by rw [outcome]; rfl), Traced.bind_ok outcome]
      simp only [further]

theorem ledger {f : Ledger → Booked α} {plain : Traced α} (reads : Reads limit before (f before) plain after) :
    Reads limit before (Booked.ledger >>= f) plain after where
  run := reads.run

theorem change {f : Ledger → Ledger} {rest : Unit → Booked α} {plain : Traced α} (least : (f before).depth ≤ limit)
    (reads : Reads limit (f before) (rest ()) plain after) :
    Reads limit before (Booked.change f >>= rest) plain after where
  run _ most := reads.run _ (Nat.max_le.mpr ⟨most, least⟩)

/-- What is read between braces finds no open tags, and those from before are open again after it. -/
theorem insideBraces {booked : Booked α} {plain : Traced α} {f : α → Booked β} {g : α → Traced β}
    (within : before.depth ≤ limit) (reads : Reads limit before.insideBraces booked plain before.insideBraces)
    (next : ∀ answer, Reads limit before (f answer) (g answer) after) :
    Reads limit before
      (do
        let tags ← takeTags
        openBrace
        let answer ← booked
        closeBrace
        restoreTags tags
        f answer)
      (plain >>= g) after := by
  have closing (answer : α) : Reads limit before.insideBraces
      (do
        closeBrace
        restoreTags before.openTags
        f answer) (g answer) after :=
    .change within (.change within (next answer))
  have opening : Reads limit before
      (do
        Booked.change fun ledger => { ledger with openTags := [] }
        openBrace
        let answer ← booked
        closeBrace
        restoreTags before.openTags
        f answer) (plain >>= g) after :=
    .change within (.change within (reads.bind closing))
  exact ⟨opening.run⟩

/-- The level is left after the answer. -/
theorem leaving {booked : Booked α} {plain : Traced α} (within : after.depth ≤ limit)
    (reads : Reads limit before booked plain after.entered) :
    Reads limit before (do let answer ← booked; leave; Pure.pure answer) plain after := by
  rw [← Traced.bind_pure plain]
  exact reads.bind fun answer => .change within (.pure answer)

theorem enter_run (bounds : Bounds) (c : Cursor) (ledger : Ledger) (mark : Nat) :
    Booked.enter bounds c ⟨ledger, mark⟩ =
      if bounds.maxDepth < ledger.entered.depth then .fail (tooDeep (ledger.context bounds) c.pos)
      else Pure.pure ((), ⟨ledger.entered, max mark ledger.entered.depth⟩) := by
  change (if _ then _ else _ : Booked Unit) _ = _
  split <;> rfl

/-- Above the limit nothing is entered; below it reading goes on one level further in. -/
theorem enter {c : Cursor} {rest : Unit → Booked α} {context : Context} {further : Level → Traced α}
    (same : context.maxDepth = bounds.maxDepth)
    (reads : before.depth < bounds.maxDepth →
      Reads bounds.maxDepth before.entered (rest ()) (further (before.entered.level bounds)) after) :
    Reads bounds.maxDepth before (Booked.enter bounds c >>= rest) ((before.below bounds).enter context c >>= further)
      after where
  run mark most := by
    change ∃ last ≤ bounds.maxDepth,
      (Booked.enter bounds c ⟨before, mark⟩ >>= fun (answer, books) => rest answer books) = _
    rw [enter_run]
    by_cases deep : bounds.maxDepth < before.entered.depth
    · have none : before.room bounds = 0 := Nat.sub_eq_zero_of_le (Nat.le_of_lt_succ deep)
      refine ⟨mark, most, ?_⟩
      rw [if_pos deep, Ledger.below, none]
      change Traced.mk [] (.error (tooDeep _ c.pos)) = Traced.mk [] (.error (tooDeep context c.pos))
      rw [tooDeep, tooDeep, same]
      rfl
    · have room : before.depth < bounds.maxDepth := Nat.not_lt.mp deep
      obtain ⟨last, least, further⟩ := (reads room).run _ (Nat.max_le.mpr ⟨most, room⟩)
      have left : before.room bounds = before.entered.room bounds + 1 := by
        simp only [Ledger.room, Ledger.entered]
        omega
      refine ⟨last, least, ?_⟩
      rw [if_neg deep, Ledger.below, left]
      exact further

theorem round {σ ρ : Type} {step : σ → Booked (σ ⊕ ρ)} {plain : σ → Traced (σ ⊕ ρ)} {state : σ}
    (reads : Reads limit before (step state) (plain state) before) {mark : Nat} (most : mark ≤ limit) :
    ∃ last ≤ limit, Booked.round step (state, ⟨before, mark⟩) =
      ⟨(plain state).recoveries,
        (plain state).outcome.map fun next => next.map (·, ⟨before, last⟩) (·, ⟨before, last⟩)⟩ := by
  obtain ⟨last, least, same⟩ := reads.run mark most
  refine ⟨last, least, ?_⟩
  rw [Booked.round, same, Traced.bind_pure_eq]
  cases (plain state).outcome <;> rfl

theorem iterate_go {σ ρ : Type} {size : Nat} {pos : σ → Nat} {step : σ → Booked (σ ⊕ ρ)} {plain : σ → Traced (σ ⊕ ρ)}
    {stuck : σ → ρ} (steps : ∀ state, Reads limit before (step state) (plain state) before) (done : List Recovery)
    (state : σ) (mark : Nat) (most : mark ≤ limit) :
    ∃ last ≤ limit,
      Traced.iterate.go size (pos ·.1) (Booked.round step) (fun last => (stuck last.1, last.2)) done
        (state, (⟨before, mark⟩ : Books)) =
      ⟨(Traced.iterate.go size pos plain stuck done state).recoveries,
        (Traced.iterate.go size pos plain stuck done state).outcome.map (·, ⟨before, last⟩)⟩ := by
  fun_induction Traced.iterate.go size pos plain stuck done state generalizing mark with
  | case1 done state more fault outcome =>
    obtain ⟨last, least, same⟩ := (steps state).round most
    refine ⟨last, least, ?_⟩
    rw [Traced.iterate.go]
    simp only [same, outcome, Except.map]
  | case2 done state more answer outcome =>
    obtain ⟨last, least, same⟩ := (steps state).round most
    refine ⟨last, least, ?_⟩
    rw [Traced.iterate.go]
    simp only [same, outcome, Except.map, Sum.map_inr]
  | case3 done state more next outcome onward ih =>
    obtain ⟨middle, less, same⟩ := (steps state).round most
    obtain ⟨last, least, rest⟩ := ih middle less
    refine ⟨last, least, ?_⟩
    rw [Traced.iterate.go]
    simp only [same, outcome, Except.map, Sum.map_inl, if_pos onward]
    exact rest
  | case4 done state more next outcome stuck =>
    obtain ⟨last, least, same⟩ := (steps state).round most
    refine ⟨last, least, ?_⟩
    rw [Traced.iterate.go]
    simp only [same, outcome, Except.map, Sum.map_inl, if_neg stuck]

/-- A loop makes up for its changes if every round does. -/
theorem iterate {σ ρ : Type} {size : Nat} {pos : σ → Nat} {step : σ → Booked (σ ⊕ ρ)} {plain : σ → Traced (σ ⊕ ρ)}
    {stuck : σ → ρ} (steps : ∀ state, Reads limit before (step state) (plain state) before) (state : σ) :
    Reads limit before (Booked.iterate size pos step stuck state) (Traced.iterate size pos plain stuck state) before where
  run mark most := iterate_go steps [] state mark most

end Booked.Reads

end SigilTemplate
