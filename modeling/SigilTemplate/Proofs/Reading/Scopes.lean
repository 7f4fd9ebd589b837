import SigilTemplate.Proofs.Reading.Progress

/-!
Regions one inside the other. At any moment of a reading some regions are being
read, each for a construct of the one around it: the body of a tag, or what is
between braces somewhere in a construct. A scope is one of them, with how far
its loop has come.

These are all the regions there are. What a round over a region gives depends on
no other region than those that its scope opens; put anything in the place of
the others and the round is the same.
-/

namespace SigilTemplate
open Text

/-- A region that is being read. -/
structure Scope where
  /-- How many levels are left below it. -/
  room : Nat
  context : Context
  kind : RegionKind
  start : Cursor
  state : RegionState

namespace Scope

/-- The next round over the region. -/
def step (scope : Scope) : Traced (RegionState ⊕ Region) :=
  regionStep (.ofRoom scope.room) scope.context scope.kind scope.state

/-- The reading of the tag that the region has come to. -/
def readTag (scope : Scope) : Traced ReadNode :=
  SigilTemplate.readTag (.ofRoom scope.room) scope.context scope.state.place

/-- The name of the tag that the region has come to. -/
def tagName (scope : Scope) : String := scope.state.place.tagName

/-- The loop over the region has come to its state. -/
def Reached (scope : Scope) : Prop :=
  Traced.Reaches (regionStep (.ofRoom scope.room) scope.context scope.kind) ⟨[], {}, scope.start⟩ scope.state

/-- The regions that are read for the construct that a region has come to. -/
inductive Opens (outer : Scope) : (room : Nat) → Context → RegionKind → Cursor → Prop
  /-- The body of the tag there, from the end of its opening tag. -/
  | tag {room : Nat} {arguments : List (Argument Node)} {after : Cursor} (further : outer.room = room + 1)
      (opens : outer.state.place.atTagOpen = true)
      (head : (readTagHead (.withRoom room) outer.context outer.state.place.next.skipTagName).outcome =
        .ok (.closed arguments false after)) :
      Opens outer room (outer.context.insideTag outer.tagName) (.tagBody outer.context.braced) after
  /-- What is between braces, at any later place and any number of levels further in. -/
  | braces {room : Nat} {kind : RegionKind} {start : Cursor} (further : room < outer.room)
      (between : kind = .braced ∨ kind = .arm) (later : outer.state.place < start) :
      Opens outer room outer.context.insideBraces kind start

end Scope

/-- The place where the region of a whole template starts, after its header if it has one. -/
def Tree.regionStart (options : ReadOptions) (source : List Char) : Cursor :=
  ((if options.header then readHeader? options.maxDepth (contentCursor source) else none).getD
    ([], contentCursor source)).2

/-- Scopes that are open at once in the reading of a template, innermost first. -/
inductive OpenScopes (options : ReadOptions) (source : List Char) : List Scope → Prop
  | template {state : RegionState}
      (reached : Scope.Reached
        ⟨options.maxDepth, .outermost options source, .topLevel, Tree.regionStart options source, state⟩) :
      OpenScopes options source
        [⟨options.maxDepth, .outermost options source, .topLevel, Tree.regionStart options source, state⟩]
  | inside {scope outer : Scope} {around : List Scope} (earlier : OpenScopes options source (outer :: around))
      (opens : outer.Opens scope.room scope.context scope.kind scope.start) (reached : scope.Reached) :
      OpenScopes options source (scope :: outer :: around)

/-- The levels with `room` further ones in which regions are read in a given way. -/
def Below.guided (read : Nat → Context → RegionKind → Cursor → Traced Region) : (room : Nat) → Below
  | 0 => ⟨0, none⟩
  | room + 1 => ⟨room + 1, some fun _ =>
    { region := read room
      nested := (guided read room).nested
      sigil := readSigil (guided read room)
      conditional := readConditional (guided read room) }⟩

section

variable {source : List Char} {options : ReadOptions} {context : Context}

theorem Tree.ofText_le_regionStart (options : ReadOptions) (source : List Char) :
    Cursor.ofText source ≤ Tree.regionStart options source :=
  have start := ofText_le_contentCursor source
  start.trans ((leading_getD options (contentCursor source)).grown start).1

/-- Reading a template is reading the region from there on. -/
theorem Tree.trace_eq_region (options : ReadOptions) (source : List Char) :
    ∃ leading, Tree.trace options source =
      (Level.withRoom options.maxDepth).region (.outermost options source) .topLevel (Tree.regionStart options source) >>=
        fun region => pure ⟨leading ++ region.nodes, source, (contentCursor source).pos⟩ :=
  ⟨_, rfl⟩

/-- A scope reads the source from one of its places on. -/
structure Scope.Placed (source : List Char) (scope : Scope) : Prop where
  size : scope.context.size = byteLength source
  place : Cursor.ofText source ≤ scope.start

/-- A region goes on from where it starts. -/
theorem Scope.Placed.start_le {scope : Scope} (placed : scope.Placed source) (reached : scope.Reached) :
    scope.start ≤ scope.state.place := by
  have advances : Traced.Advances source scope.context.size (·.place.pos)
      (RegionState.Grown source scope.kind.mode scope.start) (Region.GrownFrom source scope.kind scope.start)
      (regionStep (.ofRoom scope.room) scope.context scope.kind) :=
    regionStep_advances (Below.ofRoom_sound source scope.room) placed.size placed.place
  exact (advances.of_reaches ⟨.start, by simp⟩ reached).1.inOrder.le

/-- The body of a tag starts after the tag does. -/
theorem lt_of_readTagHead {room : Nat} {c after : Cursor} {arguments : List (Argument Node)} {selfClosing : Bool}
    (size : context.size = byteLength source) (place : Cursor.ofText source ≤ c) (opens : c.atTagOpen = true)
    (head : (readTagHead (.withRoom room) context c.next.skipTagName).outcome = .ok (.closed arguments selfClosing after)) :
    c < after := by
  have name := (Cursor.lt_next (Cursor.peek_of_atTagOpen opens)).trans_le (Cursor.le_skipTagName c.next)
  obtain ⟨last, attributes, ends, _⟩ :=
    (readTagHead_yields (Level.withRoom_sound source room) size (place.trans name.le)).of_outcome head
  have bracket : last.skipBlank ≤ after := by
    split at ends
    · exact Cursor.le_of_reads (Cursor.reads_eatText? ends)
    · exact (Cursor.lt_of_eat? ends).le
  exact name.trans_le (attributes.inOrder.le.trans ((Cursor.le_skipBlank last).trans bracket))

theorem Scope.Placed.opens {scope : Scope} {room : Nat} {kind : RegionKind} {start : Cursor}
    (placed : scope.Placed source) (reached : scope.Reached) (opens : scope.Opens room context kind start) :
    context.size = byteLength source ∧ scope.state.place < start := by
  have here := placed.place.trans (placed.start_le reached)
  cases opens with
  | tag _ opens head => exact ⟨placed.size, lt_of_readTagHead placed.size here opens head⟩
  | braces _ _ later => exact ⟨placed.size, later⟩

theorem OpenScopes.reached {scope : Scope} {around : List Scope} (scopes : OpenScopes options source (scope :: around)) :
    scope.Reached := by
  cases scopes with
  | template reached => exact reached
  | inside _ _ reached => exact reached

theorem OpenScopes.placed {scope : Scope} {around : List Scope} (scopes : OpenScopes options source (scope :: around)) :
    scope.Placed source := by
  induction around generalizing scope with
  | nil =>
    cases scopes with
    | template => exact ⟨rfl, Tree.ofText_le_regionStart options source⟩
  | cons outer around ih =>
    cases scopes with
    | inside earlier opens reached =>
      have placed := ih earlier
      obtain ⟨size, lt⟩ := placed.opens earlier.reached opens
      exact ⟨size, (placed.place.trans (placed.start_le earlier.reached)).trans lt.le⟩

/-! ## No other regions -/

variable {read : Nat → Context → RegionKind → Cursor → Traced Region}

/-- Levels that read the regions between braces alike agree in whatever else they read in the same context. -/
theorem Below.guided_agreeWithin {room : Nat} {c : Cursor} (size : context.size = byteLength source)
    (place : Cursor.ofText source ≤ c)
    (agree : ∀ less < room, BracesAgree context c (Level.withRoom less).region (read less)) :
    (Below.ofRoom room).AgreeWithin context c (.guided read room) := by
  induction room with
  | zero => exact ⟨rfl, by simp [ofRoom, guided], by simp [ofRoom]⟩
  | succ room ih =>
    have sound := ofRoom_sound source room
    have inner := ih fun less lt => agree less (Nat.lt_succ_of_lt lt)
    refine ⟨rfl, by simp [ofRoom, guided], ?_⟩
    rintro level ⟨⟩ level' ⟨⟩
    refine ⟨agree room (Nat.lt_succ_self room), ?_, ?_, ?_⟩
    · rw [Level.withRoom_eq]
      exact inner.nested sound
    · intro d lt sigil
      rw [Level.withRoom_eq]
      exact readSigil_congr (inner.later lt.le) sound size (place.trans lt.le) sigil
    · intro start d lt opens
      rw [Level.withRoom_eq]
      exact readConditional_congr (inner.later lt.le) sound size (place.trans lt.le) opens

/-- A round depends on the regions that its scope opens, and on no others. -/
theorem Scope.step_eq_of_opens {scope : Scope} (placed : scope.Placed source) (reached : scope.Reached)
    (agree : ∀ room context kind start, scope.Opens room context kind start →
      (Level.withRoom room).region context kind start = read room context kind start) :
    scope.step = regionStep (.guided read scope.room) scope.context scope.kind scope.state := by
  have here := placed.place.trans (placed.start_le reached)
  have within : (Below.ofRoom scope.room).AgreeWithin scope.context scope.state.place (.guided read scope.room) := by
    apply Below.guided_agreeWithin placed.size here
    intro less lt kind d between later
    exact agree less _ kind d (.braces lt between later)
  refine regionStep_congr ⟨within, ?_⟩ (Below.ofRoom_sound source scope.room) placed.size here
  intro level below level' guided arguments d opens lt head
  cases further : scope.room with
  | zero => simp [further, Below.ofRoom] at below
  | succ room =>
    rw [further] at below guided
    obtain rfl := Option.mem_some.mp below
    obtain rfl := Option.mem_some.mp guided
    exact agree room _ _ d (.tag further opens head)

end

end SigilTemplate
