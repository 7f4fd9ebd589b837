import Mathlib.Data.List.Induction
import SigilTemplate.Proofs.Code.Rest
import SigilTemplate.Proofs.Reading.Locality
import SigilTemplate.Proofs.Reading.Loop

/-!
Reading ends. Each loop moves on with every round, so that none of them needs
its guard, and the recursion goes down the remaining text: as every way into
another level takes a character at least, what is read from a place reaches no
deeper than twice the number of characters after it.
-/

namespace SigilTemplate
open Text

/-- The levels below a construct of the level with `room` further ones. -/
def Below.ofRoom : (room : Nat) → Below
  | 0 => ⟨0, none⟩
  | room + 1 => ⟨room + 1, some fun _ => .withRoom room⟩

theorem Below.room_ofRoom (room : Nat) : (Below.ofRoom room).room = room := by
  cases room <;> rfl

theorem Level.withRoom_eq (room : Nat) : Level.withRoom room = .above (.ofRoom room) := by
  cases room <;> rfl

/-- Levels with the given room above some others. -/
def Below.stacked (base : Below) : List Nat → Below
  | [] => base
  | room :: rooms => ⟨room, some fun _ => .above (base.stacked rooms)⟩

section

variable {source : List Char} {context : Context} {base other : Below}

theorem Below.ofRoom_sound (source : List Char) (room : Nat) : (Below.ofRoom room).Sound source := by
  cases room with
  | zero => simp [Below.Sound, Below.ofRoom]
  | succ room =>
    rintro level ⟨⟩
    exact Level.withRoom_sound source room

theorem Below.stacked_sound (sound : base.Sound source) (rooms : List Nat) : (base.stacked rooms).Sound source := by
  induction rooms with
  | nil => exact sound
  | cons room rooms ih =>
    rintro level ⟨⟩
    exact ih.above

/-! ## The recursion -/

/-- Levels that agree after each of the places after `c` make up levels that agree after `c`. -/
theorem Level.AgreeAfter.above {c : Cursor} (sound : base.Sound source) (place : Cursor.ofText source ≤ c)
    (agree : ∀ d, c < d → base.AgreeAfter source d other)
    (nested : RegionsAgreeAfter source c base.nested other.nested) :
    (Level.above base).AgreeAfter source c (.above other) where
  region _ _ d size lt := readRegion_congr (agree d lt) sound size (place.trans lt.le)
  nested := nested
  sigil _ d size lt sigil :=
    readSigil_congr ((agree d lt).agreeAt size).toAgreeWithin sound size (place.trans lt.le) sigil
  conditional _ start _ size lt opens :=
    readConditional_congr ((agree start lt).agreeAt size).toAgreeWithin sound size (place.trans lt.le) opens

theorem Below.AgreeAfter.of_level {c : Cursor} {room : Nat} {level other : Level}
    (agree : level.AgreeAfter source c other) :
    (Below.mk room (some fun _ => level)).AgreeAfter source c ⟨room, some fun _ => other⟩ where
  room := rfl
  none := by simp
  next _ here _ there := by
    obtain rfl := Option.mem_some.mp here
    obtain rfl := Option.mem_some.mp there
    exact agree

/-- Enough common levels agree after a place, whatever lies below them: a level and the one nested in
it take a character of the text. -/
theorem Below.stacked_agree (sound : base.Sound source) (rooms : List Nat) (c : Cursor)
    (place : Cursor.ofText source ≤ c) (deep : 2 * c.rest.length < rooms.length) :
    (base.stacked rooms).AgreeAfter source c (other.stacked rooms) := by
  -- A level reads with the one below it, and its nested regions with the one below that.
  induction rooms using List.twoStepInduction generalizing c with
  | nil => simp at deep
  | singleton room =>
    have nothing (d : Cursor) : ¬c < d := by
      intro lt
      have := Cursor.length_lt lt
      simp only [List.length_cons, List.length_nil] at deep
      omega
    refine .of_level (.above sound place ?_ ?_)
    · intro d lt
      exact absurd lt (nothing d)
    · intro _ _ d _ lt
      exact absurd lt (nothing d)
  | cons_cons room inner rooms ih ihTail =>
    have further (d : Cursor) (lt : c < d) : 2 * d.rest.length < rooms.length := by
      have := Cursor.length_lt lt
      simp only [List.length_cons] at deep
      omega
    refine .of_level (.above (stacked_sound sound _) place ?_ ?_)
    · intro d lt
      have less := further d lt
      exact ihTail inner d (place.trans lt.le) (by simp only [List.length_cons]; omega)
    · intro context kind d size lt
      have here := place.trans lt.le
      exact readRegion_congr (ih d here (further d lt)) (stacked_sound sound _) size here

/-- A region reaches no deeper than twice the characters after the place where it starts. -/
theorem readRegion_stacked (sound : base.Sound source) (other : Below) (rooms : List Nat) {kind : RegionKind} {c : Cursor}
    (size : context.size = byteLength source) (place : Cursor.ofText source ≤ c)
    (deep : 2 * c.rest.length < rooms.length) :
    readRegion (base.stacked rooms) context kind c = readRegion (other.stacked rooms) context kind c :=
  readRegion_congr (Below.stacked_agree sound rooms c place deep) (Below.stacked_sound sound rooms) size place

/-! ## The loops -/

/-- Whatever surrounds a place and however many levels are left, reading from there goes on until it ends. -/
structure ReadsOnward (source : List Char) (room : Nat) (context : Context) (c : Cursor) : Prop where
  /-- A round over a region ends it or moves on. -/
  region (kind : RegionKind) :
    Traced.MovesOn context.size (·.place.pos) (regionStep (.ofRoom room) context kind) ⟨[], {}, c⟩
  region_runs (kind : RegionKind) (run : Traced Region) :
    Traced.Runs (regionStep (.ofRoom room) context kind) ⟨[], {}, c⟩ run ↔
      run = (Level.withRoom room).region context kind c
  /-- In no state of a region is a run of text empty, but where one of the other cases applies. -/
  text (kind : RegionKind) (state : RegionState)
    (reached : Traced.Reaches (regionStep (.ofRoom room) context kind) ⟨[], {}, c⟩ state) :
    state.place < (textRun kind.mode state.text state.place).after ↔ AtText kind.mode state.text state.place
  /-- A round over the arms of a match ends them or moves on. -/
  arms (opens : c.peek = some '{') :
    Traced.MovesOn context.size (·.place.pos) (armsStep (.withRoom room) context.insideBraces c) ⟨[], c.next⟩
  arms_runs (opens : c.peek = some '{') (run : Traced ArmsEnd) :
    Traced.Runs (armsStep (.withRoom room) context.insideBraces c) ⟨[], c.next⟩ run ↔
      run = readArms (.withRoom room) context c
  /-- A round over the rest of a match ends it or moves on. -/
  rest (next : Cursor) (goesOn : Code.restStep c = .inl next) : c.pos < next.pos ∧ next.pos ≤ context.size
  rest_runs : Code.unmatchedBrace? c = match Code.restStep c with
    | .inl next => Code.unmatchedBrace? next
    | .inr answer => answer
  /-- A round over an opening tag ends it or moves on. -/
  tagHead : Traced.MovesOn context.size (·.place.pos) (tagHeadStep (.withRoom room) context) ⟨[], c⟩
  tagHead_runs (run : Traced TagHead) :
    Traced.Runs (tagHeadStep (.withRoom room) context) ⟨[], c⟩ run ↔ run = readTagHead (.withRoom room) context c
  /-- A region depends on the levels below it only in what they read further on. -/
  descends (kind : RegionKind) (other : Below) (agree : (Below.ofRoom room).AgreeAfter source c other) :
    (Level.withRoom room).region context kind c = readRegion other context kind c
  /-- Of the levels below it, a region reaches no more than twice as many as there are characters left. -/
  reach (kind : RegionKind) (rooms : List Nat) (other : Below) (deep : 2 * c.rest.length < rooms.length) :
    readRegion ((Below.ofRoom room).stacked rooms) context kind c = readRegion (other.stacked rooms) context kind c

theorem readsOnward (room : Nat) {c : Cursor} (size : context.size = byteLength source)
    (place : Cursor.ofText source ≤ c) : ReadsOnward source room context c := by
  have sound := Below.ofRoom_sound source room
  have level := Level.withRoom_sound source room
  have inside : context.insideBraces.size = byteLength source := size
  exact {
    region := fun _ => regionStep_movesOn sound size place
    region_runs := by
      intro kind run
      rw [Level.withRoom_eq]
      exact (regionStep_movesOn sound size place).runs_iff _ run
    text := fun _ _ _ => lt_textRun_iff
    arms := armsStep_movesOn level inside place
    arms_runs := fun opens run => (armsStep_movesOn level inside place opens).runs_iff _ run
    rest := by
      intro next goesOn
      have lt := Code.lt_of_restStep goesOn
      exact ⟨Cursor.pos_lt lt, size ▸ Cursor.pos_le_size (place.trans lt.le)⟩
    rest_runs := Code.unmatchedBrace?_eq c
    tagHead := tagHeadStep_movesOn level size place
    tagHead_runs := fun run => (tagHeadStep_movesOn level size place).runs_iff _ run
    descends := by
      intro kind other agree
      rw [Level.withRoom_eq]
      exact readRegion_congr agree sound size place
    reach := fun kind rooms other deep => readRegion_stacked sound other rooms size place deep }

end

/-- Reading a template is running over one region to its end, and from whatever place of the source
and on whatever level something is read, reading goes on until it ends. -/
theorem Tree.trace_progress (options : ReadOptions) (source : List Char) :
    (∃ leading c run, Cursor.ofText source ≤ c ∧
      Traced.Runs (regionStep (.ofRoom options.maxDepth) (.outermost options source) .topLevel) ⟨[], {}, c⟩ run ∧
      Tree.trace options source =
        run >>= fun region => pure ⟨leading ++ region.nodes, source, (contentCursor source).pos⟩) ∧
    ∀ room context c, context.size = byteLength source → Cursor.ofText source ≤ c →
      ReadsOnward source room context c := by
  refine ⟨?_, fun room context c size place => readsOnward room size place⟩
  obtain ⟨nodes, c, leading, same⟩ := Tree.exists_trace_eq options source
  have start := ofText_le_contentCursor source
  have place := start.trans (leading.grown start).1
  have onward : ReadsOnward source options.maxDepth (.outermost options source) c := readsOnward _ rfl place
  exact ⟨nodes, c, _, place, (onward.region_runs .topLevel _).mpr rfl, same⟩

theorem Tree.trace_progress_sample :
    ReadsOnward sampleTemplate 128 (.outermost {} sampleTemplate) (Cursor.ofText sampleTemplate) := by
  have size : (Context.outermost {} sampleTemplate).size = byteLength sampleTemplate := by rw [Context.outermost]
  have place : Cursor.ofText sampleTemplate ≤ Cursor.ofText sampleTemplate := le_refl _
  exact (Tree.trace_progress {} sampleTemplate).2 128 _ _ size place

end SigilTemplate
