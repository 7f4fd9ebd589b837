import SigilTemplate.Proofs.Reading.Soundness

/-!
What a construct reads further in. A construct depends on the levels below it
only in the regions between braces that start after it, in the expressions and
conditions that it holds itself, and, if it is a tag, in the one region that is
its body. Two sets of levels that agree on these give the same reading.

Every way from one level into the next has thus taken at least a character, so
the recursion of reading goes down the remaining text: two sets of levels that
agree on all later places give the same reading.
-/

namespace SigilTemplate
open Text

namespace Traced

variable {α β σ ρ : Type} {source : List Char}

/-- What follows a reading matters only at the answers that it can yield. -/
theorem bind_congr {x : Traced α} {f g : α → Traced β} {between : α → Prop} (yields : x.Yields source between)
    (same : ∀ answer, between answer → f answer = g answer) : x >>= f = x >>= g := by
  cases outcome : x.outcome with
  | ok answer => rw [bind_ok outcome, bind_ok outcome, same answer (yields.of_outcome outcome)]
  | error fault => rw [bind_error outcome, bind_error outcome]

theorem iterate_go_congr {limit : Nat} {pos : σ → Nat} {inv : σ → Prop} {post : ρ → Prop}
    {step other : σ → Traced (σ ⊕ ρ)} {stuck : σ → ρ} (advances : Advances source limit pos inv post step)
    (same : ∀ state, inv state → step state = other state) (done : List Recovery) (state : σ) (start : inv state) :
    iterate.go limit pos step stuck done state = iterate.go limit pos other stuck done state := by
  fun_induction iterate.go limit pos step stuck done state with
  | case1 done state more fault outcome =>
    rw [iterate.go, ← same state start, outcome]
  | case2 done state more answer outcome =>
    rw [iterate.go, ← same state start, outcome]
  | case3 done state more next outcome onward ih =>
    have yields := advances state start
    rw [outcome] at yields
    rw [ih yields.1]
    conv => rhs; rw [iterate.go, ← same state start, outcome]
    simp only [if_pos onward]
  | case4 done state more next outcome stuck =>
    have yields := advances state start
    rw [outcome] at yields
    exact absurd yields.2 stuck

/-- Loops with the same steps at all states that they can reach give the same answer. -/
theorem iterate_congr {limit : Nat} {pos : σ → Nat} {inv : σ → Prop} {post : ρ → Prop}
    {step other : σ → Traced (σ ⊕ ρ)} {stuck : σ → ρ} {state : σ} (advances : Advances source limit pos inv post step)
    (same : ∀ state, inv state → step state = other state) (start : inv state) :
    iterate limit pos step stuck state = iterate limit pos other stuck state :=
  iterate_go_congr advances same [] state start

end Traced

/-- Two readings of regions that agree at all places after one. -/
def RegionsAgreeAfter (source : List Char) (c : Cursor) (read other : Context → RegionKind → Cursor → Traced Region) :
    Prop :=
  ∀ context kind d, context.size = byteLength source → c < d → read context kind d = other context kind d

/-- Two levels that agree in all they read after a place. -/
structure Level.AgreeAfter (source : List Char) (c : Cursor) (level other : Level) : Prop where
  region : RegionsAgreeAfter source c level.region other.region
  nested : RegionsAgreeAfter source c level.nested other.nested
  sigil : ∀ context d, context.size = byteLength source → c < d → d.atSigil = true →
    level.sigil context d = other.sigil context d
  conditional : ∀ context start d, context.size = byteLength source → c < start → Opens .ifBlock start d →
    level.conditional context start d = other.conditional context start d

/-- As many levels are left below in the one case as in the other, and the next ones agree after the place. -/
structure Below.AgreeAfter (source : List Char) (c : Cursor) (below other : Below) : Prop where
  room : below.room = other.room
  none : below.next = none ↔ other.next = none
  next : ∀ level ∈ below.next, ∀ level' ∈ other.next, (level ()).AgreeAfter source c (level' ())

/-- Two readings of regions that agree on all regions between braces after a place. -/
def BracesAgree (context : Context) (c : Cursor) (read other : Context → RegionKind → Cursor → Traced Region) : Prop :=
  ∀ kind d, kind = .braced ∨ kind = .arm → c < d → read context.insideBraces kind d = other context.insideBraces kind d

/-- Two levels that agree in what a construct from a place on reads in them, apart from the body of a tag. -/
structure Level.AgreeWithin (context : Context) (c : Cursor) (level other : Level) : Prop where
  region : BracesAgree context c level.region other.region
  nested : BracesAgree context c level.nested other.nested
  sigil : ∀ d, c < d → d.atSigil = true → level.sigil context d = other.sigil context d
  conditional : ∀ start d, c < start → Opens .ifBlock start d →
    level.conditional context start d = other.conditional context start d

/-- As many levels are left below in the one case as in the other, and the next ones agree within a construct. -/
structure Below.AgreeWithin (context : Context) (c : Cursor) (below other : Below) : Prop where
  room : below.room = other.room
  none : below.next = none ↔ other.next = none
  next : ∀ level ∈ below.next, ∀ level' ∈ other.next, (level ()).AgreeWithin context c (level' ())

/-- The name of the tag that opens at a place. -/
def Cursor.tagName (c : Cursor) : String := (Fragment.between c.next c.next.skipTagName).text

/-- The next levels agree within a construct, and on the body that it has if it is a tag. -/
structure Below.AgreeAt (context : Context) (c : Cursor) (below other : Below) : Prop extends
    below.AgreeWithin context c other where
  body : ∀ level ∈ below.next, ∀ level' ∈ other.next, ∀ arguments d, c.atTagOpen = true → c < d →
    (readTagHead (level ()) context c.next.skipTagName).outcome = .ok (.closed arguments false d) →
      (level ()).region (context.insideTag c.tagName) (.tagBody context.braced) d =
        (level' ()).region (context.insideTag c.tagName) (.tagBody context.braced) d

section

variable {source : List Char} {context : Context} {below other : Below} {level level' : Level}

theorem BracesAgree.later {c d : Cursor} {read read' : Context → RegionKind → Cursor → Traced Region}
    (agree : BracesAgree context c read read') (le : c ≤ d) : BracesAgree context d read read' := by
  intro kind e between lt
  exact agree kind e between (le.trans_lt lt)

theorem Level.AgreeWithin.later {c d : Cursor} (agree : level.AgreeWithin context c level') (le : c ≤ d) :
    level.AgreeWithin context d level' where
  region := agree.region.later le
  nested := agree.nested.later le
  sigil e lt := agree.sigil e (le.trans_lt lt)
  conditional start e lt := agree.conditional start e (le.trans_lt lt)

theorem Below.AgreeWithin.later {c d : Cursor} (agree : below.AgreeWithin context c other) (le : c ≤ d) :
    below.AgreeWithin context d other where
  room := agree.room
  none := agree.none
  next level here level' there := (agree.next level here level' there).later le

/-- Entering the next level, where the levels agree. -/
theorem Below.AgreeWithin.enter_bind {α : Type} {c d : Cursor} {f g : Level → Traced α}
    (agree : below.AgreeWithin context c other) (sound : below.Sound source)
    (same : ∀ level ∈ below.next, ∀ level' ∈ other.next, (level ()).Sound source →
      (level ()).AgreeWithin context c (level' ()) → f (level ()) = g (level' ())) :
    below.enter context d >>= f = other.enter context d >>= g := by
  unfold Below.enter
  cases here : below.next with
  | none =>
    rw [agree.none.mp here]
    rfl
  | some level =>
    cases there : other.next with
    | none =>
      rw [agree.none.mpr there] at here
      simp at here
    | some level' =>
      have next := same level here level' there (sound level here) (agree.next level here level' there)
      change Traced.bind (Traced.mk [] (.ok (level ()))) f = Traced.bind (Traced.mk [] (.ok (level' ()))) g
      simp only [Traced.bind, next]

theorem Below.AgreeWithin.nested {c : Cursor} (agree : below.AgreeWithin context c other) (sound : below.Sound source) :
    BracesAgree context c below.nested other.nested := by
  intro kind d between lt
  have entered : below.enter context.insideBraces d >>= (fun level => level.region context.insideBraces kind d) =
      other.enter context.insideBraces d >>= (fun level => level.region context.insideBraces kind d) :=
    agree.enter_bind sound fun level _ level' _ _ levels => levels.region kind d between lt
  exact entered

/-! ## Blocks and statements -/

theorem readBlock_congr {c brace : Cursor} {role : BlockRole} {nested nested' : Context → RegionKind → Cursor → Traced Region}
    (agree : BracesAgree context c nested nested') (le : c ≤ brace) (opens : brace.peek = some '{') :
    readBlock nested context role brace = readBlock nested' context role brace := by
  unfold readBlock
  rw [agree .braced brace.next (.inl rfl) (le.trans_lt (Cursor.lt_next opens))]

theorem readElse_congr {c : Cursor} (agree : level.AgreeWithin context c level') :
    readElse level context c = readElse level' context c := by
  unfold readElse
  cases word : c.skipBlank.eatText? ['e', 'l', 's', 'e'] with
  | none => rfl
  | some afterElse =>
    have lt : c < afterElse.skipBlank := by
      calc
        c ≤ c.skipBlank := Cursor.le_skipBlank c
        _ < afterElse := Cursor.lt_of_reads (Cursor.reads_eatText? word) (by simp)
        _ ≤ afterElse.skipBlank := Cursor.le_skipBlank afterElse
    by_cases opens : afterElse.skipBlank.peek = some '{'
    · simp only [if_pos opens]
      rw [readBlock_congr agree.nested lt.le opens]
    · simp only [if_neg opens]
      by_cases next : afterElse.pos < afterElse.skipBlank.pos ∧
          Keyword.recognize? afterElse.skipBlank.rest = some .ifBlock
      · simp only [if_pos next]
        rw [agree.conditional _ _ lt (.chained next.2)]
      · simp only [if_neg next]

theorem readConditional_congr {start c : Cursor} (agree : below.AgreeWithin context start other)
    (sound : below.Sound source) (size : context.size = byteLength source) (place : Cursor.ofText source ≤ start)
    (opens : Opens .ifBlock start c) :
    readConditional below context start c = readConditional other context start c := by
  apply agree.enter_bind sound
  intro level _ level' _ holds levels
  cases head : statementHead c with
  | missing stop => rfl
  | ready condition brace =>
    obtain ⟨later, brace_, _⟩ := statementHead_ready head
    have reached : start ≤ brace := opens.lt.le.trans later
    simp only
    rw [← readBlock_congr levels.nested reached brace_]
    apply Traced.bind_congr (readBlock_yields holds.nested size (place.trans reached) brace_)
    intro read block
    rw [readElse_congr (levels.later (reached.trans block.1.inOrder.1.le))]

theorem readLoop_congr {keyword : Keyword} {start c : Cursor} (agree : below.AgreeWithin context start other)
    (sound : below.Sound source) (opens : Opens keyword start c) :
    readLoop below context keyword start c = readLoop other context keyword start c := by
  apply agree.enter_bind sound
  intro level _ level' _ _ levels
  cases head : statementHead c with
  | missing stop => rfl
  | ready header brace =>
    obtain ⟨later, brace_, _⟩ := statementHead_ready head
    simp only
    rw [readBlock_congr levels.nested (opens.lt.le.trans later) brace_]

theorem readStrayElse_congr {start c : Cursor} (agree : below.AgreeWithin context start other)
    (sound : below.Sound source) (size : context.size = byteLength source) (place : Cursor.ofText source ≤ start)
    (lt : start < c) : readStrayElse below context start c = readStrayElse other context start c := by
  have reached : start ≤ c.skipBlank := lt.le.trans (Cursor.le_skipBlank c)
  simp only [readStrayElse]
  by_cases opens : c.skipBlank.peek = some '{'
  · simp only [if_pos opens]
    rw [readBlock_congr (agree.nested sound) reached opens]
  · simp only [if_neg opens]
    by_cases next : Keyword.recognize? c.skipBlank.rest = some .ifBlock
    · simp only [if_pos next]
      rw [readConditional_congr (agree.later reached) sound size (place.trans reached) (.chained next)]
    · simp only [if_neg next]

/-! ## Arms -/

theorem readInlineArm_congr {brace c : Cursor} {arrowEnd : Nat} {start : Cursor}
    (agree : BracesAgree context c level.nested level'.nested) (lt : c < start) :
    readInlineArm level context.insideBraces brace arrowEnd start =
      readInlineArm level' context.insideBraces brace arrowEnd start := by
  unfold readInlineArm
  rw [agree .arm start (.inr rfl) lt]

theorem readArm_congr {brace c arrow : Cursor} (agree : BracesAgree context c level.nested level'.nested)
    (pattern : ArrowAt c arrow) :
    readArm level context.insideBraces brace c arrow = readArm level' context.insideBraces brace c arrow := by
  have lt : c < (arrow.skip 2).skipBlank := pattern.lt_afterArrow
  have again : BracesAgree context.insideBraces c level.nested level'.nested := agree
  unfold readArm
  by_cases opens : (arrow.skip 2).skipBlank.peek = some '{'
  · simp only [if_pos opens]
    rw [readBlock_congr again lt.le opens]
  · simp only [if_neg opens]
    rw [readInlineArm_congr agree lt]

theorem armsStep_congr {brace : Cursor} {state : ArmsState} (agree : BracesAgree context brace level.nested level'.nested)
    (reached : brace ≤ state.place) :
    armsStep level context.insideBraces brace state = armsStep level' context.insideBraces brace state := by
  have here : brace ≤ state.place.skipBlank := reached.trans (Cursor.le_skipBlank _)
  unfold armsStep
  simp only
  split
  · rfl
  · split
    · rfl
    · split
      · next arrow found => rw [readArm_congr (agree.later here) (arrowAt_of_armsStep found)]
      · rfl

theorem readArms_congr {brace : Cursor} (agree : BracesAgree context brace level.nested level'.nested)
    (sound : level.Sound source) (size : context.size = byteLength source) (place : Cursor.ofText source ≤ brace)
    (opens : brace.peek = some '{') : readArms level context brace = readArms level' context brace := by
  have advances : Traced.Advances source context.size (·.place.pos) (ArmsState.Grown source brace)
      (GrownArms source brace) (armsStep level context.insideBraces brace) :=
    armsStep_advances sound size place opens
  apply Traced.iterate_congr advances
  · intro state grown
    exact armsStep_congr agree grown.1.inOrder.le
  · exact ⟨.start, by simp [armNodes]⟩

theorem readMatch_congr {start c : Cursor} (agree : below.AgreeWithin context start other) (sound : below.Sound source)
    (size : context.size = byteLength source) (place : Cursor.ofText source ≤ start) (opens : Opens .matchOn start c) :
    readMatch below context start c = readMatch other context start c := by
  apply agree.enter_bind sound
  intro level _ level' _ holds levels
  cases head : statementHead c with
  | missing stop => rfl
  | ready subject brace =>
    obtain ⟨later, brace_, _⟩ := statementHead_ready head
    have reached : start ≤ brace := opens.lt.le.trans later
    simp only
    rw [readArms_congr (levels.nested.later reached) holds size (place.trans reached) brace_]

/-! ## Tags -/

theorem readAttributeValue_congr {c d : Cursor} (agree : level.AgreeWithin context c level') (lt : c < d) :
    readAttributeValue level context d = readAttributeValue level' context d := by
  unfold readAttributeValue
  cases head : d.peek with
  | none => rfl
  | some ch =>
    by_cases quote : ch = '"' ∨ ch = '\x27'
    · simp only [if_pos quote]
    · simp only [if_neg quote]
      by_cases brace : ch = '{'
      · simp only [if_pos brace]
        rw [readBlock_congr agree.nested lt.le (brace ▸ head)]
      · simp only [if_neg brace]
        by_cases sigil : d.atSigil = true
        · simp only [if_pos sigil]
          rw [agree.sigil d lt sigil]
        · simp only [if_neg sigil]

theorem readAttribute_congr {c : Cursor} (agree : level.AgreeWithin context c level') :
    readAttribute level context c = readAttribute level' context c := by
  simp only [readAttribute]
  cases sign : (c.skipWhile isAttributePart).skipBlank.eat? '=' with
  | none => rfl
  | some equals =>
    have lt : c < equals.skipBlank := by
      calc
        c ≤ (c.skipWhile isAttributePart).skipBlank := (Cursor.le_skipWhile _ c).trans (Cursor.le_skipBlank _)
        _ < equals := Cursor.lt_of_eat? sign
        _ ≤ equals.skipBlank := Cursor.le_skipBlank equals
    simp only
    rw [readAttributeValue_congr agree lt]

theorem tagHeadStep_congr {c : Cursor} {state : TagHeadState} (agree : level.AgreeWithin context c level')
    (reached : c ≤ state.place) : tagHeadStep level context state = tagHeadStep level' context state := by
  have here : c ≤ state.place.skipBlank := reached.trans (Cursor.le_skipBlank _)
  simp only [tagHeadStep, readAttribute_congr (agree.later here)]

theorem readTagHead_congr {c : Cursor} (agree : level.AgreeWithin context c level') (sound : level.Sound source)
    (size : context.size = byteLength source) (place : Cursor.ofText source ≤ c) :
    readTagHead level context c = readTagHead level' context c := by
  apply Traced.iterate_congr (tagHeadStep_advances sound size place)
  · intro state grown
    exact tagHeadStep_congr agree grown.1.inOrder.le
  · exact ⟨.start, by simp [argumentNodes]⟩

theorem readTag_congr {start : Cursor} (agree : below.AgreeAt context start other) (sound : below.Sound source)
    (size : context.size = byteLength source) (place : Cursor.ofText source ≤ start) (opens : start.atTagOpen = true) :
    readTag below context start = readTag other context start := by
  have name : start < start.next.skipTagName :=
    (Cursor.lt_next (Cursor.peek_of_atTagOpen opens)).trans_le (Cursor.le_skipTagName start.next)
  apply agree.enter_bind sound
  intro level here level' there holds levels
  rw [← readTagHead_congr (levels.later name.le) holds size (place.trans name.le)]
  cases outcome : (readTagHead (level ()) context start.next.skipTagName).outcome with
  | error fault => rw [Traced.bind_error outcome, Traced.bind_error outcome]
  | ok head =>
    have read := (readTagHead_yields holds size (place.trans name.le)).of_outcome outcome
    rw [Traced.bind_ok outcome, Traced.bind_ok outcome]
    cases head with
    | malformed nodes stop => rfl
    | closed arguments selfClosing after =>
      cases selfClosing with
      | true => rfl
      | false =>
        obtain ⟨last, attributes, ends, _⟩ := read
        have lt : start < after := by
          calc
            start < start.next.skipTagName := name
            _ ≤ last := attributes.inOrder.le
            _ ≤ last.skipBlank := Cursor.le_skipBlank last
            _ < after := Cursor.lt_of_eat? ends
        have body := agree.body level here level' there arguments after opens lt outcome
        rw [Cursor.tagName] at body
        simp only [body]

/-! ## Constructs and regions -/

theorem readCall_congr {start arguments brace : Cursor} {name : Fragment} (agree : below.AgreeWithin context start other)
    (sound : below.Sound source) (found : callHead? below.room start = some (name, arguments, brace)) :
    readCall below context start name arguments brace = readCall other context start name arguments brace := by
  have reached := (Cursor.le_next start).trans (lt_of_callHead? found).le
  apply agree.enter_bind sound
  intro level _ level' _ _ levels
  rw [readBlock_congr levels.nested reached (peek_of_callHead? found)]

theorem readFunction_congr {start c : Cursor} (agree : below.AgreeWithin context start other) (sound : below.Sound source)
    (opens : Opens .function start c) : readFunction below context start c = readFunction other context start c := by
  have onward := onward_functionHead other.room c
  unfold readFunction
  rw [agree.room]
  cases head : functionHead other.room c with
  | error stop => rfl
  | ok found =>
    obtain ⟨⟨name, parameters⟩, brace⟩ := found
    obtain ⟨later, _, brace_⟩ := onward.of_ok head
    simp only
    rw [readBlock_congr (agree.nested sound) (opens.lt.le.trans later) brace_]

theorem readSection_congr {start c : Cursor} (agree : below.AgreeWithin context start other) (sound : below.Sound source)
    (opens : Opens .sectionBlock start c) : readSection below context start c = readSection other context start c := by
  unfold readSection
  rw [agree.room]
  by_cases paren : c.peek = some '('
  · simp only [if_pos paren]
  · simp only [if_neg paren]
    cases head : sectionHead c with
    | error stop => rfl
    | ok found =>
      obtain ⟨name, brace⟩ := found
      obtain ⟨later, _, brace_⟩ := (onward_sectionHead c).of_ok head
      simp only
      rw [readBlock_congr (agree.nested sound) (opens.lt.le.trans later) brace_]

theorem readKeyword_congr {keyword : Keyword} {start c : Cursor} (agree : below.AgreeWithin context start other)
    (sound : below.Sound source) (size : context.size = byteLength source) (place : Cursor.ofText source ≤ start)
    (opens : Opens keyword start c) :
    readKeyword below context keyword start c = readKeyword other context keyword start c := by
  cases keyword with
  | ifBlock => exact readConditional_congr agree sound size place opens
  | elseBlock => exact readStrayElse_congr agree sound size place opens.lt
  | forLoop => exact readLoop_congr agree sound opens
  | whileLoop => exact readLoop_congr agree sound opens
  | matchOn => exact readMatch_congr agree sound size place opens
  | sectionBlock => exact readSection_congr agree sound opens
  | function => exact readFunction_congr agree sound opens
  | _ => rfl

theorem readSigil_congr {start : Cursor} (agree : below.AgreeWithin context start other) (sound : below.Sound source)
    (size : context.size = byteLength source) (place : Cursor.ofText source ≤ start) (sigil : start.atSigil = true) :
    readSigil below context start = readSigil other context start := by
  have named (capital : Bool) : readNamed below context start capital = readNamed other context start capital := by
    unfold readNamed
    rw [← agree.room]
    cases word : Keyword.recognize? start.next.rest with
    | some keyword => exact readKeyword_congr agree sound size place (.sigil sigil word)
    | none =>
      simp only
      split
      · next name arguments brace found =>
        split at found
        · exact readCall_congr agree sound found
        · simp at found
      · rfl
  simp only [readSigil, named, agree.room]

theorem readItem_congr {mode : TextMode} {state : RegionState} (agree : below.AgreeAt context state.place other)
    (sound : below.Sound source) (size : context.size = byteLength source) (place : Cursor.ofText source ≤ state.place) :
    readItem below context mode state = readItem other context mode state := by
  simp only [readItem]
  by_cases closes : state.place.atTagClose = true
  · simp only [if_pos closes]
  · simp only [if_neg closes]
    by_cases opens : state.place.atTagOpen = true
    · simp only [if_pos opens]
      rw [readTag_congr agree sound size place opens]
    · simp only [if_neg opens]
      by_cases sigil : state.place.atSigil = true
      · simp only [if_pos sigil]
        rw [readSigil_congr agree.toAgreeWithin sound size place sigil]
      · simp only [if_neg sigil]

theorem regionStep_congr {kind : RegionKind} {state : RegionState} (agree : below.AgreeAt context state.place other)
    (sound : below.Sound source) (size : context.size = byteLength source) (place : Cursor.ofText source ≤ state.place) :
    regionStep below context kind state = regionStep other context kind state := by
  unfold regionStep
  rw [readItem_congr agree sound size place]

/-! ## All later places -/

theorem Below.AgreeAfter.later {c d : Cursor} (agree : below.AgreeAfter source c other) (le : c ≤ d) :
    below.AgreeAfter source d other where
  room := agree.room
  none := agree.none
  next level here level' there :=
    have levels := agree.next level here level' there
    { region := fun context kind e size lt => levels.region context kind e size (le.trans_lt lt)
      nested := fun context kind e size lt => levels.nested context kind e size (le.trans_lt lt)
      sigil := fun context e size lt => levels.sigil context e size (le.trans_lt lt)
      conditional := fun context start e size lt => levels.conditional context start e size (le.trans_lt lt) }

/-- Levels that agree after a place agree in all that a construct from there on reads in them. -/
theorem Below.AgreeAfter.agreeAt {c : Cursor} (agree : below.AgreeAfter source c other)
    (size : context.size = byteLength source) : below.AgreeAt context c other where
  room := agree.room
  none := agree.none
  next level here level' there :=
    have levels := agree.next level here level' there
    { region := fun kind d _ => levels.region context.insideBraces kind d size
      nested := fun kind d _ => levels.nested context.insideBraces kind d size
      sigil := fun d => levels.sigil context d size
      conditional := fun start d => levels.conditional context start d size }
  body level here level' there _ d _ lt _ := (agree.next level here level' there).region _ _ d size lt

/-- A region depends on the levels below only in what they read after the place where it starts. -/
theorem readRegion_congr {kind : RegionKind} {c : Cursor} (agree : below.AgreeAfter source c other)
    (sound : below.Sound source) (size : context.size = byteLength source) (place : Cursor.ofText source ≤ c) :
    readRegion below context kind c = readRegion other context kind c := by
  apply Traced.iterate_congr (regionStep_advances sound size place)
  · intro state grown
    have reached := grown.1.inOrder.le
    exact regionStep_congr ((agree.later reached).agreeAt size) sound size (place.trans reached)
  · exact ⟨.start, by simp⟩

end

end SigilTemplate
