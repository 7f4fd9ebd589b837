import SigilTemplate.Proofs.Bytes.Delimiter
import SigilTemplate.Proofs.Code.TopLevel

/-!
Where the heads of statements and the patterns of arms end. Both readings are a
search of the top level, for one of three delimiters or for one of two, so the
place that they answer with is told by the lexemes alone: it is the first one at
the top level, never inside a literal, and what comes after it does not matter.
-/

namespace SigilTemplate.Code
open Text

variable {s : Surroundings} {source : List Char} {c d stop : Cursor} {stops : Cursor → Bool}

/-! ## What stops a head or a pattern -/

/-- One of the delimiters that end a head. -/
def endsHead (place : Cursor) : Bool := place.peek = some '{' || place.peek = some '}' || place.peek = some '@'

/-- One of the delimiters that end a pattern. -/
def endsPattern (place : Cursor) : Bool := place.peek = some '}' || atArrow place

theorem endsHead_iff : endsHead stop = true ↔ stop.peek = some '{' ∨ stop.peek = some '}' ∨ stop.peek = some '@' := by
  simp [endsHead, or_assoc]

theorem endsPattern_iff : endsPattern stop = true ↔ stop.peek = some '}' ∨ atArrow stop = true := by
  simp [endsPattern]

theorem peek_of_atArrow (here : atArrow stop = true) : stop.peek = some '=' := by
  obtain ⟨rest, starts⟩ := rest_of_atArrow here
  exact Cursor.peek_eq_some.mpr ⟨_, starts⟩

theorem endsHead_marked : Marked endsHead := by
  intro place here
  rcases endsHead_iff.mp here with head | head | head <;> exact ⟨_, head, rfl⟩

theorem endsPattern_marked : Marked endsPattern := by
  intro place here
  rcases endsPattern_iff.mp here with head | arrow
  · exact ⟨_, head, rfl⟩
  · exact ⟨_, peek_of_atArrow arrow, rfl⟩

theorem endsHead_amid (here : endsHead stop = true) : endsHead (stop.amid s) = true := by
  rw [endsHead_iff] at here ⊢
  rcases here with head | head | head <;> simp [Cursor.peek_amid_of_some head]

theorem endsPattern_amid (here : endsPattern stop = true) : endsPattern (stop.amid s) = true := by
  rw [endsPattern_iff] at here ⊢
  exact here.imp Cursor.peek_amid_of_some atArrow_amid

theorem headEnd_eq (c : Cursor) : headEnd c = match seek endsHead c with
    | some place => if place.peek = some '{' then .block place else .stopped place
    | none => .stopped c.finish := by
  have same : (fun place : Cursor => decide (place.peek ∈ [some '{', some '}', some '@'])) = endsHead := by
    funext place
    simp [endsHead, Bool.or_assoc]
  exact same ▸ rfl

theorem patternEnd_eq (c : Cursor) : patternEnd c = match seek endsPattern c with
    | some place => if atArrow place then .arrow place else .stopped place
    | none => .stopped c.finish := rfl

/-! ## The first of them -/

theorem headEnd_block_iff :
    headEnd c = .block stop ↔ FirstStop nestBehind endsHead c stop ∧ stop.peek = some '{' := by
  rw [← seek_eq_some_iff endsHead_marked, headEnd_eq]
  cases seek endsHead c with
  | none => simp
  | some place =>
    dsimp only
    split
    · next opens =>
      simp only [HeadEnd.block.injEq, Option.some.injEq]
      exact ⟨fun same => ⟨same, same ▸ opens⟩, And.left⟩
    · next other =>
      simp only [reduceCtorEq, Option.some.injEq, false_iff, not_and]
      exact fun same => same ▸ other

theorem headEnd_stopped_iff :
    headEnd c = .stopped stop ↔
      FirstStop nestBehind endsHead c stop ∧ (stop.peek = some '}' ∨ stop.peek = some '@') ∨
        NeverStops nestBehind endsHead c ∧ stop = c.finish := by
  rw [← seek_eq_some_iff endsHead_marked, ← seek_eq_none_iff endsHead_marked, headEnd_eq]
  cases found : seek endsHead c with
  | none => simp [eq_comm]
  | some place =>
    have first := (seek_eq_some_iff endsHead_marked).mp found
    dsimp only
    split
    · next opens =>
      simp only [reduceCtorEq, Option.some.injEq, false_and, or_false, false_iff, not_and]
      rintro rfl
      simp [opens]
    · next other =>
      have closes := (endsHead_iff.mp first.here).resolve_left other
      simp only [HeadEnd.stopped.injEq, Option.some.injEq, reduceCtorEq, false_and, or_false]
      exact ⟨fun same => ⟨same, same ▸ closes⟩, And.left⟩

theorem patternEnd_arrow_iff :
    patternEnd c = .arrow stop ↔ FirstStop nestBehind endsPattern c stop ∧ atArrow stop = true := by
  rw [← seek_eq_some_iff endsPattern_marked, patternEnd_eq]
  cases seek endsPattern c with
  | none => simp
  | some place =>
    dsimp only
    split
    · next arrow =>
      simp only [PatternEnd.arrow.injEq, Option.some.injEq]
      exact ⟨fun same => ⟨same, same ▸ arrow⟩, And.left⟩
    · next other =>
      simp only [reduceCtorEq, Option.some.injEq, false_iff, not_and]
      exact fun same => same ▸ other

theorem patternEnd_stopped_iff :
    patternEnd c = .stopped stop ↔
      FirstStop nestBehind endsPattern c stop ∧ stop.peek = some '}' ∨
        NeverStops nestBehind endsPattern c ∧ stop = c.finish := by
  rw [← seek_eq_some_iff endsPattern_marked, ← seek_eq_none_iff endsPattern_marked, patternEnd_eq]
  cases found : seek endsPattern c with
  | none => simp [eq_comm]
  | some place =>
    have first := (seek_eq_some_iff endsPattern_marked).mp found
    dsimp only
    split
    · next arrow =>
      simp only [reduceCtorEq, Option.some.injEq, false_and, or_false, false_iff, not_and]
      rintro rfl
      simp [peek_of_atArrow arrow]
    · next other =>
      have closes := (endsPattern_iff.mp first.here).resolve_right other
      simp only [PatternEnd.stopped.injEq, Option.some.injEq, reduceCtorEq, false_and, or_false]
      exact ⟨fun same => ⟨same, same ▸ closes⟩, And.left⟩

/-! ## Literals -/

/-- A place is not in a literal, neither at its start nor before its end. -/
def OutsideLiterals (c place : Cursor) : Prop :=
  ∀ word start after, Lexes c word start → literalEnd? start = some after → place < start ∨ after ≤ place

theorem FirstStop.outsideLiterals (marked : Marked stops) (first : FirstStop nestBehind stops c stop) :
    OutsideLiterals c stop := by
  intro word start after lexes literal
  obtain ⟨_, inside, _⟩ := first.topLevel
  have other : stop ≠ start := by
    rintro rfl
    simp [marked.literalEnd?_eq first.here] at literal
  exact (lexes.outside literal inside).imp_left fun le => lt_of_le_of_ne le other

/-- The end of the text is behind all literals. -/
theorem outsideLiterals_finish (c : Cursor) : OutsideLiterals c c.finish := by
  intro word start after lexes literal
  exact .inr (Cursor.le_finish_of_le (lexes.le.trans (lt_of_literalEnd? literal).le))

/-- The place at which a head ends. -/
def HeadEnd.place : HeadEnd → Cursor
  | .block brace => brace
  | .stopped place => place

/-- The place at which a pattern ends. -/
def PatternEnd.place : PatternEnd → Cursor
  | .arrow place => place
  | .stopped place => place

theorem headEnd_outsideLiterals (c : Cursor) : OutsideLiterals c (headEnd c).place := by
  cases ends : headEnd c with
  | block brace => exact (headEnd_block_iff.mp ends).1.outsideLiterals endsHead_marked
  | stopped place =>
    rcases headEnd_stopped_iff.mp ends with ⟨first, _⟩ | ⟨_, rfl⟩
    · exact first.outsideLiterals endsHead_marked
    · exact outsideLiterals_finish c

theorem patternEnd_outsideLiterals (c : Cursor) : OutsideLiterals c (patternEnd c).place := by
  cases ends : patternEnd c with
  | arrow place => exact (patternEnd_arrow_iff.mp ends).1.outsideLiterals endsPattern_marked
  | stopped place =>
    rcases patternEnd_stopped_iff.mp ends with ⟨first, _⟩ | ⟨_, rfl⟩
    · exact first.outsideLiterals endsPattern_marked
    · exact outsideLiterals_finish c

/-! ## Texts that end behind the delimiter -/

/-- What is found at the top level is found in the text that ends behind it, if it can be told there. -/
theorem FirstStop.seek_upTo {text : List Char} (marked : Marked stops)
    (mono : ∀ s place, stops place = true → stops (place.amid s) = true) (first : FirstStop nestBehind stops c stop)
    (reads : stop.Reads text d) (here : stops ⟨stop.pos, text⟩ = true) :
    seek stops (c.upTo d) = some ⟨stop.pos, text⟩ := by
  have within : stop ≤ d := ⟨text, reads⟩
  obtain ⟨_, lexes, _⟩ := first.topLevel
  have found := (seek_eq_some_iff marked).mpr first
  rw [← Cursor.amid_upTo within, ← Cursor.amid_upTo (lexes.le.trans within), Cursor.upTo_eq reads] at found
  obtain ⟨ch, head, _⟩ := marked _ here
  exact seek_of_amid (mono _) found (Cursor.ne_nil_of_lt (Cursor.lt_next head)) here

theorem headEnd_upTo {ch : Char} (first : FirstStop nestBehind endsHead c stop) (head : stop.peek = some ch) :
    headEnd (c.upTo stop.next) = if ch = '{' then .block ⟨stop.pos, [ch]⟩ else .stopped ⟨stop.pos, [ch]⟩ := by
  have here : endsHead ⟨stop.pos, [ch]⟩ = true := by
    have same := endsHead_iff.mp first.here
    rw [head] at same
    exact endsHead_iff.mpr same
  rw [headEnd_eq, first.seek_upTo endsHead_marked (fun _ _ => endsHead_amid) (Cursor.reads_next_of_peek head) here]
  simp [Cursor.peek]

theorem patternEnd_upTo_brace (first : FirstStop nestBehind endsPattern c stop) (head : stop.peek = some '}') :
    patternEnd (c.upTo stop.next) = .stopped ⟨stop.pos, ['}']⟩ := by
  rw [patternEnd_eq,
    first.seek_upTo endsPattern_marked (fun _ _ => endsPattern_amid) (Cursor.reads_next_of_peek head) rfl]
  rfl

theorem patternEnd_upTo_arrow (first : FirstStop nestBehind endsPattern c stop) (here : atArrow stop = true) :
    patternEnd (c.upTo (stop.skip 2)) = .arrow ⟨stop.pos, ['=', '>']⟩ := by
  obtain ⟨rest, starts⟩ := rest_of_atArrow here
  have reads : stop.Reads ['=', '>'] (stop.skip 2) := Cursor.reads_skip starts
  rw [patternEnd_eq, first.seek_upTo endsPattern_marked (fun _ _ => endsPattern_amid) reads rfl]
  rfl

/-! ## Heads and patterns -/

/-- Heads and patterns end at the first delimiter of the top level. Told by the lexemes from a place of a source: a head
ends at the first of the braces and of `@` at which no bracket is open, and has found its block if that is an opening
brace; a pattern ends likewise at the first closing brace or arrow. If the lexemes end before, at the end of the text
or in front of a string that is never closed, the answer is the end of the text. No answer lies in a literal, the
answer is the same for the source that ends right behind the delimiter, and byte by byte it is the same. -/
theorem ends_at_first_delimiter (place : Cursor.ofText source ≤ c) :
    (∀ stop, headEnd c = .block stop ↔ FirstStop nestBehind endsHead c stop ∧ stop.peek = some '{') ∧
    (∀ stop, headEnd c = .stopped stop ↔
      FirstStop nestBehind endsHead c stop ∧ (stop.peek = some '}' ∨ stop.peek = some '@') ∨
        NeverStops nestBehind endsHead c ∧ stop = c.finish) ∧
    (∀ stop, patternEnd c = .arrow stop ↔ FirstStop nestBehind endsPattern c stop ∧ atArrow stop = true) ∧
    (∀ stop, patternEnd c = .stopped stop ↔
      FirstStop nestBehind endsPattern c stop ∧ stop.peek = some '}' ∨
        NeverStops nestBehind endsPattern c ∧ stop = c.finish) ∧
    OutsideLiterals c (headEnd c).place ∧ OutsideLiterals c (patternEnd c).place ∧
    (∀ stop ch, FirstStop nestBehind endsHead c stop → stop.peek = some ch →
      (Cursor.ofOffset? ((Cursor.ofText source).textTo stop.next) c.pos).map headEnd =
        some (if ch = '{' then .block ⟨stop.pos, [ch]⟩ else .stopped ⟨stop.pos, [ch]⟩)) ∧
    (∀ stop, FirstStop nestBehind endsPattern c stop → atArrow stop = true →
      (Cursor.ofOffset? ((Cursor.ofText source).textTo (stop.skip 2)) c.pos).map patternEnd =
        some (.arrow ⟨stop.pos, ['=', '>']⟩)) ∧
    (∀ stop, FirstStop nestBehind endsPattern c stop → stop.peek = some '}' →
      (Cursor.ofOffset? ((Cursor.ofText source).textTo stop.next) c.pos).map patternEnd =
        some (.stopped ⟨stop.pos, ['}']⟩)) ∧
    Bytes.headAt (Bytes.encode source) c.pos = .ok (match headEnd c with
      | .block brace => .found brace.pos
      | .stopped stop => .stopped stop.pos) ∧
    Bytes.patternAt (Bytes.encode source) c.pos = .ok (match patternEnd c with
      | .arrow arrow => .found arrow.pos
      | .stopped stop => .stopped stop.pos) := by
  have cut {stops : Cursor → Bool} {stop last : Cursor} (first : FirstStop nestBehind stops c stop) (le : stop ≤ last) :
      Cursor.ofOffset? ((Cursor.ofText source).textTo last) c.pos = some (c.upTo last) := by
    obtain ⟨_, lexes, _⟩ := first.topLevel
    exact Cursor.ofOffset?_textTo place (lexes.le.trans le)
  refine ⟨fun _ => headEnd_block_iff, fun _ => headEnd_stopped_iff, fun _ => patternEnd_arrow_iff,
    fun _ => patternEnd_stopped_iff, headEnd_outsideLiterals c, patternEnd_outsideLiterals c, ?_, ?_, ?_,
    Bytes.headAt_eq place, Bytes.patternAt_eq place⟩
  · intro stop ch first head
    rw [cut first (Cursor.le_next stop), Option.map_some, headEnd_upTo first head]
  · intro stop first here
    rw [cut first (Cursor.le_skip 2 stop), Option.map_some, patternEnd_upTo_arrow first here]
  · intro stop first head
    rw [cut first (Cursor.le_next stop), Option.map_some, patternEnd_upTo_brace first head]

/-- The brace and the arrow in the literals are passed over, and the closer that closes nothing counts for nothing. -/
theorem ends_at_first_delimiter_sample :
    Cursor.ofText "é'\x7b' ) (\"=>\") => \x7b".toList ≤ ⟨2, "'\x7b' ) (\"=>\") => \x7b".toList⟩ ∧
    FirstStop nestBehind endsHead ⟨2, "'\x7b' ) (\"=>\") => \x7b".toList⟩ ⟨18, "\x7b".toList⟩ ∧
    FirstStop nestBehind endsPattern ⟨2, "'\x7b' ) (\"=>\") => \x7b".toList⟩ ⟨15, "=> \x7b".toList⟩ := by
  have place : Cursor.ofText "é'\x7b' ) (\"=>\") => \x7b".toList ≤ ⟨2, "'\x7b' ) (\"=>\") => \x7b".toList⟩ :=
    ⟨['é'], rfl, rfl⟩
  have ends := ends_at_first_delimiter place
  exact ⟨place, ((ends.1 _).mp (by cbv)).1, ((ends.2.2.1 _).mp (by cbv)).1⟩

end SigilTemplate.Code
