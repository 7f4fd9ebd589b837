import SigilTemplate.Proofs.Reading.Soundness

/-!
One round over a region, case by case. The region ends, or a closing tag is
stray, a tag opens, a sigil starts a construct, or markup goes on; each case
says what the round then does.
-/

namespace SigilTemplate
open Text

variable {below : Below} {context : Context} {kind : RegionKind} {mode : TextMode} {state : RegionState}

/-- Only a closing brace and a comma end a region by themselves. -/
theorem endAt?_eq_none {text : TextState} {ch : Char} (brace : ch ≠ '}') (comma : ch ≠ ',') : endAt? mode text ch = none := by
  cases ends : endAt? mode text ch with
  | none => rfl
  | some stop =>
    rcases endAt?_spec ends with ⟨same, _⟩ | ⟨same, _⟩
    · exact absurd same brace
    · exact absurd same comma

/-- A tag that opens does not close. -/
theorem Cursor.not_atTagClose_of_atTagOpen {c : Cursor} (opens : c.atTagOpen = true) : c.atTagClose = false := by
  rw [Bool.eq_false_iff]
  intro closes
  simp only [Cursor.atTagOpen, Cursor.atTagClose, Bool.and_eq_true, opensTag, closesTag] at opens closes
  obtain ⟨_, capital⟩ := opens
  obtain ⟨_, slash⟩ := closes
  split at slash
  · next here =>
    simp [here] at capital
  · simp at slash

/-- The state after a run of text. -/
def RegionState.afterText (mode : TextMode) (state : RegionState) : RegionState :=
  let run := textRun mode state.text state.place
  ⟨⟨.text (String.ofList run.content), state.place.spanTo run.after⟩ :: state.nodes, run.state, run.after⟩

/-- Where a region ends, the round ends it. -/
theorem regionStep_of_endsAt {stop : RegionEnd} (ends : EndsAt kind state.text state.place stop) :
    regionStep below context kind state = pure (.inr (state.stop stop)) := by
  cases ends with
  | textEnd empty => simp [regionStep, Cursor.peek_eq_none.mpr empty]
  | marked head ends => simp [regionStep, head, ends]
  | closeTag closes tag =>
    have plain : endAt? kind.mode state.text '<' = none := endAt?_eq_none (by decide) (by decide)
    simp [regionStep, Cursor.peek_of_atTagClose closes, plain, closes, tag]

/-- Where a tag opens, the round reads it. -/
theorem regionStep_tagOpen (opens : state.place.atTagOpen = true) :
    regionStep below context kind state =
      readTag below context state.place >>= fun read => pure (.inl (state.push read)) := by
  have head := Cursor.peek_of_atTagOpen opens
  have closes := Cursor.not_atTagClose_of_atTagOpen opens
  have plain : endAt? kind.mode state.text '<' = none := endAt?_eq_none (by decide) (by decide)
  simp only [regionStep, head, plain, closes, Bool.false_and, readItem, opens, if_true]
  rw [if_neg (by simp), if_neg (by simp), Traced.bind_assoc]
  rfl

/-- Where a construct starts with a sigil, the round reads it. -/
theorem regionStep_sigil (sigil : state.place.atSigil = true) :
    regionStep below context kind state =
      readSigil below context state.place >>= fun read => pure (.inl (state.push read)) := by
  have head := Cursor.peek_of_atSigil sigil
  have opens : state.place.atTagOpen = false := by simp [Cursor.atTagOpen, head]
  have closes : state.place.atTagClose = false := by simp [Cursor.atTagClose, head]
  have plain : endAt? kind.mode state.text '@' = none := endAt?_eq_none (by decide) (by decide)
  simp only [regionStep, head, plain, closes, Bool.false_and, readItem, opens, sigil, if_true]
  rw [if_neg (by simp), if_neg (by simp), if_neg (by simp), Traced.bind_assoc]
  rfl

/-- Outside the body of a tag a closing tag belongs to none. -/
theorem regionStep_strayClose (closes : state.place.atTagClose = true) (body : kind.isTagBody = false) :
    regionStep below context kind state =
      readStrayClose state.place >>= fun read => pure (.inl (state.push read)) := by
  have head := Cursor.peek_of_atTagClose closes
  have plain : endAt? kind.mode state.text '<' = none := endAt?_eq_none (by decide) (by decide)
  simp only [regionStep, head, plain, closes, body, Bool.and_false, readItem, if_true]
  rw [if_neg (by simp), Traced.bind_assoc]
  rfl

/-- Where markup goes on, the round reads a run of it. -/
theorem regionStep_text (atText : AtText kind.mode state.text state.place) :
    regionStep below context kind state = pure (.inl (state.afterText kind.mode)) := by
  obtain ⟨plain, ch, head, goesOn⟩ := atText
  obtain ⟨closes, opens, sigil⟩ : state.place.atTagClose = false ∧ state.place.atTagOpen = false ∧
      state.place.atSigil = false := by simpa [Cursor.AtConstruct] using plain
  simp only [regionStep, head, goesOn, closes, Bool.false_and, readItem, opens, sigil]
  rfl

/-- In every state one of the cases applies. -/
theorem RegionState.round (kind : RegionKind) (state : RegionState) :
    (∃ stop, EndsAt kind state.text state.place stop) ∨
      (state.place.atTagClose = true ∧ kind.isTagBody = false) ∨ state.place.atTagOpen = true ∨
      state.place.atSigil = true ∨ AtText kind.mode state.text state.place := by
  cases head : state.place.peek with
  | none => exact .inl ⟨.textEnd, .textEnd (Cursor.peek_eq_none.mp head)⟩
  | some ch =>
    cases ends : endAt? kind.mode state.text ch with
    | some stop => exact .inl ⟨stop, .marked head ends⟩
    | none =>
      by_cases closes : state.place.atTagClose = true
      · cases body : kind.isTagBody with
        | true => exact .inl ⟨.closeTag, .closeTag closes body⟩
        | false => exact .inr (.inl ⟨closes, rfl⟩)
      by_cases opens : state.place.atTagOpen = true
      · exact .inr (.inr (.inl opens))
      by_cases sigil : state.place.atSigil = true
      · exact .inr (.inr (.inr (.inl sigil)))
      exact .inr (.inr (.inr (.inr ⟨by simp [Cursor.AtConstruct, closes, opens, sigil], ch, head, ends⟩)))

end SigilTemplate
