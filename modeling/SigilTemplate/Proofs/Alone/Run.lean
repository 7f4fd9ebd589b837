import SigilTemplate.Proofs.Alone.Place
import SigilTemplate.Proofs.Reading.Sequence

/-!
Runs of markup at the beginning of a longer text. A run that does not go beyond
the shorter text is its run alone, with two exceptions. At the very end, what
follows can make a `<` the start of a tag. And a quote counts as one in an
inline arm body only if it is closed on its line, which may happen further on:
then the shorter text is over before the string is.
-/

namespace SigilTemplate
open Text

variable {mode : TextMode} {state : TextState} {text after rest front content : List Char} {unit : TextUnit} {pos : Nat}

/-! ## Quotes that are not closed -/

/-- The search for the end of a string goes on to the end of the text: no quote and no line break on the way. -/
inductive Quiet : List Char → Prop
  | nil : Quiet []
  | slash : Quiet ['\\']
  | escape {ch : Char} {rest : List Char} (onward : Quiet rest) : Quiet ('\\' :: ch :: rest)
  | char {ch : Char} {rest : List Char} (plain : ch ≠ '\\') (quote : ch ≠ '"') (line : ch ≠ '\n') (onward : Quiet rest) :
    Quiet (ch :: rest)

theorem Quiet.of_cons {ch : Char} (quiet : Quiet (ch :: rest)) (plain : ch ≠ '\\') :
    ch ≠ '"' ∧ ch ≠ '\n' ∧ Quiet rest := by
  cases quiet with
  | slash | escape => exact absurd rfl plain
  | char _ quote line onward => exact ⟨quote, line, onward⟩

theorem Quiet.of_escape {ch : Char} (quiet : Quiet ('\\' :: ch :: rest)) : Quiet rest := by
  cases quiet with
  | escape onward => exact onward
  | char plain => exact absurd rfl plain

/-- A text that does not end in the middle of an escaped pair can be left out. -/
theorem Quiet.of_append (quiet : Quiet (front ++ rest)) (ends : front.getLast? ≠ some '\\') : Quiet rest := by
  induction front using List.twoStepInduction with
  | nil => exact quiet
  | singleton ch => exact (quiet.of_cons (by simpa using ends)).2.2
  | cons_cons first second front ih ihTail =>
    rw [List.getLast?_cons_cons] at ends
    by_cases slash : first = '\\'
    · subst slash
      refine ih quiet.of_escape ?_
      cases front with
      | nil => simp
      | cons => rwa [List.getLast?_cons_cons] at ends
    · exact ihTail second (quiet.of_cons slash).2.2 ends

theorem closesOnLine_cons {ch : Char} (plain : ch ≠ '\\') (rest : List Char) :
    closesOnLine (ch :: rest) = if ch = '"' then true else if ch = '\n' then false else closesOnLine rest := by
  rw [closesOnLine.eq_def]
  simp only [if_neg plain]

/-- A quote that is closed on its line is closed whatever follows. -/
theorem closesOnLine_append (more : List Char) (closes : closesOnLine text = true) : closesOnLine (text ++ more) = true := by
  fun_induction closesOnLine text with
  | case1 | case2 | case5 => simp at closes
  | case3 _ _ ih => simpa [closesOnLine] using ih closes
  | case4 => rw [List.cons_append, closesOnLine_cons (by decide), if_pos rfl]
  | case6 ch rest plain quote line ih => rw [List.cons_append, closesOnLine_cons plain, if_neg quote, if_neg line, ih closes]

/-- A quote that is closed on its line only by what follows leaves the text before that quiet. -/
theorem quiet_of_closesOnLine (closes : closesOnLine (text ++ after) = true) (unclosed : closesOnLine text = false) :
    Quiet text := by
  fun_induction closesOnLine text with
  | case1 => exact .nil
  | case2 => exact .slash
  | case3 _ _ ih => exact .escape (ih (by simpa [closesOnLine] using closes) unclosed)
  | case4 => simp at unclosed
  | case5 =>
    rw [List.cons_append, closesOnLine_cons (by decide), if_neg (by decide), if_pos rfl] at closes
    simp at closes
  | case6 ch rest plain quote line ih =>
    rw [List.cons_append, closesOnLine_cons plain, if_neg quote, if_neg line] at closes
    exact .char plain quote line (ih closes unclosed)

/-! ## Units -/

/-- A unit is a doubled sigil, or a character that starts no tag, read as the text inside or outside strings is. -/
theorem textUnit?_eq_some_iff {ch : Char} : textUnit? mode state (ch :: rest) = some unit ↔
    (ch = '@' ∧ ∃ more, rest = '@' :: more ∧ unit = ⟨['@'], state, more⟩) ∨
      (ch ≠ '@' ∧ ¬(ch = '<' ∧ (opensTag rest = true ∨ closesTag rest = true)) ∧
        ((state.inString = true ∧ unit = stringUnit state ch rest) ∨
          (state.inString = false ∧ ∃ next, plainState? mode state ch rest = some next ∧ unit = ⟨[ch], next, rest⟩))) := by
  rw [textUnit?.eq_def]
  simp only
  by_cases sigil : ch = '@'
  · subst sigil
    rw [if_pos rfl]
    constructor
    · intro found
      split at found
      · next more => exact .inl ⟨rfl, more, rfl, (Option.some.inj found).symm⟩
      · simp at found
    · rintro (⟨_, more, rfl, rfl⟩ | ⟨plain, _⟩)
      · rfl
      · exact absurd rfl plain
  · rw [if_neg sigil]
    constructor
    · intro found
      split at found
      · simp at found
      · next tag =>
        refine .inr ⟨sigil, tag, ?_⟩
        split at found
        · next inside => exact .inl ⟨inside, (Option.some.inj found).symm⟩
        · next outside =>
          obtain ⟨next, plain, rfl⟩ := Option.map_eq_some_iff.mp found
          exact .inr ⟨by simpa using outside, next, plain, rfl⟩
    · rintro (⟨same, _⟩ | ⟨_, tag, ⟨inside, rfl⟩ | ⟨outside, next, plain, rfl⟩⟩)
      · exact absurd same sigil
      · rw [if_neg tag, if_pos inside]
      · rw [if_neg tag, if_neg (by simp [outside]), plain]
        rfl

/-- A unit of a string that does not take anything from what follows the text is one of the text alone. -/
theorem stringUnit_append {ch : Char} (within : after.length ≤ (stringUnit state ch (rest ++ after)).rest.length) :
    (stringUnit state ch (rest ++ after)).rest = (stringUnit state ch rest).rest ++ after ∧
      stringUnit state ch rest =
        ⟨(stringUnit state ch (rest ++ after)).content, (stringUnit state ch (rest ++ after)).state,
          (stringUnit state ch rest).rest⟩ := by
  unfold stringUnit at within ⊢
  by_cases ends : ch = '"' ∨ ch = '\n'
  · simp [ends]
  · by_cases slash : ch = '\\'
    · subst slash
      cases rest with
      | cons escaped more => by_cases sigil : escaped = '@' <;> simp [sigil]
      | nil =>
        cases after with
        | nil => simp
        | cons first more =>
          by_cases sigil : first = '@'
          · simp [sigil]
          · simp [sigil] at within
    · simp [ends, slash]

/-- Inside a string that the text does not close, a unit stays inside. -/
theorem Quiet.stringUnit {ch : Char} (state : TextState) (quiet : Quiet (ch :: rest)) :
    (SigilTemplate.stringUnit state ch rest).state = state ∧ Quiet (SigilTemplate.stringUnit state ch rest).rest := by
  unfold SigilTemplate.stringUnit
  by_cases slash : ch = '\\'
  · subst slash
    cases rest with
    | nil => exact ⟨rfl, .nil⟩
    | cons escaped more =>
      by_cases sigil : escaped = '@'
      · subst sigil
        exact ⟨by simp, .char (by decide) (by decide) (by decide) quiet.of_escape⟩
      · simpa [sigil] using quiet.of_escape
  · obtain ⟨quote, line, onward⟩ := quiet.of_cons slash
    simpa [quote, line, slash] using onward

theorem Quiet.of_textUnit? (quiet : Quiet text) (inside : state.inString = true)
    (found : textUnit? mode state (text ++ after) = some unit) (within : after.length ≤ unit.rest.length) :
    unit.state = state ∧ ∃ rest, unit.rest = rest ++ after ∧ Quiet rest := by
  have shorter := length_textUnit? found
  cases text with
  | nil =>
    simp only [List.nil_append] at shorter
    omega
  | cons ch text =>
    rw [List.cons_append] at found
    rcases textUnit?_eq_some_iff.mp found with ⟨rfl, more, double, rfl⟩ | ⟨_, _, ⟨_, rfl⟩ | ⟨outside, _⟩⟩
    · cases text with
      | nil =>
        rw [List.nil_append] at double
        simp [double] at within
      | cons second rest =>
        obtain ⟨rfl, rfl⟩ := List.cons.inj double
        exact ⟨rfl, rest, rfl, ((quiet.of_cons (by decide)).2.2.of_cons (by decide)).2.2⟩
    · obtain ⟨rest, same⟩ := stringUnit_append within
      rw [rest]
      have onward := quiet.stringUnit state
      rw [same] at onward
      exact ⟨onward.1, _, rfl, onward.2⟩
    · simp [inside] at outside

/-- What decides on a character outside strings is the text alone, but for a quote that is closed further on. -/
theorem plainState?_append {ch : Char} {next : TextState} (found : plainState? mode state ch (rest ++ after) = some next) :
    plainState? mode state ch rest = some next ∨ (mode = .arm ∧ next.inString = true ∧ Quiet rest) := by
  unfold plainState? at found ⊢
  by_cases quote : mode = .arm ∧ ch = '"'
  · obtain ⟨rfl, rfl⟩ := quote
    cases closes : closesOnLine (rest ++ after) with
    | false =>
      have unclosed : closesOnLine rest = false := by
        by_contra closed
        rw [closesOnLine_append after (by simpa using closed)] at closes
        simp at closes
      exact .inl (by simpa [armState?, closes, unclosed] using found)
    | true =>
      cases unclosed : closesOnLine rest with
      | true => exact .inl (by simpa [armState?, closes, unclosed] using found)
      | false =>
        refine .inr ⟨rfl, ?_, quiet_of_closesOnLine closes unclosed⟩
        have same : state.withString true = next := by simpa [armState?, closes] using found
        rw [← same]
        rfl
  · left
    cases mode with
    | free | braced => exact found
    | arm =>
      have other : ch ≠ '"' := fun same => quote ⟨rfl, same⟩
      simpa [armState?, other] using found

theorem not_tag_of_append {ch : Char}
    (plain : ¬(ch = '<' ∧ (opensTag (rest ++ after) = true ∨ closesTag (rest ++ after) = true))) :
    ¬(ch = '<' ∧ (opensTag rest = true ∨ closesTag rest = true)) := by
  rintro ⟨bracket, opens | closes⟩
  · exact plain ⟨bracket, .inl (Cursor.opensTag_append after opens)⟩
  · exact plain ⟨bracket, .inr (Cursor.closesTag_append after closes)⟩

/-- A unit that does not take anything from what follows the text is one of the text alone, unless a quote made it
differ. -/
theorem textUnit?_of_append (found : textUnit? mode state (text ++ after) = some unit)
    (within : after.length ≤ unit.rest.length) :
    ∃ rest, unit.rest = rest ++ after ∧ (textUnit? mode state text = some ⟨unit.content, unit.state, rest⟩ ∨
      (mode = .arm ∧ unit.state.inString = true ∧ Quiet rest)) := by
  have shorter := length_textUnit? found
  cases text with
  | nil =>
    simp only [List.nil_append] at shorter
    omega
  | cons ch text =>
    rw [List.cons_append] at found
    rcases textUnit?_eq_some_iff.mp found with ⟨rfl, more, double, rfl⟩ | ⟨plain, tag, ⟨inside, rfl⟩ | ⟨outside, next, other, rfl⟩⟩
    · cases text with
      | nil =>
        rw [List.nil_append] at double
        simp [double] at within
      | cons second rest =>
        obtain ⟨rfl, rfl⟩ := List.cons.inj double
        exact ⟨rest, rfl, .inl rfl⟩
    · obtain ⟨rest, same⟩ := stringUnit_append within
      refine ⟨_, rest, .inl ?_⟩
      rw [← same]
      exact textUnit?_eq_some_iff.mpr (.inr ⟨plain, not_tag_of_append tag, .inl ⟨inside, rfl⟩⟩)
    · refine ⟨text, rfl, ?_⟩
      rcases plainState?_append other with alone | lost
      · exact .inl (textUnit?_eq_some_iff.mpr (.inr ⟨plain, not_tag_of_append tag, .inr ⟨outside, next, alone, rfl⟩⟩))
      · exact .inr lost

/-- A tag opens or closes at a place. -/
def Cursor.AtTag (c : Cursor) : Prop := c.atTagOpen = true ∨ c.atTagClose = true

theorem Cursor.atTag_iff {c : Cursor} {ch : Char} (starts : c.rest = ch :: rest) :
    c.AtTag ↔ ch = '<' ∧ (opensTag rest = true ∨ closesTag rest = true) := by
  simp only [AtTag, atTagOpen, atTagClose, peek, next, starts, List.head?_cons, Bool.and_eq_true, beq_iff_eq,
    Option.some.injEq]
  tauto

/-- Where markup goes on alone but not in the larger text, that has a tag. -/
theorem atTag_of_textUnit? {s : Surroundings} {c : Cursor} (found : textUnit? mode state c.rest = some unit)
    (missing : textUnit? mode state (c.amid s).rest = none) : (c.amid s).AtTag ∧ ¬c.AtTag := by
  cases starts : c.rest with
  | nil => simp [textUnit?, starts] at found
  | cons ch rest =>
    have larger : (c.amid s).rest = ch :: (rest ++ s.after) := by rw [Cursor.amid_rest, starts, List.cons_append]
    rw [Cursor.atTag_iff larger, Cursor.atTag_iff starts]
    rw [starts] at found
    rw [larger] at missing
    have nothing : ∀ unit, textUnit? mode state (ch :: (rest ++ s.after)) ≠ some unit := by simp [missing]
    rcases textUnit?_eq_some_iff.mp found with ⟨rfl, more, rfl, _⟩ | ⟨plain, tag, read⟩
    · exact absurd (textUnit?_eq_some_iff.mpr (.inl ⟨rfl, more ++ s.after, rfl, rfl⟩)) (nothing _)
    · refine ⟨?_, tag⟩
      by_contra other
      rcases read with ⟨inside, _⟩ | ⟨outside, next, goesOn, _⟩
      · exact nothing _ (textUnit?_eq_some_iff.mpr (.inr ⟨plain, other, .inl ⟨inside, rfl⟩⟩))
      · cases more : plainState? mode state ch (rest ++ s.after) with
        | some next =>
          exact nothing _ (textUnit?_eq_some_iff.mpr (.inr ⟨plain, other, .inr ⟨outside, next, more, rfl⟩⟩))
        | none =>
          -- Whether a character ends the region does not depend on what follows it.
          have ends : plainState? mode state ch rest = none :=
            (plainState?_eq_none_iff outside).mpr ((plainState?_eq_none_iff outside).mp more)
          simp [ends] at goesOn

/-! ## Runs -/

theorem textRunFrom_of_some (found : textUnit? mode state text = some unit) :
    textRunFrom mode state content pos text =
      textRunFrom mode unit.state (unit.content.reverse ++ content) (pos + byteLength (escape unit.content)) unit.rest := by
  rw [textRunFrom]
  split
  · next missing => simp [missing] at found
  · next other here =>
    obtain rfl := Option.some.inj (here.symm.trans found)
    rfl

theorem textRunFrom_of_none (missing : textUnit? mode state text = none) :
    textRunFrom mode state content pos text = ⟨content.reverse, state, ⟨pos, text⟩⟩ := by
  rw [textRunFrom]
  split
  · rfl
  · next found => simp [missing] at found

/-- A run never has more in front of it than the text it starts with. -/
theorem length_textRunFrom : (textRunFrom mode state content pos text).after.rest.length ≤ text.length := by
  obtain ⟨more, _, reads⟩ := reads_textRunFrom mode state content pos text
  exact reads.length_le

/-- Inside a string that the text does not close, a run stays inside. -/
theorem Quiet.of_textRunFrom (quiet : Quiet text) (inside : state.inString = true)
    (within : after.length ≤ (textRunFrom mode state content pos (text ++ after)).after.rest.length) :
    (textRunFrom mode state content pos (text ++ after)).state = state ∧
      ∃ rest, (textRunFrom mode state content pos (text ++ after)).after.rest = rest ++ after ∧ Quiet rest := by
  generalize same : text ++ after = whole at within ⊢
  fun_induction textRunFrom mode state content pos whole generalizing text with
  | case1 => exact ⟨rfl, text, same.symm, quiet⟩
  | case2 state content pos whole unit found ih =>
    subst same
    obtain ⟨stays, rest, split, onward⟩ := quiet.of_textUnit? inside found (within.trans length_textRunFrom)
    rw [stays] at ih within ⊢
    exact ih onward inside split.symm within

/-- The text is over before a string is that started in it. -/
def Lost (mode : TextMode) (s : Surroundings) (state : TextState) (c : Cursor) : Prop :=
  mode = .arm ∧ state.inString = true ∧ ∃ rest, c.rest = rest ++ s.after ∧ Quiet rest

/-- A run that ends in a stretch is its run alone, unless the stretch is over before a string is. -/
theorem textRunFrom_amid {s : Surroundings}
    (within : s.after.length ≤ (textRunFrom mode state content (s.before + pos) (text ++ s.after)).after.rest.length)
    (marks : ∀ d : Cursor, (textRunFrom mode state content (s.before + pos) (text ++ s.after)).after = d.amid s →
      (d.amid s).AtTag → d.AtTag) :
    let run := textRunFrom mode state content (s.before + pos) (text ++ s.after)
    let alone := textRunFrom mode state content pos text
    run = ⟨alone.content, alone.state, alone.after.amid s⟩ ∨ Lost mode s run.state run.after := by
  fun_induction textRunFrom mode state content pos text with
  | case1 state content pos text missing =>
    cases found : textUnit? mode state (text ++ s.after) with
    | none =>
      rw [textRunFrom_of_none found]
      exact .inl rfl
    | some unit =>
      rw [textRunFrom_of_some found] at within ⊢
      obtain ⟨rest, split, same | ⟨arm, inside, quiet⟩⟩ := textUnit?_of_append found (within.trans length_textRunFrom)
      · simp [missing] at same
      · rw [split] at within ⊢
        obtain ⟨stays, onward⟩ := quiet.of_textRunFrom inside within
        exact .inr ⟨arm, by rw [stays, inside], onward⟩
  | case2 state content pos text unit found ih =>
    cases larger : textUnit? mode state (text ++ s.after) with
    | none =>
      rw [textRunFrom_of_none larger] at marks
      obtain ⟨tag, noTag⟩ := atTag_of_textUnit? (c := ⟨pos, text⟩) found larger
      exact absurd (marks ⟨pos, text⟩ rfl tag) noTag
    | some other =>
      rw [textRunFrom_of_some larger] at within marks ⊢
      obtain ⟨rest, split, same | ⟨arm, inside, quiet⟩⟩ := textUnit?_of_append larger (within.trans length_textRunFrom)
      · obtain rfl := Option.some.inj (found.symm.trans same)
        rw [split, Nat.add_assoc] at within marks ⊢
        exact ih within marks
      · rw [split] at within ⊢
        obtain ⟨stays, onward⟩ := quiet.of_textRunFrom inside within
        exact .inr ⟨arm, by rw [stays, inside], onward⟩

end SigilTemplate
