import SigilTemplate.Code.Chain
import SigilTemplate.Proofs.Alone.Place
import SigilTemplate.Proofs.Code.Rest

/-!
Code in a stretch of a text. A literal that ends in the stretch ends there alone
too, and so does a fragment between delimiters, the head of a statement, the
pattern of an arm and a chain.
-/

namespace SigilTemplate.Code
open Text

variable {s : Surroundings} {c d e x : Cursor} {text : List Char} {pos : Nat}

/-! ## Literals -/

theorem findQuote?_here {quote : Char} (plain : quote ≠ '\\') (pos : Nat) (rest : List Char) :
    findQuote? quote pos (quote :: rest) = some ⟨pos, quote :: rest⟩ := by
  cases rest <;> simp [findQuote?, plain]

theorem findQuote?_next {quote ch : Char} (plain : ch ≠ '\\') (other : ch ≠ quote) (pos : Nat) (rest : List Char) :
    findQuote? quote pos (ch :: rest) = findQuote? quote (pos + ch.utf8Size) rest := by
  cases rest <;> simp [findQuote?, plain, other]

theorem findQuote?_amid_of_some {quote : Char} (found : findQuote? quote pos text = some d) :
    findQuote? quote (s.before + pos) (text ++ s.after) = some (d.amid s) := by
  fun_induction findQuote? quote pos text with
  | case1 => simp at found
  | case2 => simp at found
  | case3 pos escaped rest ih =>
    rw [List.cons_append, List.cons_append, findQuote?, if_pos rfl]
    simpa [Nat.add_assoc] using ih found
  | case4 pos rest other =>
    obtain rfl := Option.some.inj found
    rw [List.cons_append, findQuote?_here other]
    rfl
  | case5 pos ch rest slash other ih =>
    rw [List.cons_append, findQuote?_next slash other, Nat.add_assoc]
    exact ih found

theorem length_findQuote? {quote : Char} (found : findQuote? quote pos text = some d) :
    d.rest.length ≤ text.length := by
  obtain ⟨inside, reads, _⟩ := reads_findQuote? found
  exact reads.length_le

/-- A quote that is found in the stretch is found there alone. -/
theorem findQuote?_of_amid {quote : Char} (more : d.rest ≠ [])
    (found : findQuote? quote (s.before + pos) (text ++ s.after) = some (d.amid s)) :
    findQuote? quote pos text = some d := by
  have positive := List.length_pos_iff.mpr more
  fun_induction findQuote? quote pos text with
  | case1 =>
    have short := length_findQuote? found
    simp only [List.nil_append, Cursor.amid_rest, List.length_append] at short
    omega
  | case2 =>
    rw [List.singleton_append] at found
    cases after : s.after with
    | nil => simp [after, findQuote?] at found
    | cons escaped rest =>
      rw [after, findQuote?, if_pos rfl] at found
      have short := length_findQuote? found
      simp only [Cursor.amid_rest, after, List.length_append, List.length_cons] at short
      omega
  | case3 pos escaped rest ih =>
    rw [List.cons_append, List.cons_append, findQuote?, if_pos rfl] at found
    exact ih (by simpa [Nat.add_assoc] using found)
  | case4 pos rest other =>
    rw [List.cons_append, findQuote?_here other] at found
    have here : (⟨pos, quote :: rest⟩ : Cursor).amid s = d.amid s := Option.some.inj found
    rw [Cursor.amid_inj.mp here]
  | case5 pos ch rest slash other ih =>
    rw [List.cons_append, findQuote?_next slash other, Nat.add_assoc] at found
    exact ih found

theorem findEscapeEnd?_amid_of_some {limit : Nat} (found : findEscapeEnd? limit pos text = some d) :
    findEscapeEnd? (s.before + limit) (s.before + pos) (text ++ s.after) = some (d.amid s) := by
  fun_induction findEscapeEnd? limit pos text with
  | case1 => simp at found
  | case2 pos rest within =>
    obtain rfl := Option.some.inj found
    rw [List.cons_append, findEscapeEnd?, if_pos (by omega), if_pos rfl]
    rfl
  | case3 pos ch rest within other ih =>
    rw [List.cons_append, findEscapeEnd?, if_pos (by omega), if_neg other, Nat.add_assoc]
    exact ih found
  | case4 => simp at found

theorem length_findEscapeEnd? {limit : Nat} (found : findEscapeEnd? limit pos text = some d) :
    d.rest.length < text.length := by
  obtain ⟨inside, nonempty, reads⟩ := reads_findEscapeEnd? found
  exact reads.length_lt nonempty

theorem findEscapeEnd?_of_amid {limit : Nat}
    (found : findEscapeEnd? (s.before + limit) (s.before + pos) (text ++ s.after) = some (d.amid s)) :
    findEscapeEnd? limit pos text = some d := by
  fun_induction findEscapeEnd? limit pos text with
  | case1 =>
    have short := length_findEscapeEnd? found
    simp at short
  | case2 pos rest within =>
    rw [List.cons_append, findEscapeEnd?, if_pos (by omega), if_pos rfl] at found
    have here : (⟨pos + 1, rest⟩ : Cursor).amid s = d.amid s := by simpa [Cursor.amid, Nat.add_assoc] using found
    rw [Cursor.amid_inj.mp here]
  | case3 pos ch rest within other ih =>
    rw [List.cons_append, findEscapeEnd?, if_pos (by omega), if_neg other, Nat.add_assoc] at found
    exact ih found
  | case4 pos ch rest beyond =>
    rw [List.cons_append, findEscapeEnd?, if_neg (by omega)] at found
    simp at found

theorem charLiteralEnd?_amid_of_some (found : charLiteralEnd? c = some d) :
    charLiteralEnd? (c.amid s) = some (d.amid s) := by
  unfold charLiteralEnd? at found
  split at found
  · next q escaped rest starts =>
    have larger := findEscapeEnd?_amid_of_some (s := s) found
    simp only [charLiteralEnd?, Cursor.amid_rest, starts, List.cons_append, Cursor.amid_pos]
    simpa [Nat.add_assoc] using larger
  · simp at found
  · simp at found
  · next q ch rest slash tick starts =>
    obtain rfl := Option.some.inj found
    simp [charLiteralEnd?, Cursor.amid, starts, Nat.add_assoc]
  · simp at found

/-- What is left of a text with more after it is left of the text itself, if it is no shorter than what comes after. -/
theorem exists_append_of_length_le (front : List Char) {after rest : List Char} (same : text ++ after = front ++ rest)
    (le : after.length ≤ rest.length) : ∃ more, text = front ++ more ∧ rest = more ++ after := by
  rcases List.append_eq_append_iff.mp same with ⟨more, first, second⟩ | ⟨more, first, second⟩
  · have length := congrArg List.length second
    rw [List.length_append] at length
    obtain rfl := List.length_eq_zero_iff.mp (by omega : more.length = 0)
    exact ⟨[], by simpa using first.symm, by simpa using second.symm⟩
  · exact ⟨more, first, second⟩

theorem charLiteralEnd?_of_amid (found : charLiteralEnd? (c.amid s) = some (d.amid s)) :
    charLiteralEnd? c = some d := by
  unfold charLiteralEnd? at found
  split at found
  · next q escaped rest starts =>
    have short := length_findEscapeEnd? found
    rw [Cursor.amid_rest, List.length_append] at short
    obtain ⟨more, head, rfl⟩ := exists_append_of_length_le [q, '\\', escaped] starts (by omega)
    rw [Cursor.amid_pos, Nat.add_assoc, Nat.add_assoc, Nat.add_assoc] at found
    simp only [charLiteralEnd?, head, List.cons_append, List.nil_append, Nat.add_assoc]
    exact findEscapeEnd?_of_amid found
  · simp at found
  · simp at found
  · next q ch rest slash tick starts =>
    obtain ⟨pos, left⟩ := Cursor.mk.inj (Option.some.inj found)
    obtain ⟨more, head, same⟩ := exists_append_of_length_le [q, ch, '\x27'] starts (by simp [left])
    have rest_eq : d.rest = more := List.append_cancel_right (left.symm.trans same)
    cases d
    simp only [Cursor.amid_pos] at pos rest_eq
    simp only [charLiteralEnd?, head, List.cons_append, List.nil_append, rest_eq, Option.some.injEq, Cursor.mk.injEq,
      and_true]
    omega
  · simp at found

theorem literalEnd?_quote {rest : List Char} (starts : c.rest = '"' :: rest) :
    literalEnd? c = some (((findQuote? '"' (c.pos + 1) rest).map Cursor.next).getD c.finish) := by
  simp only [literalEnd?, starts]
  cases findQuote? '"' (c.pos + 1) rest <;> rfl

theorem literalEnd?_tick {rest : List Char} (starts : c.rest = '\x27' :: rest) : literalEnd? c = charLiteralEnd? c := by
  simp only [literalEnd?, starts]

theorem literalEnd?_other (quote : c.peek ≠ some '"') (tick : c.peek ≠ some '\x27') : literalEnd? c = none := by
  unfold literalEnd?
  split
  · next starts => simp [Cursor.peek, starts] at quote
  · next starts => simp [Cursor.peek, starts] at tick
  · rfl

/-- A literal that ends in the stretch ends there alone. -/
theorem literalEnd?_of_amid (found : literalEnd? (c.amid s) = some (d.amid s)) : literalEnd? c = some d := by
  have lt : c < d := Cursor.amid_lt_amid.mp (lt_of_literalEnd? found)
  obtain ⟨ch, rest, starts⟩ := List.exists_cons_of_ne_nil (Cursor.ne_nil_of_lt lt)
  have larger : (c.amid s).rest = ch :: (rest ++ s.after) := by rw [Cursor.amid_rest, starts, List.cons_append]
  by_cases quote : ch = '"'
  · subst quote
    rw [literalEnd?_quote larger, Cursor.amid_pos, Nat.add_assoc] at found
    rw [literalEnd?_quote starts]
    cases closes : findQuote? '"' (s.before + (c.pos + 1)) (rest ++ s.after) with
    | some close =>
      rw [closes] at found
      have next : close.next = d.amid s := Option.some.inj found
      obtain ⟨inside, reads, more, mark⟩ := reads_findQuote? closes
      have before : (⟨c.pos + 1, rest⟩ : Cursor).amid s ≤ close := ⟨inside, reads⟩
      have lt : close < d.amid s := next ▸ Cursor.lt_next (Cursor.peek_eq_some.mpr ⟨more, mark⟩)
      obtain ⟨place, rfl, _, _⟩ := Cursor.exists_amid before lt.le
      have nonempty := Cursor.ne_nil_of_lt (Cursor.amid_lt_amid.mp lt)
      rw [Cursor.next_amid nonempty, Cursor.amid_inj] at next
      rw [findQuote?_of_amid nonempty closes, ← next]
      rfl
    | none =>
      rw [closes] at found
      have last : (c.amid s).finish = d.amid s := Option.some.inj found
      have missing : findQuote? '"' (c.pos + 1) rest = none := by
        cases other : findQuote? '"' (c.pos + 1) rest with
        | none => rfl
        | some close => simp [findQuote?_amid_of_some (s := s) other] at closes
      rw [missing, Option.map_none, Option.getD_none, Cursor.finish_of_amid last]
  · by_cases tick : ch = '\x27'
    · subst tick
      rw [literalEnd?_tick larger] at found
      rw [literalEnd?_tick starts]
      exact charLiteralEnd?_of_amid found
    · have head : (c.amid s).peek = some ch := Cursor.peek_eq_some.mpr ⟨_, larger⟩
      have none : literalEnd? (c.amid s) = none := literalEnd?_other (by simp [head, quote]) (by simp [head, tick])
      simp [none] at found

/-- Where no literal starts in the larger text, none starts alone. -/
theorem literalEnd?_amid_of_none (missing : literalEnd? (c.amid s) = none) : literalEnd? c = none := by
  cases starts : c.rest with
  | nil => simp [literalEnd?, starts]
  | cons ch rest =>
    have larger : (c.amid s).rest = ch :: (rest ++ s.after) := by rw [Cursor.amid_rest, starts, List.cons_append]
    by_cases quote : ch = '"'
    · subst quote
      simp [literalEnd?_quote larger] at missing
    · by_cases tick : ch = '\x27'
      · subst tick
        rw [literalEnd?_tick larger] at missing
        rw [literalEnd?_tick starts]
        cases found : charLiteralEnd? c with
        | none => rfl
        | some after => simp [charLiteralEnd?_amid_of_some (s := s) found] at missing
      · exact literalEnd?_other (by simp [Cursor.peek, starts, quote]) (by simp [Cursor.peek, starts, tick])

/-! ## Scans -/

section Scan

variable {σ τ ρ : Type} {step : σ → Char → Cursor → ρ ⊕ σ} {other : τ → Char → Cursor → ρ ⊕ τ}
  {finish : σ → Cursor → ρ}

/-- A scan comes from one place and state to another place outside literals. -/
inductive Scans (step : σ → Char → Cursor → ρ ⊕ σ) : σ → Cursor → σ → Cursor → Prop
  | refl (state : σ) (c : Cursor) : Scans step state c state c
  | literal {state here : σ} {c after d : Cursor} (literal : literalEnd? c = some after)
      (onward : Scans step state after here d) : Scans step state c here d
  | char {state next here : σ} {c d : Cursor} {ch : Char} (plain : literalEnd? c = none) (head : c.peek = some ch)
      (goesOn : step state ch c = .inr next) (onward : Scans step next c.next here d) : Scans step state c here d

theorem Scans.scan_eq {state here : σ} (scans : Scans step state c here d) :
    scan step finish state c = scan step finish here d := by
  induction scans with
  | refl => rfl
  | literal literal _ ih => rw [scan_literal literal, ih]
  | char plain head goesOn _ ih =>
    obtain ⟨rest, starts⟩ := Cursor.peek_eq_some.mp head
    rw [scan_step plain starts, goesOn, ← ih]

theorem Scans.le {state here : σ} (scans : Scans step state c here d) : c ≤ d := by
  induction scans with
  | refl => exact le_refl _
  | literal literal _ ih => exact (lt_of_literalEnd? literal).le.trans ih
  | char _ _ _ _ ih => exact (Cursor.le_next _).trans ih

/-- A scan answers with its last step, or at the end of the text. -/
theorem exists_scans (step : σ → Char → Cursor → ρ ⊕ σ) (finish : σ → Cursor → ρ) (state : σ) (c : Cursor) :
    ∃ here d, Scans step state c here d ∧ literalEnd? d = none ∧
      ((∃ ch, d.peek = some ch ∧ step here ch d = .inl (scan step finish state c)) ∨
        (d.rest = [] ∧ scan step finish state c = finish here d)) := by
  fun_induction scan step finish state c with
  | case1 state c after literal ih =>
    obtain ⟨here, d, scans, last⟩ := ih
    exact ⟨here, d, .literal literal scans, last⟩
  | case2 state c plain empty => exact ⟨state, c, .refl state c, plain, .inr ⟨empty, rfl⟩⟩
  | case3 state c plain ch rest starts answer answers =>
    exact ⟨state, c, .refl state c, plain, .inl ⟨ch, Cursor.peek_eq_some.mpr ⟨rest, starts⟩, answers⟩⟩
  | case4 state c plain ch rest starts next goesOn ih =>
    obtain ⟨here, d, scans, last⟩ := ih
    exact ⟨here, d, .char plain (Cursor.peek_eq_some.mpr ⟨rest, starts⟩) goesOn scans, last⟩

/-- A scan between places of the stretch is one of the stretch alone, with states that correspond. -/
theorem Scans.of_amid (other : τ → Char → Cursor → ρ ⊕ τ) {rel : σ → τ → Prop} {state here : σ} {alone : τ}
    (steps : ∀ state alone ch place next, rel state alone → place.peek = some ch →
      step state ch (place.amid s) = .inr next → ∃ onward, other alone ch place = .inr onward ∧ rel next onward)
    (scans : Scans step state (c.amid s) here (d.amid s)) (start : rel state alone) :
    ∃ last, Scans other alone c last d ∧ rel here last := by
  generalize from_ : c.amid s = c' at scans
  generalize to_ : d.amid s = d' at scans
  induction scans generalizing c alone with
  | refl state place =>
    obtain rfl := Cursor.amid_inj.mp (from_.trans to_.symm)
    exact ⟨alone, .refl alone c, start⟩
  | literal literal onward ih =>
    subst from_ to_
    obtain ⟨after, rfl, _, _⟩ := Cursor.exists_amid (lt_of_literalEnd? literal).le onward.le
    obtain ⟨last, scans, holds⟩ := ih start rfl rfl
    exact ⟨last, .literal (literalEnd?_of_amid literal) scans, holds⟩
  | char plain head goesOn onward ih =>
    subst from_ to_
    have lt : c < d := Cursor.amid_lt_amid.mp ((Cursor.lt_next head).trans_le onward.le)
    have here := Cursor.peek_of_amid lt head
    obtain ⟨next, goes, holds⟩ := steps _ _ _ _ _ start here goesOn
    obtain ⟨last, scans, holds⟩ := ih holds (Cursor.next_amid (Cursor.ne_nil_of_lt lt)).symm rfl
    exact ⟨last, .char (literalEnd?_amid_of_none plain) here goes scans, holds⟩

end Scan

/-! ## Fragments between delimiters -/

theorem encloseStep_ok_iff {limit : Nat} {start place : Cursor} {nesting : Nesting} {ch : Char} {found : Enclosed} :
    encloseStep limit start nesting ch place = .inl (.ok found) ↔
      isOpener ch = false ∧ isCloser ch = true ∧ closerOf nesting.innermost.ch = ch ∧ nesting.around = [] ∧
        found = ⟨start.upTo place, place.next⟩ := by
  unfold encloseStep
  cases opens : isOpener ch
  · cases closes : isCloser ch
    · simp
    · by_cases same : closerOf nesting.innermost.ch = ch
      · cases around : nesting.around <;> simp [same, eq_comm]
      · simp [same]
  · simp only [if_true]
    split <;> simp

/-- Of what is open, only the kinds of the delimiters count. -/
def Nesting.SameKinds (first second : Nesting) : Prop :=
  first.openers.map OpenDelimiter.ch = second.openers.map OpenDelimiter.ch

theorem encloseStep_sameKinds {limit : Nat} {start other : Cursor} {first second next : Nesting} {ch : Char}
    {place here : Cursor} (same : first.SameKinds second) (goesOn : encloseStep limit start first ch place = .inr next) :
    ∃ onward, encloseStep limit other second ch here = .inr onward ∧ next.SameKinds onward := by
  obtain ⟨innermost, around⟩ := first
  obtain ⟨otherInnermost, otherAround⟩ := second
  obtain ⟨kind, kinds⟩ : innermost.ch = otherInnermost.ch ∧
      around.map OpenDelimiter.ch = otherAround.map OpenDelimiter.ch := List.cons.inj same
  have depth : around.length = otherAround.length := by simpa using congrArg List.length kinds
  unfold encloseStep at goesOn ⊢
  by_cases opens : isOpener ch = true
  · simp only [if_pos opens, Nesting.depth, depth] at goesOn ⊢
    split at goesOn
    · simp at goesOn
    · next fits =>
      obtain rfl := Sum.inr.inj goesOn
      exact ⟨_, if_neg fits, by simp [Nesting.SameKinds, Nesting.openers, kind, kinds]⟩
  · simp only [if_neg opens, kind] at goesOn ⊢
    split at goesOn
    · next closes =>
      simp only [if_pos closes]
      split at goesOn
      · next fits =>
        simp only [if_pos fits]
        cases around with
        | nil => simp at goesOn
        | cons outer around =>
          obtain rfl := Sum.inr.inj goesOn
          cases otherAround with
          | nil => simp at depth
          | cons other others => exact ⟨_, rfl, kinds⟩
      · simp at goesOn
    · next plain =>
      obtain rfl := Sum.inr.inj goesOn
      exact ⟨_, if_neg plain, by simp [Nesting.SameKinds, Nesting.openers, kind, kinds]⟩

/-- A fragment that ends in the stretch is the fragment of the stretch alone. -/
theorem enclosed_of_amid {limit : Nat} {found : Enclosed} (ok : enclosed limit (c.amid s) = .ok found)
    (lt : c < e) (ends : found.after = e.amid s) :
    ∃ inner, enclosed limit c = .ok ⟨inner, e⟩ ∧ found.inner = inner.moved s.before := by
  have more := Cursor.ne_nil_of_lt lt
  unfold enclosed at ok
  rw [Cursor.next_amid more] at ok
  obtain ⟨nesting, close, scans, plain, ⟨ch, head, answers⟩ | ⟨_, answers⟩⟩ :=
    exists_scans (encloseStep limit (c.next.amid s)) (fun _ _ => .error (.unterminated ⟨(c.amid s).peek.getD '(', (c.amid s).pos⟩))
      ⟨⟨(c.amid s).peek.getD '(', (c.amid s).pos⟩, []⟩ (c.next.amid s)
  · rw [ok] at answers
    obtain ⟨opener, closer, kind, around, rfl⟩ := encloseStep_ok_iff.mp answers
    have before : close < e.amid s := ends ▸ Cursor.lt_next head
    obtain ⟨close, rfl, after, _⟩ := Cursor.exists_amid scans.le before.le
    have within := Cursor.amid_lt_amid.mp before
    have start : Nesting.SameKinds ⟨⟨(c.amid s).peek.getD '(', (c.amid s).pos⟩, []⟩ ⟨⟨c.peek.getD '(', c.pos⟩, []⟩ := by
      rw [Cursor.peek_amid more]
      rfl
    obtain ⟨last, alone, same⟩ := scans.of_amid (encloseStep limit c.next)
      (fun _ _ _ _ _ same _ goesOn => encloseStep_sameKinds same goesOn) start
    obtain ⟨sameInnermost, sameAround⟩ := List.cons.inj same
    have closes : encloseStep limit c.next last ch close = .inl (.ok ⟨c.next.upTo close, close.next⟩) :=
      encloseStep_ok_iff.mpr ⟨opener, closer, by rw [← sameInnermost, kind], by simpa [around] using sameAround.symm, rfl⟩
    obtain ⟨rest, starts⟩ := Cursor.peek_eq_some.mp (Cursor.peek_of_amid within head)
    have last : close.next = e := by
      simp only at ends
      rwa [Cursor.next_amid (Cursor.ne_nil_of_lt within), Cursor.amid_inj] at ends
    refine ⟨c.next.upTo close, ?_, Cursor.upTo_amid after⟩
    rw [enclosed, alone.scan_eq, scan_step (literalEnd?_amid_of_none plain) starts, closes, last]
  · rw [ok] at answers
    simp at answers

theorem enclosed_amid_of_le {limit : Nat} {found : Enclosed} {ch : Char} (head : (c.amid s).peek = some ch)
    (opens : isOpener ch = true) (ok : enclosed limit (c.amid s) = .ok found) (within : found.after ≤ e.amid s) :
    ∃ inner after, c < after ∧ after ≤ e ∧ enclosed limit c = .ok ⟨inner, after⟩ ∧
      found = ⟨inner.moved s.before, after.amid s⟩ := by
  have lt := lt_of_enclosed head opens ok
  obtain ⟨after, ends, _, le⟩ := Cursor.exists_amid lt.le within
  rw [ends] at lt
  obtain ⟨inner, alone, same⟩ := enclosed_of_amid ok (Cursor.amid_lt_amid.mp lt) ends
  refine ⟨inner, after, Cursor.amid_lt_amid.mp lt, le, alone, ?_⟩
  cases found
  simp only at same ends
  rw [same, ends]

/-! ## Heads and patterns -/

/-- A place that is sought for and found in the stretch is the one that is found there alone. -/
theorem seek_of_amid {stops : Cursor → Bool} (mono : ∀ place, stops place = true → stops (place.amid s) = true)
    (found : seek stops (c.amid s) = some (d.amid s)) (more : d.rest ≠ []) (here : stops d = true) :
    seek stops c = some d := by
  rw [seek_eq, seekFrom] at found ⊢
  obtain ⟨depth, place, scans, plain, ⟨ch, head, answers⟩ | ⟨_, answers⟩⟩ :=
    exists_scans (seekStep stops) (fun _ _ => none) 0 (c.amid s)
  · rw [found] at answers
    obtain ⟨rfl, _, same⟩ := seekStep_inl answers
    obtain rfl := Option.some.inj same
    have steps : ∀ state alone ch place next, state = alone → Cursor.peek place = some ch →
        seekStep stops state ch (place.amid s) = .inr next → ∃ onward, seekStep stops alone ch place = .inr onward ∧ next = onward :=
      fun _ _ _ place _ same _ goesOn => ⟨_, same ▸ seekStep_inr (mono place) goesOn, rfl⟩
    obtain ⟨_, alone, rfl⟩ := scans.of_amid (seekStep stops) steps rfl
    rw [Cursor.peek_amid more] at head
    obtain ⟨rest, starts⟩ := Cursor.peek_eq_some.mp head
    rw [alone.scan_eq, scan_step (literalEnd?_amid_of_none plain) starts]
    simp [seekStep, here]
  · rw [found] at answers
    simp at answers

theorem headEnd_of_amid {brace : Cursor} (ends : headEnd (c.amid s) = .block (brace.amid s)) (more : brace.rest ≠ []) :
    headEnd c = .block brace := by
  unfold headEnd at ends ⊢
  split at ends
  · next place found =>
    split at ends
    · next opens =>
      obtain rfl := HeadEnd.block.inj ends
      rw [Cursor.peek_amid more] at opens
      have alone := seek_of_amid (fun place => ?_) found more (by simp [opens])
      · rw [alone]
        simp only [opens, if_true]
      · simp only [decide_eq_true_eq, List.mem_cons, List.not_mem_nil, or_false]
        rintro (head | head | head) <;> simp [Cursor.peek_amid_of_some head]
    · simp at ends
  · simp at ends

theorem atArrow_amid (here : atArrow c = true) : atArrow (c.amid s) = true := by
  obtain ⟨rest, starts⟩ := Cursor.startsWith_iff.mp here
  exact Cursor.startsWith_iff.mpr ⟨rest ++ s.after, by rw [Cursor.amid_rest, starts, List.append_assoc]⟩

theorem patternEnd_of_amid {arrow : Cursor} (ends : patternEnd (c.amid s) = .arrow (arrow.amid s))
    (here : atArrow arrow = true) : patternEnd c = .arrow arrow := by
  unfold patternEnd at ends ⊢
  split at ends
  · next place found =>
    split at ends
    · obtain rfl := PatternEnd.arrow.inj ends
      obtain ⟨rest, starts⟩ := rest_of_atArrow here
      have alone := seek_of_amid (fun place => ?_) found (by simp [starts]) (by simp [here])
      · rw [alone]
        simp only [here, if_true]
      · simp only [Bool.or_eq_true, decide_eq_true_eq]
        rintro (head | arrow)
        · exact .inl (Cursor.peek_amid_of_some head)
        · exact .inr (atArrow_amid arrow)
    · simp at ends
  · simp at ends

/-! ## Chains -/

theorem named?_eq_some_iff {link : String → Segment} {segment : Segment} :
    named? link c = some (segment, d) ↔
      c.skipIdent = d ∧ c.textTo d ≠ [] ∧ segment = link (String.ofList (c.textTo d)) := by
  unfold named?
  split
  · next empty =>
    simp only [reduceCtorEq, false_iff, not_and]
    rintro rfl nonempty
    exact absurd empty nonempty
  · next nonempty =>
    simp only [Option.some.injEq, Prod.mk.injEq]
    constructor
    · rintro ⟨rfl, rfl⟩
      exact ⟨rfl, nonempty, rfl⟩
    · rintro ⟨rfl, _, rfl⟩
      exact ⟨rfl, rfl⟩

theorem named?_eq_none_iff {link : String → Segment} : named? link c = none ↔ c.skipIdent = c := by
  have ident := Cursor.reads_textTo (Cursor.le_skipIdent c)
  unfold named?
  split
  · next empty =>
    rw [empty] at ident
    simp [← Cursor.reads_nil ident]
  · next nonempty =>
    simp only [reduceCtorEq, false_iff]
    intro stays
    exact absurd stays (Cursor.lt_of_reads ident nonempty).ne'

theorem named?_of_amid {link : String → Segment} {segment : Segment}
    (found : named? link (c.amid s) = some (segment, d.amid s)) : named? link c = some (segment, d) := by
  obtain ⟨ident, nonempty, same⟩ := named?_eq_some_iff.mp found
  have alone := Cursor.skipIdent_of_amid ident
  rw [Cursor.textTo_amid (alone ▸ Cursor.le_skipIdent c)] at nonempty same
  exact named?_eq_some_iff.mpr ⟨alone, nonempty, same⟩

theorem named?_amid_of_none {link : String → Segment} (missing : named? link (c.amid s) = none) :
    named? link c = none :=
  named?_eq_none_iff.mpr (Cursor.skipIdent_of_amid (named?_eq_none_iff.mp missing))

theorem delimited?_of_amid {link : String → Segment} {limit : Nat} {segment : Segment} (lt : c < d)
    (found : delimited? link limit (c.amid s) = .ok (some (segment, d.amid s))) :
    delimited? link limit c = .ok (some (segment, d)) := by
  unfold delimited? at found ⊢
  split at found
  · next fragment ok =>
    obtain ⟨rfl, after⟩ := Prod.mk.inj (Option.some.inj (Except.ok.inj found))
    obtain ⟨inner, alone, same⟩ := enclosed_of_amid ok lt after
    rw [alone, same]
    rfl
  · simp at found

theorem delimited?_ne_none {link : String → Segment} {limit : Nat} : delimited? link limit c ≠ .ok none := by
  unfold delimited?
  split <;> simp

/-- A link that ends in the stretch is a link of the stretch alone. -/
theorem segment?_of_amid {limit : Nat} {segment : Segment}
    (found : segment? limit (c.amid s) = .ok (some (segment, d.amid s))) : segment? limit c = .ok (some (segment, d)) := by
  have lt : c < d := Cursor.amid_lt_amid.mp (lt_of_segment? found)
  have more := Cursor.ne_nil_of_lt lt
  rw [segment?_eq, Cursor.peek_amid more, Cursor.next_amid more] at found
  rw [segment?_eq]
  split at found
  · next dot => rw [if_pos dot, named?_of_amid (Except.ok.inj found)]
  · next dot =>
    rw [if_neg dot]
    split at found
    · next path =>
      have onward := (Cursor.lt_next path.2).trans (named?_spec (Except.ok.inj found))
      have further := Cursor.ne_nil_of_lt (Cursor.amid_lt_amid.mp onward)
      rw [Cursor.peek_amid further] at path
      rw [Cursor.next_amid further] at found
      rw [if_pos path, named?_of_amid (Except.ok.inj found)]
    · next path =>
      rw [if_neg fun here => path ⟨here.1, Cursor.peek_amid_of_some here.2⟩]
      split at found
      · next borrow => rw [if_pos borrow, named?_of_amid (Except.ok.inj found)]
      · next borrow =>
        rw [if_neg borrow]
        split at found
        · next call => rw [if_pos call, delimited?_of_amid lt found]
        · next call =>
          rw [if_neg call]
          split at found
          · next index => rw [if_pos index, delimited?_of_amid lt found]
          · simp at found

/-- Where no link follows in the larger text, none follows alone. -/
theorem segment?_amid_of_none {limit : Nat} (missing : segment? limit (c.amid s) = .ok none) :
    segment? limit c = .ok none := by
  by_cases empty : c.rest = []
  · simp [segment?, empty]
  rw [segment?_eq, Cursor.peek_amid empty, Cursor.next_amid empty] at missing
  rw [segment?_eq]
  split at missing
  · next dot => rw [if_pos dot, named?_amid_of_none (Except.ok.inj missing)]
  · next dot =>
    rw [if_neg dot]
    by_cases path : c.peek = some ':' ∧ c.next.peek = some ':'
    · obtain ⟨rest, starts⟩ := Cursor.peek_eq_some.mp path.2
      have larger : c.peek = some ':' ∧ (c.next.amid s).peek = some ':' := ⟨path.1, Cursor.peek_amid_of_some path.2⟩
      rw [if_pos larger, Cursor.next_amid (by simp [starts])] at missing
      rw [if_pos path, named?_amid_of_none (Except.ok.inj missing)]
    · rw [if_neg path]
      split at missing
      · next larger =>
        have noOther : ∀ ch, ch ≠ ':' → c.peek ≠ some ch := fun ch other head => other (by simpa [head] using larger.1)
        simp [noOther]
      · split at missing
        · next borrow => rw [if_pos borrow, named?_amid_of_none (Except.ok.inj missing)]
        · next borrow =>
          rw [if_neg borrow]
          split at missing
          · exact absurd missing delimited?_ne_none
          · next call =>
            rw [if_neg call]
            split at missing
            · exact absurd missing delimited?_ne_none
            · next index => rw [if_neg index]

theorem segmentsFrom_of_amid {limit : Nat} {done segments : List Segment}
    (found : segmentsFrom limit done (c.amid s) = .ok (segments, e.amid s)) :
    segmentsFrom limit done c = .ok (segments, e) := by
  generalize from_ : c.amid s = c' at found
  fun_induction segmentsFrom limit done c' generalizing c with
  | case1 => simp at found
  | case2 done place last =>
    subst from_
    obtain ⟨rfl, here⟩ := Prod.mk.inj (Except.ok.inj found)
    rw [segmentsFrom, segment?_amid_of_none last, Cursor.amid_inj.mp here]
  | case3 done place segment after link ih =>
    subst from_
    obtain ⟨after, rfl, _, _⟩ := Cursor.exists_amid (lt_of_segment? link).le (segmentsFrom_ok found)
    have onward := ih rfl found
    rw [segmentsFrom, segment?_of_amid link]
    exact onward

/-- A chain that ends in the stretch is a chain of the stretch alone. -/
theorem chain?_of_amid {limit : Nat} {chain : Chain} (found : chain? limit (c.amid s) = .ok (some chain))
    (ends : chain.after = e.amid s) : chain? limit c = .ok (some ⟨chain.refs, chain.segments, e⟩) := by
  obtain ⟨first, after, named, links, borrows⟩ := exists_of_chain?_eq_some found
  rw [ends] at links
  have onward := segmentsFrom_ok links
  obtain ⟨name, place, le, _⟩ :=
    Cursor.exists_amid (Cursor.le_skipWhile (· == '&') (c.amid s)) ((named?_spec named).le.trans onward)
  rw [place] at named borrows
  obtain ⟨after, rfl, _, _⟩ := Cursor.exists_amid (named?_spec named).le onward
  simp only [chain?, Cursor.skipWhile_of_amid place, named?_of_amid named, segmentsFrom_of_amid links, borrows]
  simp only [Cursor.amid_pos, Except.ok.injEq, Option.some.injEq, Chain.mk.injEq, and_true]
  omega

end SigilTemplate.Code
