import SigilTemplate.Code.TopLevel
import SigilTemplate.Proofs.Alone.Code
import SigilTemplate.Proofs.Reading.Attempt
import SigilTemplate.Proofs.Tree.Offsets

/-!
Arguments further on in a text. Entries, values and fragments of a part that has
been moved by so many bytes are those of the part with their offsets moved.
-/

namespace SigilTemplate
open Text

variable {bytes : Nat}

namespace Cursor

variable {s : Surroundings} {c d : Cursor}

@[simp]
theorem moved_rest (bytes : Nat) (c : Cursor) : (c.moved bytes).rest = c.rest := rfl

@[simp]
theorem moved_pos (bytes : Nat) (c : Cursor) : (c.moved bytes).pos = bytes + c.pos := rfl

theorem next_moved (bytes : Nat) (c : Cursor) : (c.moved bytes).next = c.next.moved bytes := by
  cases starts : c.rest with
  | nil => simp [next, starts]
  | cons ch rest => simp [next, starts, moved, Nat.add_assoc]

theorem skipWhile_moved (bytes : Nat) (p : Char → Bool) (c : Cursor) :
    (c.moved bytes).skipWhile p = (c.skipWhile p).moved bytes := by
  obtain ⟨text, reads, all, stops⟩ := skipWhile_eq_iff.mp (rfl : c.skipWhile p = c.skipWhile p)
  refine skipWhile_eq_iff.mpr ⟨text, ?_, all, stops⟩
  rw [moved_eq_amid, moved_eq_amid]
  exact reads_amid_iff.mpr reads

theorem upTo_moved (bytes : Nat) (c d : Cursor) : (c.moved bytes).upTo (d.moved bytes) = (c.upTo d).moved bytes := by
  simp [upTo, textTo, moved, Nat.add_sub_add_left]

end Cursor

/-! ## Fragments -/

namespace Fragment

variable {s : Surroundings} {c d : Cursor}

theorem ofChars_add (bytes start : Nat) (text : List Char) :
    ofChars (bytes + start) text = (ofChars start text).mapOffsets (bytes + ·) := by
  simp [ofChars, mapOffsets, Span.mapOffsets, Nat.add_assoc]

theorem between_amid (le : c ≤ d) : between (c.amid s) (d.amid s) = (between c d).mapOffsets (s.before + ·) := by
  rw [between, Cursor.textTo_amid le]
  exact ofChars_add s.before c.pos _

theorem trimmed_moved (bytes : Nat) (part : Cursor) : trimmed (part.moved bytes) = (trimmed part).mapOffsets (bytes + ·) := by
  rw [trimmed, Cursor.skipBlank, Cursor.skipWhile_moved]
  exact ofChars_add bytes _ _

@[simp]
theorem isEmpty_mapOffsets (f : Nat → Nat) (fragment : Fragment) : (fragment.mapOffsets f).isEmpty = fragment.isEmpty := rfl

@[simp]
theorem text_mapOffsets (f : Nat → Nat) (fragment : Fragment) : (fragment.mapOffsets f).text = fragment.text := rfl

/-- What stands between quotes has its end before the closing one. -/
theorem unquoted_mapOffsets {fragment : Fragment} {quote : Char} (bytes : Nat)
    (quoted : isQuotedBy quote fragment.text.toList = true)
    (stop : fragment.span.stop = fragment.span.start + byteLength fragment.text.toList) :
    (fragment.mapOffsets (bytes + ·)).unquoted = fragment.unquoted.mapOffsets (bytes + ·) := by
  have length := congrArg byteLength (eq_of_isQuotedBy quoted)
  have positive := quote.utf8Size_pos
  simp only [byteLength_cons] at length
  simp only [unquoted, mapOffsets, Span.mapOffsets, mk.injEq, Span.mk.injEq, true_and]
  omega

end Fragment

/-! ## Entries -/

theorem literalEnd?_moved (bytes : Nat) (c : Cursor) :
    Code.literalEnd? (c.moved bytes) = (Code.literalEnd? c).map (Cursor.moved bytes) := by
  rw [Cursor.moved_eq_amid]
  cases literal : Code.literalEnd? (c.amid ⟨bytes, []⟩) with
  | none => rw [Code.literalEnd?_amid_of_none literal, Option.map_none]
  | some after =>
    have le := (Code.lt_of_literalEnd? literal).le
    have whole : after.finish = c.finish.amid ⟨bytes, []⟩ := by
      simp [Cursor.finish, Cursor.pos_add_rest le, Cursor.amid, Nat.add_assoc]
    obtain ⟨place, rfl, _, _⟩ := Cursor.exists_amid le (whole ▸ Cursor.le_finish after)
    rw [Code.literalEnd?_of_amid literal, Option.map_some, Cursor.moved_eq_amid]

/-- A scan that does further on what it does here, with its states and answers moved along. -/
theorem scan_moved {σ ρ : Type} {step : σ → Char → Cursor → ρ ⊕ σ} {finish : σ → Cursor → ρ} (move : σ → σ) (shift : ρ → ρ)
    (steps : ∀ state ch c, step (move state) ch (c.moved bytes) = (step state ch c).map shift move)
    (ends : ∀ state c, finish (move state) (c.moved bytes) = shift (finish state c)) (state : σ) (c : Cursor) :
    Code.scan step finish (move state) (c.moved bytes) = shift (Code.scan step finish state c) := by
  fun_induction Code.scan step finish state c with
  | case1 state c after literal ih =>
    have moved : Code.literalEnd? (c.moved bytes) = some (after.moved bytes) := by rw [literalEnd?_moved, literal]; rfl
    rw [Code.scan_literal moved, ih]
  | case2 state c literal empty =>
    have moved : (c.moved bytes).rest = [] := empty
    rw [Code.scan_end moved, ends]
  | case3 state c literal ch rest starts answer answers =>
    have moved : Code.literalEnd? (c.moved bytes) = none := by rw [literalEnd?_moved, literal]; rfl
    have head : (c.moved bytes).rest = ch :: rest := starts
    rw [Code.scan_step moved head, steps, answers]
    rfl
  | case4 state c literal ch rest starts next goesOn ih =>
    have moved : Code.literalEnd? (c.moved bytes) = none := by rw [literalEnd?_moved, literal]; rfl
    have head : (c.moved bytes).rest = ch :: rest := starts
    rw [Code.scan_step moved head, steps, goesOn, ← ih, Cursor.next_moved]
    rfl

theorem split_moved (bytes : Nat) (separator : Char) (c : Cursor) :
    Code.split separator (c.moved bytes) = (Code.split separator c).map (Cursor.moved bytes) := by
  let move (state : Nat × Cursor × List Cursor) : Nat × Cursor × List Cursor :=
    (state.1, state.2.1.moved bytes, state.2.2.map (Cursor.moved bytes))
  refine scan_moved move (List.map (Cursor.moved bytes)) ?_ ?_ (0, c, []) c
  · rintro ⟨depth, start, parts⟩ ch place
    simp only
    split
    · rfl
    · split
      · rfl
      · split
        · simp [move, Cursor.next_moved, Cursor.upTo_moved]
        · rfl
  · rintro ⟨depth, start, parts⟩ place
    simp [move]

theorem singleColon?_go_moved (afterColon : Bool) (bytes pos : Nat) (text : List Char) :
    singleColon?.go afterColon (bytes + pos) text = (singleColon?.go afterColon pos text).map (Cursor.moved bytes) := by
  induction text generalizing afterColon pos with
  | nil => rfl
  | cons ch rest ih =>
    simp only [singleColon?.go, Nat.add_assoc]
    split
    · rfl
    · exact ih _ _

theorem singleColon?_moved (bytes : Nat) (part : Cursor) :
    singleColon? (part.moved bytes) = (singleColon? part).map (Cursor.moved bytes) :=
  singleColon?_go_moved false bytes part.pos part.rest

/-- The two fragments of an entry, with other offsets. -/
def mapEntryOffsets (f : Nat → Nat) (entry : Fragment × Fragment) : Fragment × Fragment :=
  (entry.1.mapOffsets f, entry.2.mapOffsets f)

theorem namedEntry?_moved (bytes : Nat) (entry : Cursor) :
    namedEntry? (entry.moved bytes) = ( namedEntry? entry).map (mapEntryOffsets (bytes + ·)) := by
  simp only [ namedEntry?, singleColon?_moved]
  cases singleColon? entry with
  | none => rfl
  | some colon =>
    simp only [Option.map_some, Option.bind_eq_bind, Option.bind_some, Cursor.upTo_moved, Cursor.next_moved,
      Fragment.trimmed_moved, Fragment.isEmpty_mapOffsets, Fragment.text_mapOffsets]
    rw [apply_ite (Option.map _)]
    rfl

theorem mapM_map {α β γ δ : Type} {f : α → Option β} {g : γ → Option δ} {move : α → γ} {shift : β → δ}
    (each : ∀ a, g (move a) = (f a).map shift) (list : List α) :
    (list.map move).mapM g = (list.mapM f).map (List.map shift) := by
  induction list with
  | nil => rfl
  | cons a rest ih =>
    simp only [List.map_cons, List.mapM_cons, each, ih]
    cases f a with
    | none => rfl
    | some b => cases rest.mapM f <;> rfl

theorem namedEntries?_moved (bytes : Nat) (part : Cursor) :
    namedEntries? (part.moved bytes) = (namedEntries? part).map (List.map (mapEntryOffsets (bytes + ·))) := by
  rw [namedEntries?, split_moved, List.filter_map]
  exact mapM_map (namedEntry?_moved bytes) _

/-! ## Values -/

theorem codeValue_mapOffsets {value : Fragment} {part : Cursor} (bytes : Nat) (within : value.Within part) :
    codeValue (value.mapOffsets (bytes + ·)) = (codeValue value).mapOffsets (bytes + ·) := by
  simp only [codeValue, Fragment.text_mapOffsets, apply_ite (ArgumentValue.mapOffsets (bytes + ·))]
  refine ite_congr rfl (fun _ => rfl) fun _ => ite_congr rfl (fun _ => rfl) fun _ =>
    ite_congr rfl (fun _ => rfl) fun _ => ite_congr rfl (fun quoted => ?_) fun _ => rfl
  simp only [Bool.and_eq_true] at quoted
  rw [Fragment.unquoted_mapOffsets bytes quoted.1 within.stop_eq]
  rfl

theorem cover_mapOffsets (bytes : Nat) (first second : Span) :
    (first.mapOffsets (bytes + ·)).cover (second.mapOffsets (bytes + ·)) = (first.cover second).mapOffsets (bytes + ·) := by
  simp only [Span.cover, Span.mapOffsets, Nat.add_min_add_left, Nat.add_max_add_left]

theorem callArguments?_moved (bytes : Nat) (part : Cursor) :
    callArguments? (part.moved bytes) = (callArguments? part).map (List.map (Argument.mapOffsets (bytes + ·))) := by
  unfold callArguments?
  rw [namedEntries?_moved]
  cases found : namedEntries? part with
  | none => rfl
  | some entries =>
    have within := namedEntries?_within found
    simp only [Option.map_some, Option.bind_eq_bind, Option.bind_some, Option.pure_def, List.map_map, Option.some.injEq]
    refine List.map_congr_left fun entry among => ?_
    obtain ⟨name, value⟩ := entry
    simp only [Function.comp_apply, mapEntryOffsets, Argument.mapOffsets]
    rw [codeValue_mapOffsets bytes (within _ among).2]
    congr 1
    exact cover_mapOffsets bytes _ _

theorem sectionValue?_moved (bytes : Nat) (part : Cursor) :
    sectionValue? (part.moved bytes) = (sectionValue? part).map (Directive.mapOffsets (bytes + ·)) := by
  unfold sectionValue?
  rw [split_moved]
  rcases Code.split ',' part with _ | ⟨first, _ | ⟨second, _ | ⟨third, more⟩⟩⟩
  · rfl
  · rfl
  · simp only [List.map_cons, List.map_nil, Fragment.trimmed_moved, Fragment.isEmpty_mapOffsets,
      Fragment.text_mapOffsets]
    rw [apply_ite (Option.map _)]
    refine ite_congr rfl (fun quoted => ?_) fun _ => rfl
    simp only [Bool.and_eq_true, Bool.or_eq_true] at quoted
    have stop := (Fragment.trimmed_within first).stop_eq
    have name : ((Fragment.trimmed first).mapOffsets (bytes + ·)).unquoted =
        (Fragment.trimmed first).unquoted.mapOffsets (bytes + ·) := by
      rcases quoted.1 with quoted | quoted <;> exact Fragment.unquoted_mapOffsets bytes quoted stop
    rw [name]
    rfl
  · rfl

end SigilTemplate
