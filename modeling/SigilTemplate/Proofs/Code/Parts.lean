import SigilTemplate.Proofs.Bytes.Part
import SigilTemplate.Proofs.Code.TopLevel

/-!
The parts of a text between separators. Nothing of the text is lost: between a
part and the next stands one separator, and the parts joined by it are the text.
Which separators these are is told by the lexemes: those at the top level, with
angle brackets counted as well. A bracket or a quote separates nothing.
-/

namespace SigilTemplate.Code
open Text

variable {separator ch : Char} {c d e start : Cursor} {parts done : List Cursor} {depth : Nat}

/-! ## Parts one after the other -/

/-- All of a text in parts. Between a part and the next stands a separator. -/
inductive PartsOf (separator : Char) : Cursor → List Cursor → Prop
  | last (c : Cursor) : PartsOf separator c [c]
  | more {c mark : Cursor} {parts : List Cursor} (le : c ≤ mark) (head : mark.peek = some separator)
      (behind : PartsOf separator mark.next parts) : PartsOf separator c (c.upTo mark :: parts)

theorem PartsOf.exists_cons (all : PartsOf separator c parts) :
    ∃ first others, parts = first :: others ∧ first.pos = c.pos := by
  cases all with
  | last => exact ⟨c, [], rfl, rfl⟩
  | more => exact ⟨_, _, rfl, rfl⟩

/-- The parts with the separator between them are the text. -/
theorem PartsOf.intercalate_eq (all : PartsOf separator c parts) :
    [separator].intercalate (parts.map Cursor.rest) = c.rest := by
  induction all with
  | last c => simp
  | @more c mark parts le head behind ih =>
    obtain ⟨first, others, rfl, _⟩ := behind.exists_cons
    have reads := (Cursor.reads_textTo le).trans (Cursor.reads_next_of_peek head)
    rw [reads.rest_eq, ← ih, List.map_cons, List.map_cons, List.intercalate_cons_cons]
    simp [Cursor.upTo]

theorem PartsOf.getLast?_finish (all : PartsOf separator c parts) :
    parts.getLast?.map Cursor.finish = some c.finish := by
  induction all with
  | last c => rfl
  | @more c mark parts le head behind ih =>
    obtain ⟨first, others, rfl, _⟩ := behind.exists_cons
    rw [List.getLast?_cons_cons, ih, Cursor.finish_eq_of_le (le.trans (Cursor.le_next mark))]

/-- Each part begins one separator behind the one before it. -/
theorem PartsOf.isChain (all : PartsOf separator c parts) :
    parts.IsChain fun part next => next.pos = part.finish.pos + separator.utf8Size := by
  induction all with
  | last c => exact .singleton c
  | @more c mark parts le head behind ih =>
    obtain ⟨first, others, rfl, begins⟩ := behind.exists_cons
    refine .cons_cons ?_ ih
    rw [begins, Bytes.pos_finish_upTo le, (Cursor.reads_next_of_peek head).pos_eq]
    simp

/-! ## Separators -/

/-- Neither a bracket nor a quote. -/
def separates (ch : Char) : Bool := isUncounted ch && !isQuote ch

/-- A separator at the top level, where angle brackets count as brackets. -/
def SeparatorAt (separator : Char) (c place : Cursor) : Prop :=
  TopLevel countBehind c place ∧ place.peek = some separator

/-- What has been split off of a text when its reading has come to a place, in reverse, and where the next part
begins. -/
structure SplitSoFar (separator : Char) (c : Cursor) (depth : Nat) (start : Cursor) (done : List Cursor) (d : Cursor) :
    Prop where
  reached : Reached countBehind c depth d
  started : start ≤ d
  parted : ∀ parts, PartsOf separator start parts → PartsOf separator c (done.reverse ++ parts)
  sound : ∀ part ∈ done, separates separator = true ∧
    ∃ place, SeparatorAt separator c place ∧ place.pos = part.finish.pos
  complete : separates separator = true → ∀ place, SeparatorAt separator c place → place < d →
    place.pos ∈ done.map fun part => part.finish.pos

theorem literalEnd?_of_separates (separating : separates separator = true) (head : d.peek = some separator) :
    literalEnd? d = none := by
  obtain ⟨rest, starts⟩ := Cursor.peek_eq_some.mp head
  simp only [separates, Bool.and_eq_true, Bool.not_eq_true'] at separating
  exact literalEnd?_eq_none starts separating.2

theorem SplitSoFar.literal (so : SplitSoFar separator c depth start done d) (literal : literalEnd? d = some e) :
    SplitSoFar separator c depth start done e := by
  obtain ⟨onward, passed⟩ := so.reached.literal literal
  refine ⟨onward, so.started.trans (lt_of_literalEnd? literal).le, so.parted, so.sound, ?_⟩
  intro separating place here lt
  rcases (passed place here.1 lt).eq_or_lt with rfl | earlier
  · simp [literalEnd?_of_separates separating here.2] at literal
  · exact so.complete separating place here earlier

/-- A separator at the top level ends a part. -/
theorem SplitSoFar.parting (so : SplitSoFar separator c 0 start done d) (plain : literalEnd? d = none)
    (head : d.peek = some separator) (uncounted : isUncounted separator = true) (tick : separator ≠ '\x27') :
    SplitSoFar separator c 0 d.next (start.upTo d :: done) d.next := by
  obtain ⟨rest, starts⟩ := Cursor.peek_eq_some.mp head
  obtain ⟨onward, passed⟩ := so.reached.char plain head
  rw [countBehind_of_isUncounted uncounted] at onward
  have here : SeparatorAt separator c d := ⟨(so.reached.topLevel_iff (by simp [starts])).mpr rfl, head⟩
  have quote : separator ≠ '"' := by
    rintro rfl
    simp [literalEnd?_quote starts] at plain
  have separating : separates separator = true := by simp [separates, uncounted, isQuote, quote, tick]
  refine ⟨onward, le_refl _, ?_, ?_, ?_⟩
  · intro parts behind
    have all := so.parted _ (.more so.started head behind)
    simpa using all
  · refine List.forall_mem_cons.mpr ⟨⟨separating, d, here, (Bytes.pos_finish_upTo so.started).symm⟩, so.sound⟩
  · intro _ place there lt
    rw [List.map_cons, Bytes.pos_finish_upTo so.started, List.mem_cons]
    rcases (passed place there.1 lt).eq_or_lt with rfl | earlier
    · exact .inl rfl
    · exact .inr (so.complete separating place there earlier)

/-- Any other character belongs to the part that is being read. -/
theorem SplitSoFar.char (so : SplitSoFar separator c depth start done d) (plain : literalEnd? d = none)
    (head : d.peek = some ch) (kept : ¬(depth = 0 ∧ ch = separator ∧ isUncounted ch = true ∧ ch ≠ '\x27')) :
    SplitSoFar separator c (countBehind depth ch) start done d.next := by
  obtain ⟨rest, starts⟩ := Cursor.peek_eq_some.mp head
  obtain ⟨onward, passed⟩ := so.reached.char plain head
  refine ⟨onward, so.started.trans (Cursor.le_next d), so.parted, so.sound, ?_⟩
  intro separating place here lt
  rcases (passed place here.1 lt).eq_or_lt with rfl | earlier
  · obtain rfl := Option.some.inj (head.symm.trans here.2)
    have closed := (so.reached.topLevel_iff (by simp [starts])).mp here.1
    simp only [separates, Bool.and_eq_true, Bool.not_eq_true', isQuote, Bool.or_eq_false_iff,
      beq_eq_false_iff_ne] at separating
    exact absurd ⟨closed, rfl, separating.1, separating.2.2⟩ kept
  · exact so.complete separating place here earlier

/-- The parts of a text are all of it, and they end at the separators of its top level, if a character like this one
separates at all. -/
structure Divides (separator : Char) (c : Cursor) (parts : List Cursor) : Prop where
  all : PartsOf separator c parts
  ends : separates separator = true → ∀ offset, offset ∈ parts.dropLast.map (fun part => part.finish.pos) ↔
    ∃ place, SeparatorAt separator c place ∧ place.pos = offset
  whole : separates separator = false → parts = [c]

/-- At the end of the text, the part that has begun is the last one. -/
theorem SplitSoFar.divides (so : SplitSoFar separator c depth start done d) (empty : d.rest = []) :
    Divides separator c (start :: done).reverse := by
  have all := so.parted _ (.last start)
  rw [← List.reverse_cons] at all
  refine ⟨all, fun separating offset => ?_, fun other => ?_⟩
  · rw [List.reverse_cons, List.dropLast_concat, List.map_reverse, List.mem_reverse]
    constructor
    · intro member
      obtain ⟨part, among, rfl⟩ := List.mem_map.mp member
      exact (so.sound part among).2
    · rintro ⟨place, here, rfl⟩
      have lt := so.reached.lt_of_empty empty here.1 (Cursor.ne_nil_of_lt (Cursor.lt_next here.2))
      exact so.complete separating place here lt
  · -- No part has been split off, as a part ends in front of a separator that separates.
    cases done with
    | nil =>
      cases all with
      | last => rfl
      | more _ _ behind =>
        obtain ⟨_, _, same, _⟩ := behind.exists_cons
        simp at same
    | cons part done => simp [(so.sound part (by simp)).1] at other

theorem split_spec (separator : Char) (c : Cursor) : Divides separator c (split separator c) := by
  refine split_post (SplitSoFar separator c) (Divides separator c) ?literal ?parting ?kept ?last ?first
  case literal => exact fun depth start done d e so literal => so.literal literal
  case parting => exact fun start done d so plain head uncounted tick => so.parting plain head uncounted tick
  case kept => exact fun depth start done d ch so plain head other => so.char plain head other
  case last => exact fun depth start done d so empty => so.divides empty
  case first =>
    refine ⟨.start _ c, le_refl c, fun _ all => all, by simp, ?_⟩
    rintro _ place ⟨⟨_, lexes, _⟩, _⟩ lt
    exact absurd lexes.le lt.not_ge

/-! ## Nothing is lost -/

/-- Splitting a text at an ASCII character loses nothing. The parts with the separator between them are the text: the
first begins where it begins, the last ends where it ends, each other begins one byte behind the one before it, and each
is the slice of the text at its offsets. A separator that is neither a bracket nor a quote separates at the top level
outside literals, and nowhere else; any other leaves all of the text in one part. Byte by byte the parts are the same. -/
theorem split_keeps_text (narrow : separator.toNat < 0x80) (text : List Char) :
    [separator].intercalate ((split separator (.ofText text)).map Cursor.rest) = text ∧
    (split separator (.ofText text)).head?.map Cursor.pos = some 0 ∧
    (split separator (.ofText text)).getLast?.map (fun part => part.finish.pos) = some (byteLength text) ∧
    (split separator (.ofText text)).IsChain (fun part next => next.pos = part.finish.pos + 1) ∧
    (∀ part ∈ split separator (.ofText text), slice? text ⟨part.pos, part.finish.pos⟩ = some part.rest) ∧
    (separates separator = true → ∀ offset,
      offset ∈ (split separator (.ofText text)).dropLast.map (fun part => part.finish.pos) ↔
        ∃ place, SeparatorAt separator (.ofText text) place ∧ place.pos = offset) ∧
    (separates separator = false → (split separator (.ofText text)).length = 1) ∧
    Bytes.split separator text =
      .ok ((split separator (.ofText text)).map fun part => (part.pos, part.finish.pos)) := by
  obtain ⟨all, separators, none⟩ := split_spec separator (.ofText text)
  obtain ⟨first, others, same, begins⟩ := all.exists_cons
  refine ⟨all.intercalate_eq, by rw [same]; exact congrArg some begins, ?_, ?_, ?_, separators, ?_, ?_⟩
  · have ends := congrArg (Option.map Cursor.pos) all.getLast?_finish
    rw [Option.map_map] at ends
    simpa [Cursor.finish, Cursor.ofText, Function.comp_def] using ends
  · have chain := all.isChain
    rwa [Bytes.utf8Size_of_ascii narrow] at chain
  · intro part member
    obtain ⟨before, after, rest, pos⟩ := split_partOf separator member
    simp only [Cursor.ofText, Nat.zero_add] at rest pos
    rw [rest, Cursor.finish, pos]
    exact Cursor.slice?_append before part.rest after
  · intro other
    rw [none other]
    rfl
  · exact Bytes.split_eq narrow (.ofText text)

/-- The comma in the string and the one between angle brackets separate nothing; the other two do. -/
theorem split_keeps_text_sample :
    ','.toNat < 0x80 ∧
    [','].intercalate ((split ',' (.ofText "a: \", \", b: Map<é, Str>, c".toList)).map Cursor.rest) =
      "a: \", \", b: Map<é, Str>, c".toList ∧
    ∃ place, SeparatorAt ',' (.ofText "a: \", \", b: Map<é, Str>, c".toList) place ∧ place.pos = 7 := by
  have narrow : ','.toNat < 0x80 := by decide
  have keeps := split_keeps_text narrow "a: \", \", b: Map<é, Str>, c".toList
  have parts : (split ',' (.ofText "a: \", \", b: Map<é, Str>, c".toList)).dropLast.map (fun part => part.finish.pos) =
      [7, 24] := by cbv
  refine ⟨narrow, keeps.1, (keeps.2.2.2.2.2.1 rfl 7).mp ?_⟩
  rw [parts]
  decide

end SigilTemplate.Code
