import SigilTemplate.Proofs.Reading.Deepening

/-!
Templates under different limits. Without its header a template starts with a
parenthesis in code, so that a header which nests too deeply ends the reading
as well. The limit of a reading that ends otherwise and cuts no helper has then
no bearing on what is read.
-/

namespace SigilTemplate
open Text

section

variable {source : List Char} {context : Context} {low high : Nat}

/-! ## Headers -/

theorem ne_angle_of_isBlank {ch : Char} (blank : isBlank ch = true) : ch ≠ '<' := by
  rintro rfl
  revert blank
  decide

/-- A run outside all braces goes over what is neither a sigil nor an angle bracket. -/
theorem textRunFrom_plain {rest : List Char} (stops : textUnit? .free {} rest = none) {plain : List Char}
    (free : ∀ ch ∈ plain, ch ≠ '@' ∧ ch ≠ '<') (content : List Char) (pos : Nat) :
    textRunFrom .free {} content pos (plain ++ rest) =
      ⟨content.reverse ++ plain, {}, ⟨pos + byteLength plain, rest⟩⟩ := by
  induction plain generalizing content pos with
  | nil =>
    rw [List.nil_append, textRunFrom]
    split
    · simp
    · next found => simp [stops] at found
  | cons ch plain ih =>
    obtain ⟨noSigil, noTag⟩ := free ch (by simp)
    have unit : textUnit? .free {} (ch :: (plain ++ rest)) = some ⟨[ch], {}, plain ++ rest⟩ := by
      simp [textUnit?, noSigil, noTag, plainState?]
    rw [List.cons_append, textRunFrom]
    split
    · next none => simp [unit] at none
    · next other found =>
      obtain rfl := Option.some.inj (unit.symm.trans found)
      rw [ih fun other among => free other (List.mem_cons_of_mem _ among)]
      simp [escape_singleton noSigil, Nat.add_assoc]

/-- White space outside all braces is one run, up to what is no text. -/
theorem textRun_of_blank {c : Cursor} (stops : textUnit? .free {} c.skipBlank.rest = none) :
    textRun .free {} c = ⟨c.rest.takeWhile isBlank, {}, c.skipBlank⟩ := by
  have reads : c.Reads (c.rest.takeWhile isBlank) c.skipBlank := Cursor.reads_skipWhile isBlank c
  have free : ∀ ch ∈ c.rest.takeWhile isBlank, ch ≠ '@' ∧ ch ≠ '<' := by
    intro ch among
    have blank := List.all_eq_true.mp List.all_takeWhile ch among
    exact ⟨ne_sigil_of_isBlank blank, ne_angle_of_isBlank blank⟩
  have run := textRunFrom_plain stops free [] c.pos
  rw [← reads.rest_eq, ← reads.pos_eq] at run
  exact run

/-- A round over a region at a parenthesis in code that nests too deeply. -/
theorem regionStep_exhausted {room pos : Nat} {state : RegionState} (sigil : state.place.atSigil = true)
    (paren : state.place.next.peek = some '(') (deep : Code.enclosed room state.place.next = .error (.tooDeep pos)) :
    regionStep (.ofRoom room) context .topLevel state = .fail (tooDeep context pos) := by
  have head := Cursor.peek_of_atSigil sigil
  have opens : state.place.atTagOpen = false := by simp [Cursor.atTagOpen, head]
  have closes : state.place.atTagClose = false := by simp [Cursor.atTagClose, head]
  have refused : readSigil (.ofRoom room) context state.place = .fail (tooDeep context pos) := by
    simp [readSigil, paren, readParenExpression, readEnclosed, Below.room_ofRoom, deep, refusedFragment]
  simp only [regionStep, head, endAt?, RegionKind.mode, closes, readItem, opens, sigil, refused]
  rfl

/-- A round over white space at the start of a region reads it as text. -/
theorem regionStep_of_blank {below : Below} {c : Cursor} (blank : c.pos < c.skipBlank.pos)
    (stops : textUnit? .free {} c.skipBlank.rest = none) :
    let text : Node := ⟨.text (String.ofList (c.rest.takeWhile isBlank)), c.spanTo c.skipBlank⟩
    regionStep below context .topLevel ⟨[], {}, c⟩ = ⟨[], .ok (.inl ⟨[text], {}, c.skipBlank⟩)⟩ := by
  obtain ⟨ch, head, white⟩ : ∃ ch, c.peek = some ch ∧ isBlank ch = true := by
    cases starts : c.rest with
    | nil => simp [Cursor.skipBlank, Cursor.skipWhile, starts, Cursor.skipWhile.go] at blank
    | cons ch rest =>
      refine ⟨ch, Cursor.peek_eq_some.mpr ⟨rest, starts⟩, ?_⟩
      by_contra solid
      simp [Cursor.skipBlank, Cursor.skipWhile, starts, Cursor.skipWhile.go, solid] at blank
  have noSigil := ne_sigil_of_isBlank white
  have noTag := ne_angle_of_isBlank white
  have opens : c.atTagOpen = false := by simp [Cursor.atTagOpen, head, noTag]
  have closes : c.atTagClose = false := by simp [Cursor.atTagClose, head, noTag]
  have sigil : c.atSigil = false := by simp [Cursor.atSigil, head, noSigil]
  simp only [regionStep, head, endAt?, RegionKind.mode, closes, readItem, opens, sigil, textRun_of_blank stops]
  rfl

/-- A parenthesis after the first sigil of a template that nests too deeply ends the reading, if it is no header. -/
theorem readRegion_exhausted {c sigil : Cursor} {room pos : Nat} (size : context.size = byteLength source)
    (place : Cursor.ofText source ≤ c) (here : c.skipBlank.eat? '@' = some sigil) (paren : sigil.peek = some '(')
    (deep : Code.enclosed room sigil = .error (.tooDeep pos)) :
    ((Level.withRoom room).region context .topLevel c).Exhausted := by
  obtain ⟨head, rfl⟩ : c.skipBlank.peek = some '@' ∧ c.skipBlank.next = sigil := by
    simpa [Cursor.eat?] using here
  have starts : c.skipBlank.atSigil = true := by
    obtain ⟨rest, at_⟩ := Cursor.peek_eq_some.mp head
    obtain ⟨tail, next⟩ := Cursor.peek_eq_some.mp paren
    obtain rfl : rest = '(' :: tail := by simpa [Cursor.next, at_] using next
    simp [Cursor.atSigil, Cursor.atEscape, Cursor.startsWith, head, at_, List.isPrefixOf]
  have stops : textUnit? .free {} c.skipBlank.rest = none :=
    textUnit?_eq_none_iff.mpr (.inr (.inl (.inr (.inr starts))))
  have ends (nodes : List Node) :
      regionStep (.ofRoom room) context .topLevel ⟨nodes, {}, c.skipBlank⟩ = .fail (tooDeep context pos) :=
    regionStep_exhausted starts paren deep
  have onward : ReadsOnward source room context c := readsOnward room size place
  have runs := onward.region_runs .topLevel
  by_cases blank : c.pos < c.skipBlank.pos
  · rw [← (runs _).mp (.next (regionStep_of_blank blank stops) (.fault (ends _)))]
    exact ⟨_, _, rfl, rfl⟩
  · have same : c.skipBlank = c := by
      rcases (Cursor.le_skipBlank c).lt_or_eq with lt | same
      · exact absurd (Cursor.pos_lt lt) blank
      · exact same.symm
    rw [same] at ends
    rw [← (runs _).mp (.fault (ends []))]
    exact ⟨_, _, rfl, rfl⟩

/-- The header is the same under a higher limit, unless it nests too deeply for the lower one. -/
theorem readHeader?_deepens (le : low ≤ high) (c : Cursor) :
    readHeader? low c = readHeader? high c ∨
      readHeader? low c = none ∧ ∃ sigil pos, c.skipBlank.eat? '@' = some sigil ∧ sigil.peek = some '(' ∧
        Code.enclosed low sigil = .error (.tooDeep pos) := by
  simp only [readHeader?, Option.bind_eq_bind]
  cases here : c.skipBlank.eat? '@' with
  | none =>
    left
    rw [Option.bind_none, Option.bind_none]
  | some sigil =>
    rw [Option.bind_some, Option.bind_some]
    by_cases paren : sigil.peek = some '('
    · rcases Code.enclosed_deepens le sigil with ⟨pos, deep⟩ | same
      · exact .inr ⟨by simp [deep], sigil, pos, rfl, paren, deep⟩
      · exact .inl (by rw [same])
    · left
      rw [if_pos paren, if_pos paren]

end

/-! ## Templates -/

/-- A template that is read from the place after the same header. -/
theorem Tree.region_deepens {low high : Nat} (le : low ≤ high) (header : Bool) (source : List Char) {c : Cursor}
    (place : Cursor.ofText source ≤ c) (leading : List Node) :
    ((Level.withRoom low).region (.outermost ⟨low, header⟩ source) .topLevel c >>= fun region =>
        pure (⟨leading ++ region.nodes, source, (contentCursor source).pos⟩ : Tree)).Deepens source
      ((Level.withRoom high).region (.outermost ⟨high, header⟩ source) .topLevel c >>= fun region =>
        pure ⟨leading ++ region.nodes, source, (contentCursor source).pos⟩) := by
  have levels : (Level.withRoom low).Deepens source high (.withRoom high) := by
    rw [Level.withRoom_eq, Level.withRoom_eq]
    exact (Below.ofRoom_deepens source high le).above (Below.ofRoom_sound source low)
  exact .bind (levels.region (.outermost ⟨low, header⟩ source) .topLevel c rfl place)
    ((Level.withRoom_sound source low).region _ .topLevel c rfl place) fun _ _ => .refl _

/-- Reading a template is reading its header, if it has one, and then its region. -/
theorem Tree.trace_eq (options : ReadOptions) (source : List Char) :
    let read := (if options.header then readHeader? options.maxDepth (contentCursor source) else none).getD
      ([], contentCursor source)
    Tree.trace options source =
      (Level.withRoom options.maxDepth).region (.outermost options source) .topLevel read.2 >>= fun region =>
        pure ⟨read.1 ++ region.nodes, source, (contentCursor source).pos⟩ :=
  rfl

/-- With more depth a template is read as before, unless that ended for want of depth or has cut a helper. -/
theorem Tree.trace_deepens {low high : Nat} (le : low ≤ high) (header : Bool) (source : List Char) :
    (Tree.trace ⟨low, header⟩ source).Deepens source (Tree.trace ⟨high, header⟩ source) := by
  have start := ofText_le_contentCursor source
  have after := leading_getD ⟨low, header⟩ (contentCursor source)
  have place := start.trans (after.grown start).1
  rw [Tree.trace_eq, Tree.trace_eq]
  cases header with
  | false => exact Tree.region_deepens le false source place _
  | true =>
    simp only [if_true] at place ⊢
    rcases readHeader?_deepens le (contentCursor source) with same | ⟨none, sigil, pos, here, paren, deep⟩
    · rw [← same]
      exact Tree.region_deepens le true source place _
    · rw [none]
      have size : (Context.outermost ⟨low, true⟩ source).size = byteLength source := rfl
      exact .inl (readRegion_exhausted size start here paren deep).bind

/-- The limit on depth has no bearing on a template that is read without reaching it: what is read under one limit,
the recoveries on the way included, is read under every higher one, unless the reading ended for want of depth, or
took a helper for malformed whose parameters nest too deeply. -/
theorem Tree.trace_eq_of_le {low high : Nat} {header : Bool} {source : List Char} (le : low ≤ high)
    (shallow : ∀ fault, Tree.read ⟨low, header⟩ source = .error fault → ∀ limit, fault.cause ≠ .recursionLimit limit)
    (uncut : ∀ recovery ∈ (Tree.trace ⟨low, header⟩ source).recoveries, ¬CutFunction source recovery) :
    Tree.trace ⟨high, header⟩ source = Tree.trace ⟨low, header⟩ source := by
  rcases Tree.trace_deepens le header source with ⟨fault, limit, ends, cause⟩ | ⟨recovery, among, cut⟩ | same
  · exact absurd cause (shallow fault ends limit)
  · exact absurd cut (uncut recovery among)
  · exact same.symm

/-- A cut helper is one of the malformed directives. -/
theorem CutFunction.kind_eq {source : List Char} {recovery : Recovery} (cut : CutFunction source recovery) :
    recovery.kind = .malformedDirective := by
  cases cut
  rfl

set_option maxRecDepth 4000 in
theorem Tree.trace_eq_of_le_sample :
    (Tree.read ⟨8, true⟩ sampleTemplate).isOk = true ∧
      Tree.trace {} sampleTemplate = Tree.trace ⟨8, true⟩ sampleTemplate := by
  have ok : (Tree.read ⟨8, true⟩ sampleTemplate).isOk = true := by decide +kernel
  have other : ∀ recovery ∈ (Tree.trace ⟨8, true⟩ sampleTemplate).recoveries, recovery.kind ≠ .malformedDirective := by
    decide +kernel
  refine ⟨ok, Tree.trace_eq_of_le (by decide) ?_ fun recovery among cut => other recovery among cut.kind_eq⟩
  intro fault read
  simp [read, Except.isOk, Except.toBool] at ok

/-- A helper with parentheses in its parameters: at a depth of one they are too deep for it to be one. -/
def nestedParameters : List Char := "@fn f((x)) { y }".toList

/-- The tree of a template can depend on the depth, although both readings give one. -/
theorem Tree.read_ne_of_le :
    ¬∀ low high header source, low ≤ high →
      (∀ fault, Tree.read ⟨low, header⟩ source = .error fault → ∀ limit, fault.cause ≠ .recursionLimit limit) →
      Tree.read ⟨high, header⟩ source = Tree.read ⟨low, header⟩ source := by
  intro same
  have two : (Tree.read ⟨1, true⟩ nestedParameters).toOption.map (·.nodes.length) = some 2 := by decide +kernel
  have one : (Tree.read ⟨2, true⟩ nestedParameters).toOption.map (·.nodes.length) = some 1 := by decide +kernel
  rw [same 1 2 true nestedParameters (by decide), two] at one
  · simp at one
  · intro fault read
    simp [read, Except.toOption] at two

end SigilTemplate
