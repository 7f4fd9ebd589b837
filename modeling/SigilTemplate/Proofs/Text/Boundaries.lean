import SigilTemplate.Proofs.Bytes.Place

/-!
What the boundaries of characters are mapped to. An offset is moved back to the
greatest boundary that it reaches. From boundary to boundary, lines and columns
grow in lexicographic order, and 16-bit offsets grow by the 16-bit units of the
text between; so either of them determines the boundary.
-/

namespace SigilTemplate.Text

/-- The offsets where a character of a text begins, and the one where the text ends. -/
def boundaries (source : List Char) : Set Nat := {offset | Bytes.isBoundary source offset = true}

/-- A place as people order places: by lines, and by columns on one line. -/
def Position.lineColumn (p : Position) : ℕ ×ₗ ℕ := toLex (p.line, p.column)

/-- A character in 16-bit units. One beyond the first 65536 takes two: ten high bits and ten low bits of what it has
beyond them. -/
def encodeChar16 (ch : Char) : List UInt16 :=
  if ch.toNat < 0x10000 then [UInt16.ofNat ch.toNat]
  else
    [UInt16.ofNat (0xD800 + (ch.toNat - 0x10000) / 0x400), UInt16.ofNat (0xDC00 + (ch.toNat - 0x10000) % 0x400)]

/-- A text in 16-bit units. -/
def encode16 (text : List Char) : List UInt16 := text.flatMap encodeChar16

variable {source text before more : List Char} {offset first second : Nat}

/-! ## Boundaries -/

theorem mem_boundaries_iff : offset ∈ boundaries source ↔ ∃ before, before <+: source ∧ byteLength before = offset :=
  Bytes.isBoundary_iff

/-- A boundary stands for itself. -/
theorem Clamped.of_prefix (initial : before <+: source) : Clamped source (byteLength before) before where
  initial := initial
  fits := Nat.le_refl _
  greatest := fun _ _ fits => fits

/-- Two boundaries in order have the text before the first, and what goes on from there to the second. -/
theorem exists_between (start : first ∈ boundaries source) (stop : second ∈ boundaries source) (ordered : first ≤ second) :
    ∃ before part, before ++ part <+: source ∧ byteLength before = first ∧ byteLength (before ++ part) = second := by
  obtain ⟨before, ⟨after, rfl⟩, rfl⟩ := mem_boundaries_iff.mp start
  obtain ⟨upTo, ⟨later, same⟩, rfl⟩ := mem_boundaries_iff.mp stop
  obtain ⟨part, rfl, _⟩ := Cursor.exists_append_of_byteLength_le same.symm ordered
  exact ⟨before, part, ⟨later, same⟩, rfl, rfl⟩

theorem ne_nil_of_byteLength_lt (less : byteLength before < byteLength (before ++ more)) : more ≠ [] := by
  rintro rfl
  rw [List.append_nil] at less
  exact less.false

/-! ## Lines and columns -/

theorem byte_locate (clamped : Clamped source offset before) : (Position.locate source offset).byte = byteLength before := by
  obtain ⟨earlier, front, last⟩ := exists_lastLine before
  rw [clamped.locate_eq last]

/-- An offset is moved back to the greatest boundary at or before it and the end. -/
theorem isGreatest_locate (source : List Char) (offset : Nat) :
    IsGreatest {byte ∈ boundaries source | byte ≤ min offset (byteLength source)} (Position.locate source offset).byte := by
  obtain ⟨before, clamped⟩ := exists_clamped source offset
  rw [byte_locate clamped]
  constructor
  · exact ⟨mem_boundaries_iff.mpr ⟨before, clamped.initial, rfl⟩, clamped.min_size.fits⟩
  · intro byte below
    obtain ⟨boundary, within⟩ := below
    obtain ⟨other, initial, rfl⟩ := mem_boundaries_iff.mp boundary
    exact clamped.min_size.greatest other initial within

/-- Text that is passed over leads to a later line, or further on along the line. -/
theorem lineColumn_lt (initial : before ++ more <+: source) (nonempty : more ≠ []) :
    (Position.locate source (byteLength before)).lineColumn <
      (Position.locate source (byteLength (before ++ more))).lineColumn := by
  have start := Clamped.of_prefix ((List.prefix_append before more).trans initial)
  have stop := Clamped.of_prefix initial
  obtain ⟨earlier, front, last⟩ := exists_lastLine before
  rw [start.locate_eq last]
  by_cases broken : '\n' ∈ more
  · obtain ⟨earlier', front', last'⟩ := exists_lastLine (before ++ more)
    have feeds : 0 < more.count '\n' := List.count_pos_iff.mpr broken
    rw [stop.locate_eq last', Position.lineColumn, Position.lineColumn, Prod.Lex.toLex_lt_toLex, List.count_append]
    left
    simp only
    omega
  · have later := last.append broken
    have positive := List.length_pos_iff.mpr nonempty
    rw [stop.locate_eq later, Position.lineColumn, Position.lineColumn, Prod.Lex.toLex_lt_toLex, List.count_append,
      List.count_eq_zero_of_not_mem broken, List.length_append]
    right
    simp only
    omega

/-- Lines and columns grow from boundary to boundary. -/
theorem strictMonoOn_lineColumn (source : List Char) :
    StrictMonoOn (fun offset => (Position.locate source offset).lineColumn) (boundaries source) := by
  intro first start second stop less
  obtain ⟨before, part, initial, rfl, rfl⟩ := exists_between start stop less.le
  exact lineColumn_lt initial (ne_nil_of_byteLength_lt less)

/-! ## 16-bit offsets -/

theorem length_encodeChar16 (ch : Char) : (encodeChar16 ch).length = unitsOf ch := by
  unfold encodeChar16 unitsOf
  split <;> rfl

theorem length_encode16_cons (ch : Char) (text : List Char) :
    (encode16 (ch :: text)).length = unitsOf ch + (encode16 text).length := by
  rw [encode16, List.flatMap_cons, List.length_append, length_encodeChar16, encode16]

theorem encode16_append (a b : List Char) : encode16 (a ++ b) = encode16 a ++ encode16 b := by
  simp [encode16]

/-- The units are counted as they are written. -/
theorem units_eq_length (text : List Char) : units text = (encode16 text).length := by
  have counted (total : Nat) : text.foldl (fun total ch => total + unitsOf ch) total = total + (encode16 text).length := by
    induction text generalizing total with
    | nil => rfl
    | cons ch text ih =>
      rw [List.foldl_cons, ih, length_encode16_cons, Nat.add_assoc]
  rw [units, counted, Nat.zero_add]

/-- A character beyond the first 65536 takes a high and a low surrogate. -/
example : encode16 "é👋".toList = [0xE9, 0xD83D, 0xDC4B] := by decide

/-- A character takes at least one unit, and no more units than bytes. -/
theorem unitsOf_bounds (ch : Char) : 0 < unitsOf ch ∧ unitsOf ch ≤ ch.utf8Size := by
  have positive := ch.utf8Size_pos
  unfold unitsOf
  split
  · exact ⟨Nat.one_pos, positive⟩
  · next beyond =>
    have four : ch.utf8Size = 4 := Char.utf8Size_eq_four_iff.mpr (UInt32.lt_iff_toNat_lt.mpr (Nat.not_lt.mp beyond))
    rw [four]
    exact ⟨by decide, by decide⟩

theorem length_encode16_le (text : List Char) : (encode16 text).length ≤ byteLength text := by
  induction text with
  | nil => exact Nat.le_refl _
  | cons ch text ih =>
    have fits := (unitsOf_bounds ch).2
    rw [length_encode16_cons, byteLength_cons]
    omega

theorem length_encode16_pos (nonempty : text ≠ []) : 0 < (encode16 text).length := by
  obtain ⟨ch, rest, rfl⟩ := List.exists_cons_of_ne_nil nonempty
  have positive := (unitsOf_bounds ch).1
  rw [length_encode16_cons]
  omega

/-- A boundary is mapped to the units before it. -/
theorem unitOffset?_eq (initial : before <+: source) :
    unitOffset? source (byteLength before) = some (encode16 before).length := by
  have within := byteLength_le_of_prefix initial
  obtain ⟨after, rfl⟩ := initial
  have part := Cursor.slice?_append [] before after
  rw [List.nil_append, byteLength_nil, Nat.zero_add] at part
  rw [unitOffset?, Nat.min_eq_left within, part, Option.map_some, units_eq_length]

/-- Positions are faithful. Every offset has a place, which is that of the greatest boundary at or before it; lines and
columns grow from boundary to boundary, so they determine it; and 16-bit offsets grow by the units of the text between
two boundaries and never run ahead of the bytes. -/
theorem positions_faithful (source : List Char) :
    (∀ offset, Bytes.locate source offset = .ok (Position.locate source offset) ∧
      IsGreatest {byte ∈ boundaries source | byte ≤ min offset (byteLength source)} (Position.locate source offset).byte) ∧
    StrictMonoOn (fun offset => (Position.locate source offset).lineColumn) (boundaries source) ∧
    Set.InjOn (fun offset => ((Position.locate source offset).line, (Position.locate source offset).column))
      (boundaries source) ∧
    ∀ first ∈ boundaries source, ∀ second ∈ boundaries source, first ≤ second →
      ∃ part start stop, slice? source ⟨first, second⟩ = some part ∧ unitOffset? source first = some start ∧
        unitOffset? source second = some stop ∧ stop = start + (encode16 part).length ∧
        (first < second → start < stop) ∧ start ≤ first ∧ stop ≤ second := by
  refine ⟨fun offset => ⟨Bytes.locate_eq source offset, isGreatest_locate source offset⟩, strictMonoOn_lineColumn source,
    ?_, ?_⟩
  · intro first start second stop same
    exact (strictMonoOn_lineColumn source).injOn start stop same
  · intro first start second stop ordered
    obtain ⟨before, part, initial, rfl, rfl⟩ := exists_between start stop ordered
    refine ⟨part, _, _, ?_, unitOffset?_eq ((List.prefix_append before part).trans initial), unitOffset?_eq initial, ?_, ?_,
      length_encode16_le before, length_encode16_le _⟩
    · obtain ⟨later, rfl⟩ := initial
      rw [byteLength_append, List.append_assoc]
      exact Cursor.slice?_append before part later
    · rw [encode16_append, List.length_append]
    · intro less
      have positive := length_encode16_pos (ne_nil_of_byteLength_lt less)
      rw [encode16_append, List.length_append]
      omega

/-- Characters of one, two and four bytes with a line feed between them, and an offset far behind the end. -/
theorem positions_faithful_sample :
    ∃ source, source = "é\n👋x".toList ∧ 2 ∈ boundaries source ∧ 7 ∈ boundaries source ∧
      IsGreatest {byte ∈ boundaries source | byte ≤ min 18446744073709551615 (byteLength source)}
        (Position.locate source 18446744073709551615).byte ∧
      (Position.locate source 2).lineColumn < (Position.locate source 7).lineColumn ∧
      ∃ part start stop, slice? source ⟨2, 7⟩ = some part ∧ unitOffset? source 2 = some start ∧
        unitOffset? source 7 = some stop ∧ stop = start + (encode16 part).length ∧ start < stop ∧ start ≤ 2 ∧ stop ≤ 7 := by
  have first : 2 ∈ boundaries "é\n👋x".toList := by
    change Bytes.isBoundary _ _ = true
    decide
  have second : 7 ∈ boundaries "é\n👋x".toList := by
    change Bytes.isBoundary _ _ = true
    decide
  obtain ⟨places, grows, _, offsets⟩ := positions_faithful "é\n👋x".toList
  obtain ⟨part, start, stop, slice, before, upTo, sum, less, fits, within⟩ := offsets 2 first 7 second (by decide)
  exact ⟨_, rfl, first, second, (places _).2, grows first second (by decide), part, start, stop, slice, before, upTo, sum,
    less (by decide), fits, within⟩

end SigilTemplate.Text
