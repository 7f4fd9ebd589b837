import SigilTemplate.Proofs.Bytes.Part
import SigilTemplate.Proofs.Reading.Attempt

/-!
Arguments, byte by byte: strings between quotes, and entries around a colon
with their names and values. All texts are cut out of the source, and quotes
are taken off by offsets.
-/

namespace SigilTemplate.Bytes
open Text

section

variable {α β : Type}

/-- Where no item is a breach, going over all of them is none. -/
theorem mapM_eq {f : α → Checked β} {g : α → β} {items : List α} (each : ∀ item ∈ items, f item = .ok (g item)) :
    items.mapM f = .ok (items.map g) := by
  induction items with
  | nil => rfl
  | cons item items ih =>
    obtain ⟨first, others⟩ := List.forall_mem_cons.mp each
    rw [List.mapM_cons, first, ok_bind, ih others]
    rfl

end

variable {source : List Char}

/-- The fragment between two places, cut out of the source. -/
def between (source : List Char) (c d : Cursor) : Checked Fragment := do
  let text ← piece source c.pos d.pos
  pure ⟨String.ofList text, c.spanTo d⟩

theorem between_eq {c d : Cursor} (place : Cursor.ofText source ≤ c) (le : c ≤ d) :
    between source c d = .ok (.between c d) := by
  rw [between, piece_eq place le, ok_bind, Cursor.spanTo, (Cursor.reads_textTo le).pos_eq]
  rfl

/-- A string between quotes, and the place after it. -/
def stringLiteral (source : List Char) (c : Cursor) : Checked (Except Cursor (Fragment × Cursor)) :=
  match c.peek with
  | some quote =>
    if quote = '"' ∨ quote = '\x27' then do
      match ← findQuote quote (encode source) (c.pos + 1) with
      | some close =>
        let text ← piece source (c.pos + 1) close
        let after ← moveTo source (close + 1)
        pure (.ok (⟨String.ofList text, ⟨c.pos + 1, close⟩⟩, after))
      | none => pure (.error c)
    else pure (.error c)
  | none => pure (.error c)

theorem stringLiteral_eq {c : Cursor} (place : Cursor.ofText source ≤ c) :
    stringLiteral source c = .ok (SigilTemplate.stringLiteral c) := by
  unfold stringLiteral SigilTemplate.stringLiteral
  cases starts : c.rest with
  | nil =>
    have head : c.peek = none := Cursor.peek_eq_none.mpr starts
    rw [head]
    rfl
  | cons quote rest =>
    have head : c.peek = some quote := Cursor.peek_eq_some.mpr ⟨rest, starts⟩
    rw [head]
    simp only
    by_cases quotes : quote = '"' ∨ quote = '\x27'
    · rw [if_pos quotes, if_pos quotes]
      have narrow : quote.toNat < 0x80 := by rcases quotes with rfl | rfl <;> decide
      have single := utf8Size_of_ascii narrow
      have next : c.next.pos = c.pos + 1 := by simp [Cursor.next, starts, single]
      have inside := place.trans (Cursor.le_next c)
      have search : findQuote quote (encode source) (c.pos + 1) =
          .ok ((Code.findQuote? quote c.next.pos c.next.rest).map (·.pos)) := by
        rw [← next]
        exact findQuote_eq narrow (Aligned.of_place inside)
      rw [search, ok_bind]
      cases found : Code.findQuote? quote c.next.pos c.next.rest with
      | none => rfl
      | some close =>
        obtain ⟨text, reads, after, closes⟩ := Code.reads_findQuote? found
        have le : c.next ≤ close := ⟨text, reads⟩
        have last : close.next.pos = close.pos + 1 := by simp [Cursor.next, closes, single]
        simp only [Option.map_some]
        rw [← next, ← last, piece_eq inside le, ok_bind,
          moveTo_eq ((inside.trans le).trans (Cursor.le_next close)), ok_bind, Fragment.between, Fragment.ofChars,
          ← (Cursor.reads_textTo le).pos_eq]
        rfl
    · rw [if_neg quotes, if_neg quotes]
      rfl

/-- A fragment without its quotes. -/
def unquoted (fragment : Fragment) : Checked Fragment := do
  let text := fragment.text.toList
  let inside ← piece text 1 (← minus (byteLength text) 1)
  let stop ← minus fragment.span.stop 1
  pure ⟨String.ofList inside, ⟨fragment.span.start + 1, stop⟩⟩

theorem unquoted_eq {fragment : Fragment} {quote : Char} {part : Cursor} (narrow : quote.toNat < 0x80)
    (quoted : isQuotedBy quote fragment.text.toList = true) (within : fragment.Within part) :
    unquoted fragment = .ok fragment.unquoted := by
  have single := utf8Size_of_ascii narrow
  have split := Fragment.eq_of_isQuotedBy quoted
  have stop := within.stop_eq
  generalize inside_eq : fragment.text.toList.tail.dropLast = inside at split
  have length : byteLength fragment.text.toList = 1 + (byteLength inside + 1) := by
    rw [split]
    simp [single]
  have cut : piece fragment.text.toList 1 (byteLength fragment.text.toList - 1) = .ok inside := by
    have middle := Cursor.slice?_append [quote] inside [quote]
    simp only [byteLength_cons, byteLength_nil, single, Nat.add_zero, List.singleton_append] at middle
    rw [piece, length, show 1 + (byteLength inside + 1) - 1 = 1 + byteLength inside by omega, split, middle]
  rw [unquoted, minus_eq (by omega), ok_bind, cut, ok_bind, minus_eq (by omega), ok_bind, Fragment.unquoted, inside_eq]
  rfl

/-- The first colon from an offset on that is not next to another one. -/
def singleColon (bytes : List UInt8) (i : Nat) : Checked (Option Nat) :=
  if i < bytes.length then
    match byteAt bytes i with
    | .error breach => .error breach
    | .ok byte =>
      if asChar byte = ':' ∧ bytes[i + 1]?.map asChar ≠ some ':' then
        if i = 0 then .ok (some i)
        else
          match minus i 1 >>= byteAt bytes with
          | .error breach => .error breach
          | .ok before => if asChar before = ':' then singleColon bytes (i + 1) else .ok (some i)
      else singleColon bytes (i + 1)
  else .ok none
termination_by bytes.length - i

theorem Leads.eq_iff_of_mem {ch ascii : Char} {first byte : UInt8} {tail : List UInt8} (leads : Leads ch first tail)
    (narrow : ascii.toNat < 0x80) (member : byte ∈ first :: tail) : asChar byte = ascii ↔ ch = ascii := by
  rcases List.mem_cons.mp member with rfl | inTail
  · exact leads.eq_iff narrow
  · constructor
    · intro same
      exact absurd same ((leads.tail byte inTail).ne narrow)
    · rintro rfl
      rw [(leads.ascii narrow).2] at inTail
      simp at inTail

/-- The byte before a place belongs to the character before it. -/
theorem Aligned.exists_before {bytes : List UInt8} {base : Nat} {c : Cursor} {ch : Char} {rest : List Char}
    (aligned : Aligned bytes base c) (starts : c.rest = ch :: rest) :
    ∃ byte, 0 < c.next.pos - base ∧ bytes[c.next.pos - base - 1]? = some byte ∧
      ∀ ascii : Char, ascii.toNat < 0x80 → (asChar byte = ascii ↔ ch = ascii) := by
  obtain ⟨first, tail, leads⟩ := exists_leads ch
  have size := String.length_utf8EncodeChar ch
  rw [leads.bytes, List.length_cons] at size
  have next : c.next.pos - base - 1 = c.pos - base + tail.length := by
    rw [aligned.pos_next starts]
    omega
  have here := aligned.getElem? tail.length
  have short : tail.length < (first :: tail).length := by simp
  rw [starts, encode_cons, leads.bytes, List.getElem?_append_left short, List.getElem?_eq_getElem short] at here
  refine ⟨_, ?_, by rw [next]; exact here, fun ascii narrow => leads.eq_iff_of_mem narrow (List.getElem_mem _)⟩
  rw [aligned.pos_next starts]
  omega

theorem singleColon_over {bytes : List UInt8} (i : Nat) (byte : UInt8) (here : bytes[i]? = some byte)
    (plain : asChar byte ≠ ':') : singleColon bytes i = singleColon bytes (i + 1) := by
  conv => lhs; rw [singleColon, if_pos (lt_of_getElem? here), byteAt_of_getElem? here]
  simp only [plain, false_and, if_false]

/-- A colon counts unless there is one right before or right after it. -/
theorem singleColon_colon {bytes : List UInt8} {i : Nat} {byte : UInt8} {afterColon : Bool} (here : bytes[i]? = some byte)
    (colon : asChar byte = ':')
    (before : afterColon = true ↔ ∃ byte, 0 < i ∧ bytes[i - 1]? = some byte ∧ asChar byte = ':') :
    singleColon bytes i =
      if !afterColon ∧ bytes[i + 1]?.map asChar ≠ some ':' then .ok (some i) else singleColon bytes (i + 1) := by
  have inside := lt_of_getElem? here
  conv => lhs; rw [singleColon, if_pos inside, byteAt_of_getElem? here]
  simp only [colon, true_and]
  by_cases alone : bytes[i + 1]?.map asChar ≠ some ':'
  · rw [if_pos alone]
    by_cases first : i = 0
    · have none : afterColon = false := by
        rw [Bool.eq_false_iff, ne_eq, before]
        omega
      rw [if_pos first, if_pos ⟨by simp [none], alone⟩]
    · have earlier : bytes[i - 1]? = some (bytes[i - 1]) := List.getElem?_eq_getElem (by omega)
      rw [if_neg first, minus_eq (by omega), ok_bind, byteAt_of_getElem? earlier]
      simp only
      by_cases doubled : asChar bytes[i - 1] = ':'
      · have some : afterColon = true := before.mpr ⟨_, by omega, earlier, doubled⟩
        rw [if_pos doubled, if_neg (by simp [some])]
      · have none : afterColon = false := by
          rw [Bool.eq_false_iff, ne_eq, before]
          rintro ⟨other, _, found, same⟩
          obtain rfl := Option.some.inj (earlier.symm.trans found)
          exact doubled same
        rw [if_neg doubled, if_pos ⟨by simp [none], alone⟩]
  · rw [if_neg alone, if_neg (by simp [alone])]

/-- The bytes of an entry have their single colon where its characters have it. -/
theorem singleColon_go_eq {bytes : List UInt8} {base pos : Nat} {text : List Char} {afterColon : Bool}
    (aligned : Aligned bytes base ⟨pos, text⟩)
    (before : afterColon = true ↔ ∃ byte, 0 < pos - base ∧ bytes[pos - base - 1]? = some byte ∧ asChar byte = ':') :
    singleColon bytes (pos - base) = .ok ((singleColon?.go afterColon pos text).map (·.pos - base)) := by
  induction text generalizing pos afterColon with
  | nil =>
    have total := aligned.length_eq
    simp only [byteLength_nil, Nat.add_zero] at total
    rw [singleColon, if_neg (by omega)]
    rfl
  | cons ch rest ih =>
    have next : Aligned bytes base ⟨pos + ch.utf8Size, rest⟩ := aligned.of_le ⟨[ch], rfl, by simp⟩
    have onward : singleColon bytes (pos + ch.utf8Size - base) =
        .ok ((singleColon?.go (ch == ':') (pos + ch.utf8Size) rest).map (·.pos - base)) := by
      obtain ⟨byte, later, last, same⟩ : ∃ byte, 0 < pos + ch.utf8Size - base ∧
          bytes[pos + ch.utf8Size - base - 1]? = some byte ∧
          ∀ ascii : Char, ascii.toNat < 0x80 → (asChar byte = ascii ↔ ch = ascii) := aligned.exists_before rfl
      apply ih next
      rw [beq_iff_eq, ← same ':' (by decide)]
      constructor
      · intro colon
        exact ⟨byte, later, last, colon⟩
      · rintro ⟨other, _, found, colon⟩
        obtain rfl := Option.some.inj (last.symm.trans found)
        exact colon
    rw [singleColon?.go]
    by_cases colon : ch = ':'
    · subst colon
      obtain ⟨byte, here, same⟩ : ∃ byte, bytes[pos - base]? = some byte ∧ asChar byte = ':' :=
        aligned.exists_ascii rfl (by decide)
      have below : base ≤ pos := aligned.length_eq.1
      have one : ':'.utf8Size = 1 := rfl
      have offset : pos - base + 1 = pos + ':'.utf8Size - base := by omega
      have follows : bytes[pos - base + 1]?.map asChar = some ':' ↔ rest.head? = some ':' := by
        rw [offset]
        exact next.map_asChar_iff (by decide)
      rw [singleColon_colon here same before]
      by_cases counts : !afterColon ∧ bytes[pos - base + 1]?.map asChar ≠ some ':'
      · rw [if_pos counts, if_pos ⟨rfl, counts.1, fun follow => counts.2 (follows.mpr follow)⟩]
        rfl
      · have other : ¬(':' = ':' ∧ (!afterColon) = true ∧ rest.head? ≠ some ':') := by
          rintro ⟨_, single, alone⟩
          exact counts ⟨single, fun follow => alone (follows.mp follow)⟩
        rw [if_neg counts, if_neg other, offset, onward]
    · have passing : singleColon bytes (pos - base) = singleColon bytes (pos + ch.utf8Size - base) :=
        passes_char singleColon_over (fun _ wide => wide.ne (by decide)) aligned rfl colon
      rw [passing, onward, if_neg (by simp [colon])]

variable {part : Cursor}

/-- Name and value of the entry between two offsets. -/
def namedEntry (source : List Char) (start stop : Nat) : Checked (Option (Fragment × Fragment)) := do
  let entry ← piece source start stop
  match ← singleColon (encode entry) 0 with
  | none => pure none
  | some colon =>
    let name ← trimmed source start (start + colon)
    let value ← trimmed source (start + colon + 1) stop
    pure (if !name.isEmpty && isIdentOrEmpty name.text.toList && !value.isEmpty then some (name, value) else none)

theorem namedEntry_eq (inside : part.PartOf (Cursor.ofText source)) :
    namedEntry source part.pos part.finish.pos = .ok ( namedEntry? part) := by
  have search : singleColon (encode part.rest) (part.pos - part.pos) =
      .ok ((singleColon? part).map (·.pos - part.pos)) := by
    apply singleColon_go_eq (Aligned.self part)
    simp
  rw [Nat.sub_self] at search
  rw [namedEntry, piece_source inside, ok_bind, search, ok_bind, namedEntry?]
  cases found : singleColon? part with
  | none => rfl
  | some colon =>
    obtain ⟨le, head⟩ := singleColon?_spec found
    obtain ⟨rest, starts⟩ := Cursor.peek_eq_some.mp head
    have next : colon.next.pos = colon.pos + 1 := by simp [Cursor.next, starts]; rfl
    have place : part.pos + (colon.pos - part.pos) = (part.upTo colon).finish.pos := by
      have := Cursor.pos_le le
      rw [pos_finish_upTo le]
      omega
    have last : part.finish.pos = colon.next.finish.pos := by
      have total := Cursor.pos_add_rest (le.trans (Cursor.le_next colon))
      simp only [Cursor.finish]
      omega
    have name := trimmed_eq ((Cursor.upTo_partOf le).trans inside)
    have value := trimmed_eq ((Cursor.partOf_of_le (le.trans (Cursor.le_next colon))).trans inside)
    have start : (part.upTo colon).pos = part.pos := rfl
    rw [start] at name
    simp only [Option.map_some]
    rw [place, name, ok_bind, pos_finish_upTo le, ← next, last, value]
    rfl

/-- The entries at given offsets of a part that begins at `start`, without blank ones. -/
def entriesAt (source inner : List Char) (start : Nat) : List (Nat × Nat) → Checked (Option (List (Fragment × Fragment)))
  | [] => .ok (some [])
  | (first, last) :: ranges => do
    let entry ← piece inner first last
    if entry.all isBlank then entriesAt source inner start ranges
    else
      match ← namedEntry source (start + first) (start + last) with
      | none => pure none
      | some read => return (← entriesAt source inner start ranges).map (read :: ·)

theorem entriesAt_eq (inside : part.PartOf (Cursor.ofText source)) {entries : List Cursor}
    (parts : ∀ entry ∈ entries, entry.PartOf part) :
    entriesAt source part.rest part.pos (entries.map (range part.pos)) =
      .ok ((entries.filter fun entry => !entry.rest.all isBlank).mapM namedEntry?) := by
  induction entries with
  | nil => rfl
  | cons entry entries ih =>
    obtain ⟨first, others⟩ := List.forall_mem_cons.mp parts
    obtain ⟨start, stop⟩ := offsets_of_partOf first
    rw [List.map_cons, range, entriesAt, piece_part first, ok_bind, start, stop, namedEntry_eq (first.trans inside),
      ih others]
    by_cases blank : entry.rest.all isBlank = true
    · rw [if_pos blank, List.filter_cons_of_neg (by simp [blank])]
    · rw [if_neg blank, List.filter_cons_of_pos (by simp [blank]), List.mapM_cons, ok_bind]
      cases namedEntry? entry with
      | none => rfl
      | some read =>
        cases (entries.filter fun entry => !entry.rest.all isBlank).mapM namedEntry? <;> rfl

/-- The entries between two offsets. -/
def namedEntries (source : List Char) (start stop : Nat) : Checked (Option (List (Fragment × Fragment))) := do
  let inner ← piece source start stop
  entriesAt source inner start (← split ',' inner)

theorem namedEntries_eq (inside : part.PartOf (Cursor.ofText source)) :
    namedEntries source part.pos part.finish.pos = .ok (namedEntries? part) := by
  rw [namedEntries, piece_source inside, ok_bind, split_eq (by decide), ok_bind]
  exact entriesAt_eq inside fun entry member => Code.split_partOf ',' member

/-- The parameters of a header, between two offsets. -/
def templateParameters (source : List Char) (start stop : Nat) : Checked (Option (List Parameter)) := do
  match ← namedEntries source start stop with
  | none => pure none
  | some entries => pure (if entries.isEmpty then none else some (entries.map fun (name, type) => ⟨name, type⟩))

theorem templateParameters_eq (inside : part.PartOf (Cursor.ofText source)) :
    templateParameters source part.pos part.finish.pos = .ok (templateParameters? part) := by
  rw [templateParameters, namedEntries_eq inside, ok_bind, templateParameters?]
  cases namedEntries? part <;> rfl

/-- The value of an entry in a component call. -/
def codeValue (value : Fragment) : Checked (ArgumentValue Node) :=
  let text := value.text.toList
  if value.text = "true" then .ok (.bool true)
  else if value.text = "false" then .ok (.bool false)
  else if isNumber text then .ok (.number value.text)
  else if isQuotedBy '"' text then do
    let inside ← unquoted value
    pure (if inside.text.toList.contains '"' then .code value else .string inside)
  else .ok (.code value)

theorem codeValue_eq {value : Fragment} (within : value.Within part) :
    codeValue value = .ok (SigilTemplate.codeValue value) := by
  simp only [codeValue, SigilTemplate.codeValue]
  split
  · rfl
  · split
    · rfl
    · split
      · rfl
      · by_cases quoted : isQuotedBy '"' value.text.toList = true
        · rw [if_pos quoted, unquoted_eq (by decide) quoted within, ok_bind]
          have text : value.unquoted.text.toList = value.text.toList.tail.dropLast := by simp [Fragment.unquoted]
          rw [text, quoted, Bool.true_and]
          cases value.text.toList.tail.dropLast.contains '"' <;> rfl
        · rw [if_neg quoted, if_neg (by simp [quoted])]

/-- The arguments of a component call, between two offsets. -/
def callArguments (source : List Char) (start stop : Nat) : Checked (Option (List (Argument Node))) := do
  match ← namedEntries source start stop with
  | none => pure none
  | some entries =>
    let arguments ← entries.mapM fun (name, text) => do
      let value ← codeValue text
      pure (⟨name, value, name.span.cover text.span⟩ : Argument Node)
    pure (some arguments)

theorem callArguments_eq (inside : part.PartOf (Cursor.ofText source)) :
    callArguments source part.pos part.finish.pos = .ok (callArguments? part) := by
  rw [callArguments, namedEntries_eq inside, ok_bind, callArguments?]
  cases found : namedEntries? part with
  | none => rfl
  | some entries =>
    have each : ∀ entry ∈ entries, (do
        let value ← codeValue entry.2
        pure (⟨entry.1, value, entry.1.span.cover entry.2.span⟩ : Argument Node) : Checked (Argument Node)) =
          .ok ⟨entry.1, SigilTemplate.codeValue entry.2, entry.1.span.cover entry.2.span⟩ := by
      intro entry member
      rw [codeValue_eq (namedEntries?_within found entry member).2]
      rfl
    simp only
    rw [mapM_eq each]
    rfl

/-- The two arguments of a section, between two offsets. -/
def sectionValue (source : List Char) (start stop : Nat) : Checked (Option (Directive Node)) := do
  let inner ← piece source start stop
  match ← split ',' inner with
  | [(nameFrom, nameTo), (valueFrom, valueTo)] =>
    let name ← trimmed source (start + nameFrom) (start + nameTo)
    let text := name.text.toList
    if isQuotedBy '"' text || isQuotedBy '\x27' text then
      let name ← unquoted name
      let value ← trimmed source (start + valueFrom) (start + valueTo)
      pure (if value.isEmpty then none else some (.sectionValue name value))
    else pure none
  | _ => pure none

theorem sectionValue_eq (inside : part.PartOf (Cursor.ofText source)) :
    sectionValue source part.pos part.finish.pos = .ok (sectionValue? part) := by
  rw [sectionValue, piece_source inside, ok_bind, split_eq (by decide), ok_bind, sectionValue?]
  have parts : ∀ entry ∈ Code.split ',' part, entry.PartOf part := fun entry member => Code.split_partOf ',' member
  match pieces : Code.split ',' part with
  | [] => rfl
  | [_] => rfl
  | [first, second] =>
    have left : first.PartOf part := parts first (by simp [pieces])
    have right : second.PartOf part := parts second (by simp [pieces])
    have name := trimmed_eq (left.trans inside)
    have value := trimmed_eq (right.trans inside)
    simp only [List.map_cons, List.map_nil, range, (offsets_of_partOf left).1, (offsets_of_partOf left).2,
      (offsets_of_partOf right).1, (offsets_of_partOf right).2, name, value, ok_bind]
    by_cases quoted : (isQuotedBy '"' (Fragment.trimmed first).text.toList ||
        isQuotedBy '\x27' (Fragment.trimmed first).text.toList) = true
    · have cut : unquoted (Fragment.trimmed first) = .ok (Fragment.trimmed first).unquoted := by
        rcases Bool.or_eq_true_iff.mp quoted with double | single
        · exact unquoted_eq (by decide) double (Fragment.trimmed_within first)
        · exact unquoted_eq (by decide) single (Fragment.trimmed_within first)
      rw [if_pos quoted, cut, quoted, Bool.true_and]
      cases (Fragment.trimmed second).isEmpty <;> rfl
    · rw [if_neg quoted, if_neg (by simp [quoted])]
      rfl
  | _ :: _ :: _ :: _ => rfl

end SigilTemplate.Bytes
