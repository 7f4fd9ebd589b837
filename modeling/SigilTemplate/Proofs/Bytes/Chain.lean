import Mathlib
import SigilTemplate.Proofs.Bytes.Part
import SigilTemplate.Proofs.Text.Letters

/-!
Fragments and chains of a source, byte by byte, with their texts cut out of it.
The cuts leave out the delimiters, each by one byte, and the marks before the
names of a chain.
-/

namespace SigilTemplate.Bytes
open Text

variable {source : List Char}

/-! ## Enclosed fragments -/

/-- What is said of a fragment without an end. The delimiter that is named is the byte at its offset. -/
def refusal (source : List Char) : Refused → Checked Code.Refusal
  | .mismatched offset found opener => do
    let byte ← byteAt (encode source) opener
    let place ← moveTo source offset
    pure (.mismatched place found ⟨asChar byte, opener⟩)
  | .unterminated opener => do
    let byte ← byteAt (encode source) opener
    pure (.unterminated ⟨asChar byte, opener⟩)
  | .tooDeep offset => do
    let place ← moveTo source offset
    pure (.tooDeep place.pos)

/-- The fragment that opens at a place, and the text between its delimiters. -/
def enclosed (source : List Char) (limit : Nat) (opener : Cursor) : Checked (Except Code.Refusal Code.Enclosed) := do
  match ← balanced (encode source) limit opener.pos with
  | .ok stop =>
    let inner ← piece source (opener.pos + 1) (← minus stop 1)
    let after ← moveTo source stop
    pure (.ok ⟨⟨opener.pos + 1, inner⟩, after⟩)
  | .error refused => return .error (← refusal source refused)

theorem byteAt_of_peek {c : Cursor} {ch : Char} (place : Cursor.ofText source ≤ c) (head : c.peek = some ch)
    (narrow : ch.toNat < 0x80) : ∃ byte, byteAt (encode source) c.pos = .ok byte ∧ asChar byte = ch := by
  obtain ⟨rest, starts⟩ := Cursor.peek_eq_some.mp head
  obtain ⟨byte, here, same⟩ : ∃ byte, (encode source)[c.pos]? = some byte ∧ asChar byte = ch :=
    (Aligned.of_place place).exists_ascii starts narrow
  exact ⟨byte, byteAt_of_getElem? here, same⟩

theorem pos_next_of_peek {c : Cursor} {ch : Char} (head : c.peek = some ch) (narrow : ch.toNat < 0x80) :
    c.next.pos = c.pos + 1 := by
  obtain ⟨rest, starts⟩ := Cursor.peek_eq_some.mp head
  simp [Cursor.next, starts, utf8Size_of_ascii narrow]

theorem narrow_closerOf (opener : Char) : (Code.closerOf opener).toNat < 0x80 := by
  unfold Code.closerOf
  split <;> decide

/-- Fragments are cut out of the bytes as they are out of the characters. -/
theorem enclosed_eq (limit : Nat) {c : Cursor} {ch : Char} (place : Cursor.ofText source ≤ c) (head : c.peek = some ch)
    (opens : Code.isOpener ch = true) : enclosed source limit c = .ok (Code.enclosed limit c) := by
  have next := pos_next_of_peek head (narrow_of_isOpener opens)
  have inside := place.trans (Cursor.le_next c)
  have spec := Code.enclosed_spec limit head opens
  rw [enclosed, balanced_eq limit place head opens, ok_bind]
  generalize Code.enclosed limit c = answer at spec
  cases spec with
  | @closed close after closer =>
    have last := pos_next_of_peek closer (narrow_closerOf ch)
    simp only [offsets]
    rw [last, minus_add, ok_bind, ← next, piece_eq inside after, ok_bind, ← last,
      moveTo_eq ((inside.trans after).trans (Cursor.le_next close))]
    rfl
  | @mismatched stop found innermost after there closes other stands =>
    obtain ⟨kind, at_, first, _, here, pos⟩ := stands
    obtain ⟨byte, read, same⟩ := byteAt_of_peek (place.trans first) here (narrow_of_isOpener kind)
    simp only [offsets, refusal]
    rw [← pos, read, ok_bind, moveTo_eq (inside.trans after), ok_bind, same, pos]
    rfl
  | unterminated =>
    obtain ⟨byte, read, same⟩ := byteAt_of_peek place head (narrow_of_isOpener opens)
    simp only [offsets, refusal]
    rw [read, ok_bind, same]
    rfl
  | @tooDeep stop after =>
    simp only [offsets, refusal]
    rw [moveTo_eq (inside.trans after)]
    rfl

/-! ## Identifiers -/

/-- The bytes from an offset on. -/
def bytesFrom (bytes : List UInt8) (i : Nat) : Checked (List UInt8) :=
  if i ≤ bytes.length then .ok (bytes.drop i) else .error (.index i)

/-- The number of bytes of the identifier at an offset. -/
def identAt (bytes : List UInt8) (i : Nat) : Checked Nat :=
  if bytes[i]?.any fun byte => isIdentStart (asChar byte) then do
    let rest ← bytesFrom bytes i
    match rest.findIdx? (fun byte => !isIdentPart (asChar byte)) with
    | some length => pure length
    | none => minus bytes.length i
  else pure 0

theorem narrow_of_isIdentPart {ch : Char} (part : isIdentPart ch = true) : ch.toNat < 0x80 :=
  (toNat_of_isIdentPart part).2.trans (by decide)

theorem Wide.not_identPart {ch : Char} (wide : Wide ch) : isIdentPart ch = false := by
  rw [Bool.eq_false_iff]
  intro part
  have narrow := narrow_of_isIdentPart part
  unfold Wide at wide
  omega

/-- The first byte that is no part of an identifier is that of the first such character. -/
theorem findIdx?_encode (text : List Char) :
    (encode text).findIdx? (fun byte => !isIdentPart (asChar byte)) =
      if text.all isIdentPart then none else some (byteLength (text.takeWhile isIdentPart)) := by
  induction text with
  | nil => rfl
  | cons ch rest ih =>
    obtain ⟨first, tail, leads⟩ := exists_leads ch
    rw [encode_cons, leads.bytes, List.cons_append, List.findIdx?_cons]
    by_cases part : isIdentPart ch = true
    · obtain ⟨same, short⟩ := leads.ascii (narrow_of_isIdentPart part)
      rw [same, short, List.nil_append, ih]
      have single := utf8Size_of_ascii (narrow_of_isIdentPart part)
      by_cases all : rest.all isIdentPart = true <;> simp [part, all, single, Nat.add_comm]
    · have other : isIdentPart (asChar first) = false := by
        rcases leads.lead with same | ⟨_, wide⟩
        · rw [same]
          simpa using part
        · exact wide.not_identPart
      simp [other, part]

theorem identAt_eq {c : Cursor} (place : Cursor.ofText source ≤ c) :
    identAt (encode source) c.pos = .ok (c.skipIdent.pos - c.pos) := by
  have aligned := Aligned.of_place place
  have reads := Cursor.reads_skipIdent c
  have total : (encode source).length = c.pos + byteLength c.rest := aligned.length_eq.2
  cases starts : c.rest with
  | nil =>
    have none : (encode source)[c.pos]? = none := aligned.getElem?_end starts
    simp [identAt, none, Cursor.skipIdent, starts]
    rfl
  | cons ch rest =>
    obtain ⟨first, tail, leads⟩ := exists_leads ch
    have here : (encode source)[c.pos]? = some first := aligned.getElem?_first starts leads
    rw [identAt, here, Option.any_some]
    by_cases start : isIdentStart ch = true
    · have part := isIdentPart_of_isIdentStart start
      have same := (leads.ascii (narrow_of_isIdentPart part)).1
      have ahead : (encode source).drop c.pos = encode c.rest := by
        obtain ⟨before, split, pos⟩ := aligned
        rw [split, List.drop_left' (by omega)]
      have word : identHead c.rest = c.rest.takeWhile isIdentPart := by
        simp [identHead, starts, start, part]
      rw [same, if_pos start, bytesFrom, if_pos (by omega), ok_bind, ahead, findIdx?_encode, reads.pos_eq, word,
        Nat.add_sub_cancel_left]
      by_cases all : c.rest.all isIdentPart = true
      · have whole : c.rest.takeWhile isIdentPart = c.rest :=
          List.takeWhile_eq_self_iff.mpr (List.all_eq_true.mp all)
        rw [if_pos all, whole]
        simp only
        rw [minus_eq (by omega), total, Nat.add_sub_cancel_left]
      · rw [if_neg all]
        rfl
    · have other : isIdentStart (asChar first) = false := by
        rcases leads.lead with same | ⟨_, wide⟩
        · rw [same]
          simpa using start
        · rw [Bool.eq_false_iff]
          intro begins
          simpa [wide.not_identPart] using isIdentPart_of_isIdentStart begins
      rw [other]
      simp [Cursor.skipIdent, starts, start]
      rfl

/-! ## Chains -/

/-- The offset after the ampersands at an offset. -/
def ampersands (bytes : List UInt8) (i : Nat) : Nat :=
  if _mark : bytes[i]?.map asChar = some '&' then ampersands bytes (i + 1) else i
termination_by bytes.length - i
decreasing_by
  obtain ⟨byte, here, _⟩ := Option.map_eq_some_iff.mp _mark
  have := lt_of_getElem? here
  omega

/-- The link that is the identifier at an offset. -/
def named (source : List Char) (link : String → Code.Segment) (i : Nat) : Checked (Option (Code.Segment × Cursor)) := do
  let length ← identAt (encode source) i
  if length = 0 then pure none
  else
    let name ← piece source i (i + length)
    let after ← moveTo source (i + length)
    pure (some (link (String.ofList name), after))

/-- The link that stands between delimiters. -/
def delimited (source : List Char) (link : String → Code.Segment) (limit : Nat) (c : Cursor) :
    Checked (Except Code.Refusal (Option (Code.Segment × Cursor))) := do
  match ← enclosed source limit c with
  | .ok found => pure (.ok (some (link (String.ofList found.inner.rest), found.after)))
  | .error refusal => pure (.error refusal)

/-- The link that follows a name. -/
def segment (source : List Char) (limit : Nat) (c : Cursor) :
    Checked (Except Code.Refusal (Option (Code.Segment × Cursor))) :=
  let bytes := encode source
  let mark := bytes[c.pos]?.map asChar
  if mark = some '.' then return .ok (← named source .field (c.pos + 1))
  else if mark = some ':' ∧ bytes[c.pos + 1]?.map asChar = some ':' then return .ok (← named source .path (c.pos + 2))
  else if mark = some '&' then return .ok (← named source .borrow (c.pos + 1))
  else if mark = some '(' then delimited source .call limit c
  else if mark = some '[' then delimited source .index limit c
  else pure (.ok none)

/-- The links from a place on. A link that does not lead on is a breach. -/
def segmentsFrom (source : List Char) (limit : Nat) (done : List Code.Segment) (c : Cursor) :
    Checked (Except Code.Refusal (List Code.Segment × Cursor)) :=
  match segment source limit c with
  | .error breach => .error breach
  | .ok (.error refusal) => .ok (.error refusal)
  | .ok (.ok none) => .ok (.ok (done.reverse, c))
  | .ok (.ok (some (segment, after))) =>
    if c.pos < after.pos ∧ after.pos ≤ byteLength source then segmentsFrom source limit (segment :: done) after
    else .error (.index after.pos)
termination_by byteLength source - c.pos

/-- The chain at a place. -/
def chain (source : List Char) (limit : Nat) (c : Cursor) : Checked (Except Code.Refusal (Option Code.Chain)) := do
  let start := ampersands (encode source) c.pos
  match ← named source .ident start with
  | none => pure (.ok none)
  | some (first, after) =>
    match ← segmentsFrom source limit [first] after with
    | .error refusal => pure (.error refusal)
    | .ok (segments, after) => return .ok (some ⟨← minus start c.pos, segments, after⟩)

theorem ampersands_eq {c : Cursor} (place : Cursor.ofText source ≤ c) :
    ampersands (encode source) c.pos = (c.skipWhile (· == '&')).pos := by
  obtain ⟨pos, text⟩ := c
  induction text generalizing pos with
  | nil =>
    have none : (encode source)[pos]? = none := (Aligned.of_place place).getElem?_end rfl
    rw [ampersands, none]
    rfl
  | cons ch rest ih =>
    have mark : (encode source)[pos]?.map asChar = some '&' ↔ some ch = some '&' :=
      (Aligned.of_place place).map_asChar_iff (by decide)
    rw [ampersands, Cursor.skipWhile, Cursor.skipWhile.go]
    by_cases borrows : ch = '&'
    · rw [dif_pos (mark.mpr (by rw [borrows])), if_pos (by simp [borrows])]
      subst borrows
      have one : '&'.utf8Size = 1 := rfl
      rw [← one]
      exact ih _ (place.trans ⟨['&'], rfl, rfl⟩)
    · rw [dif_neg (by simp [mark, borrows]), if_neg (by simp [borrows])]

theorem named_eq {link : String → Code.Segment} {c : Cursor} (place : Cursor.ofText source ≤ c) :
    named source link c.pos = .ok (Code.named? link c) := by
  have le := Cursor.le_skipIdent c
  have reads := Cursor.reads_textTo le
  have length : c.skipIdent.pos - c.pos = byteLength (c.textTo c.skipIdent) := by
    rw [reads.pos_eq, Nat.add_sub_cancel_left]
  rw [named, identAt_eq place, ok_bind, Code.named?]
  cases text : c.textTo c.skipIdent with
  | nil =>
    rw [text, byteLength_nil] at length
    rw [if_pos length]
    rfl
  | cons ch rest =>
    have nonempty : c.skipIdent.pos - c.pos ≠ 0 := by
      have size := Char.utf8Size_pos ch
      rw [length, text, byteLength_cons]
      omega
    have stop : c.pos + (c.skipIdent.pos - c.pos) = c.skipIdent.pos := by omega
    rw [if_neg nonempty, stop, piece_eq place le, ok_bind, moveTo_eq (place.trans le), ok_bind, text]
    rfl

theorem delimited_eq {link : String → Code.Segment} (limit : Nat) {c : Cursor} {ch : Char}
    (place : Cursor.ofText source ≤ c) (head : c.peek = some ch) (opens : Code.isOpener ch = true) :
    delimited source link limit c = .ok (Code.delimited? link limit c) := by
  rw [delimited, enclosed_eq limit place head opens, ok_bind, Code.delimited?]
  cases Code.enclosed limit c <;> rfl

theorem segment_eq (limit : Nat) {c : Cursor} (place : Cursor.ofText source ≤ c) :
    segment source limit c = .ok (Code.segment? limit c) := by
  have marked (mark : Char) (narrow : mark.toNat < 0x80) {here : Cursor} (place : Cursor.ofText source ≤ here) :
      (encode source)[here.pos]?.map asChar = some mark ↔ here.peek = some mark :=
    (Aligned.of_place place).map_asChar_iff narrow
  have inside := place.trans (Cursor.le_next c)
  have next {mark : Char} (head : c.peek = some mark) (narrow : mark.toNat < 0x80) : c.pos + 1 = c.next.pos :=
    (pos_next_of_peek head narrow).symm
  have colons : (c.peek = some ':' ∧ (encode source)[c.pos + 1]?.map asChar = some ':') ↔
      (c.peek = some ':' ∧ c.next.peek = some ':') := by
    refine and_congr_right fun head => ?_
    rw [next head (by decide)]
    exact marked ':' (by decide) inside
  rw [Code.segment?_eq]
  simp only [segment, marked '.' (by decide) place, marked ':' (by decide) place, marked '&' (by decide) place,
    marked '(' (by decide) place, marked '[' (by decide) place, colons]
  by_cases dot : c.peek = some '.'
  · rw [if_pos dot, if_pos dot, next dot (by decide), named_eq inside]
    rfl
  rw [if_neg dot, if_neg dot]
  by_cases path : c.peek = some ':' ∧ c.next.peek = some ':'
  · have second : c.pos + 2 = c.next.next.pos := by
      rw [pos_next_of_peek path.2 (by decide), pos_next_of_peek path.1 (by decide)]
    rw [if_pos path, if_pos path, second, named_eq (inside.trans (Cursor.le_next _))]
    rfl
  rw [if_neg path, if_neg path]
  by_cases borrow : c.peek = some '&'
  · rw [if_pos borrow, if_pos borrow, next borrow (by decide), named_eq inside]
    rfl
  rw [if_neg borrow, if_neg borrow]
  by_cases call : c.peek = some '('
  · rw [if_pos call, if_pos call, delimited_eq limit place call rfl]
  rw [if_neg call, if_neg call]
  by_cases index : c.peek = some '['
  · rw [if_pos index, if_pos index, delimited_eq limit place index rfl]
  rw [if_neg index, if_neg index]
  rfl

theorem segmentsFrom_eq (limit : Nat) {done : List Code.Segment} {c : Cursor} (place : Cursor.ofText source ≤ c) :
    segmentsFrom source limit done c = .ok (Code.segmentsFrom limit done c) := by
  fun_induction Code.segmentsFrom limit done c with
  | case1 done c refusal link =>
    rw [segmentsFrom, segment_eq limit place, link]
  | case2 done c link =>
    rw [segmentsFrom, segment_eq limit place, link]
  | case3 done c segment after link ih =>
    have lt := Code.lt_of_segment? link
    have later := place.trans lt.le
    rw [segmentsFrom, segment_eq limit place, link]
    simp only
    rw [if_pos ⟨Cursor.pos_lt lt, Cursor.pos_le_size later⟩]
    exact ih later

/-- Chains are cut out of the bytes as they are out of the characters. -/
theorem chain_eq (limit : Nat) {c : Cursor} (place : Cursor.ofText source ≤ c) :
    chain source limit c = .ok (Code.chain? limit c) := by
  have le := Cursor.le_skipWhile (· == '&') c
  have start := place.trans le
  simp only [chain, Code.chain?]
  rw [ampersands_eq place, named_eq start, ok_bind]
  cases named : Code.named? .ident (c.skipWhile (· == '&')) with
  | none => rfl
  | some read =>
    obtain ⟨first, after⟩ := read
    have later := start.trans (Code.named?_spec named).le
    simp only
    rw [segmentsFrom_eq limit later, ok_bind]
    cases Code.segmentsFrom limit [first] after with
    | error refusal => rfl
    | ok links =>
      simp only
      rw [minus_eq (Cursor.pos_le le)]
      rfl

end SigilTemplate.Bytes
