import SigilTemplate.Proofs.Bytes.Chain
import SigilTemplate.Proofs.Markup.Keyword
import SigilTemplate.Proofs.Markup.Run
import SigilTemplate.Proofs.Text.Runs

/-!
Markup by offsets: given words, keywords, and runs of text. A run is read
character by character; only what decides whether a quote is closed on its line
goes over bytes, and takes one byte along after a backslash.
-/

namespace SigilTemplate.Bytes
open Text

variable {source : List Char}

/-! ## Words -/

/-- Reads a given text, and moves on by its bytes. -/
def eatText (source text : List Char) (c : Cursor) : Checked (Option Cursor) :=
  if c.startsWith text then do
    let after ← moveTo source (c.pos + byteLength text)
    pure (some after)
  else .ok none

theorem startsWith_of_reads {text : List Char} {c d : Cursor} (reads : c.Reads text d) : c.startsWith text = true :=
  Cursor.startsWith_iff.mpr ⟨d.rest, reads.rest_eq⟩

theorem eatText_eq {text : List Char} {c : Cursor} (place : Cursor.ofText source ≤ c) :
    eatText source text c = .ok (Cursor.eatText? text c) := by
  unfold eatText
  by_cases starts : c.startsWith text = true
  · obtain ⟨rest, split⟩ := Cursor.startsWith_iff.mp starts
    have reads := Cursor.reads_skip split
    rw [if_pos starts, ← reads.pos_eq, moveTo_eq (place.trans (Cursor.le_of_reads reads)), ok_bind,
      Cursor.eatText?_of_rest split]
    rfl
  · rw [if_neg starts]
    cases found : Cursor.eatText? text c with
    | none => rfl
    | some after => exact absurd (startsWith_of_reads (Cursor.reads_eatText? found)) starts

/-- The keyword at the start of a text, and its bytes. -/
def recognize (text : List Char) : Checked (Option (Keyword × Nat)) := do
  let length := byteLength (identHead text)
  let word ← piece text 0 length
  match Keyword.all.find? fun keyword => keyword.word.toList == word with
  | none => pure none
  | some keyword =>
    let after ← moveTo text length
    pure (if keyword.follow.accepts after.peek then some (keyword, length) else none)

theorem recognize_eq (text : List Char) :
    recognize text = .ok ((Keyword.recognize? text).map fun keyword => (keyword, byteLength (identHead text))) := by
  have le := Cursor.le_skipIdent (Cursor.ofText text)
  have reads := Cursor.reads_skipIdent (Cursor.ofText text)
  have length : byteLength (identHead text) = (Cursor.ofText text).skipIdent.pos := by
    rw [reads.pos_eq]
    simp [Cursor.ofText]
  have word : piece text 0 (byteLength (identHead text)) = .ok (identHead text) := by
    rw [length]
    have cut := piece_eq (le_refl (Cursor.ofText text)) le
    rw [reads.textTo_eq] at cut
    exact cut
  have following : (Cursor.ofText text).skipIdent.peek = text[(identHead text).length]? := Cursor.peek_skipIdent _
  rw [recognize, word, ok_bind, Keyword.recognize?]
  cases Keyword.all.find? fun keyword => keyword.word.toList == identHead text with
  | none => rfl
  | some keyword =>
    simp only
    rw [length, moveTo_eq le, ok_bind, following]
    cases accepted : keyword.follow.accepts text[(identHead text).length]? <;> simp [Option.filter, accepted] <;> rfl

/-- Moves on by some bytes, to the end at most. -/
def moveBy (source : List Char) (c : Cursor) (bytes : Nat) : Checked Cursor :=
  moveTo source (min (c.pos + bytes) (byteLength source))

theorem moveBy_eq {text : List Char} {c d : Cursor} (place : Cursor.ofText source ≤ c) (reads : c.Reads text d) :
    moveBy source c (byteLength text) = .ok d := by
  have onto := place.trans (Cursor.le_of_reads reads)
  have within := Cursor.pos_le_size onto
  rw [reads.pos_eq] at within
  rw [moveBy, Nat.min_eq_left within, ← reads.pos_eq, moveTo_eq onto]

/-- The place after an `if` that comes next. -/
def skipIf (source : List Char) (c : Cursor) : Checked (Option Cursor) := do
  match ← recognize c.rest with
  | some (.ifBlock, length) => return some (← moveBy source c length)
  | _ => pure none

theorem skipIf_eq {c : Cursor} (place : Cursor.ofText source ≤ c) :
    skipIf source c = .ok (if Keyword.recognize? c.rest = some .ifBlock then some (c.skip 2) else none) := by
  rw [skipIf, recognize_eq, ok_bind]
  match found : Keyword.recognize? c.rest with
  | none => rfl
  | some keyword =>
    by_cases here : keyword = .ifBlock
    · subst here
      have word := Keyword.identHead_of_recognize? found
      have starts := (Cursor.reads_skipIdent c).rest_eq
      rw [word] at starts
      have two : byteLength (identHead c.rest) = byteLength Keyword.ifBlock.word.toList := by rw [word]
      simp only [Option.map_some, two, moveBy_eq place (Cursor.reads_skip starts), if_true]
      rfl
    · rw [if_neg (by simpa using here)]
      simp only [Option.map_some]
      split
      · next same => exact absurd (congrArg Prod.fst (Option.some.inj same)) here
      · rfl

/-! ## Runs of text -/

/-- The quote before an offset is closed before the line ends. -/
def closesOnLine (bytes : List UInt8) (i : Nat) : Checked Bool :=
  if i < bytes.length then
    match byteAt bytes i with
    | .error breach => .error breach
    | .ok byte =>
      if asChar byte = '\\' then closesOnLine bytes (i + 2)
      else if asChar byte = '"' then .ok true
      else if asChar byte = '\n' then .ok false
      else closesOnLine bytes (i + 1)
  else .ok false
termination_by bytes.length - i

/-- The next unit of a run. -/
def textUnit (mode : TextMode) (state : TextState) (text : List Char) : Checked (Option TextUnit) :=
  match text with
  | '"' :: rest =>
    if mode = .arm ∧ state.inString = false then do
      let closed ← closesOnLine (encode text) 1
      pure (some ⟨['"'], if closed then state.withString true else state, rest⟩)
    else .ok (textUnit? mode state text)
  | _ => .ok (textUnit? mode state text)

/-- The longest run from an offset on. A unit that does not lead on is a breach. -/
def textRunFrom (source : List Char) (mode : TextMode) (state : TextState) (content : List Char) (pos : Nat) :
    Checked TextRun :=
  match moveTo source pos with
  | .error breach => .error breach
  | .ok place =>
    match textUnit mode state place.rest with
    | .error breach => .error breach
    | .ok none => .ok ⟨content.reverse, state, place⟩
    | .ok (some unit) =>
      let next := pos + byteLength (escape unit.content)
      if pos < next ∧ next ≤ byteLength source then
        textRunFrom source mode unit.state (unit.content.reverse ++ content) next
      else .error (.index next)
termination_by byteLength source - pos

/-- The longest run from a place. -/
def textRun (source : List Char) (mode : TextMode) (state : TextState) (c : Cursor) : Checked TextRun :=
  textRunFrom source mode state [] c.pos

theorem closesOnLine_over (bytes : List UInt8) (i : Nat) (byte : UInt8) (here : bytes[i]? = some byte)
    (plain : asChar byte ≠ '\\' ∧ asChar byte ≠ '"' ∧ asChar byte ≠ '\n') :
    closesOnLine bytes i = closesOnLine bytes (i + 1) := by
  conv => lhs; rw [closesOnLine, if_pos (lt_of_getElem? here), byteAt_of_getElem? here]
  simp only [if_neg plain.1, if_neg plain.2.1, if_neg plain.2.2]

theorem closesOnLine_end {bytes : List UInt8} {i : Nat} (past : bytes.length ≤ i) : closesOnLine bytes i = .ok false := by
  rw [closesOnLine, if_neg (by omega)]

theorem closesOnLine_backslash (bytes : List UInt8) (i : Nat) (byte : UInt8) (here : bytes[i]? = some byte)
    (slash : asChar byte = '\\') : closesOnLine bytes i = closesOnLine bytes (i + 2) := by
  conv => lhs; rw [closesOnLine, if_pos (lt_of_getElem? here), byteAt_of_getElem? here]
  simp only [if_pos slash]

theorem closesOnLine_eq {bytes : List UInt8} {base pos : Nat} {text : List Char} (aligned : Aligned bytes base ⟨pos, text⟩) :
    closesOnLine bytes (pos - base) = .ok (SigilTemplate.closesOnLine text) := by
  have wide (ch : Char) (beyond : Wide ch) : ch ≠ '\\' ∧ ch ≠ '"' ∧ ch ≠ '\n' :=
    ⟨beyond.ne (by decide), beyond.ne (by decide), beyond.ne (by decide)⟩
  have passing := closesOnLine_over bytes
  have skips := closesOnLine_backslash bytes
  fun_induction SigilTemplate.closesOnLine text generalizing pos with
  | case1 =>
    have total := aligned.length_eq
    simp only [byteLength_nil, Nat.add_zero] at total
    exact closesOnLine_end (Nat.le_of_eq total.2)
  | case2 =>
    have total := aligned.length_eq
    have one : '\\'.utf8Size = 1 := rfl
    simp only [byteLength_cons, byteLength_nil, one, Nat.add_zero] at total
    obtain ⟨byte, here, slash⟩ : ∃ byte, bytes[pos - base]? = some byte ∧ asChar byte = '\\' :=
      aligned.exists_ascii rfl (by decide)
    rw [closesOnLine_backslash bytes _ _ here slash, closesOnLine_end (by omega)]
  | case3 escaped rest ih =>
    have next : Aligned bytes base ⟨pos + 1 + escaped.utf8Size, rest⟩ := aligned.of_le ⟨['\\', escaped], rfl, by
      simp [Nat.add_assoc, Char.utf8Size]⟩
    rw [passes_escaped passing wide skips aligned]
    exact ih next
  | case4 rest plain =>
    obtain ⟨byte, here, same⟩ : ∃ byte, bytes[pos - base]? = some byte ∧ asChar byte = '"' :=
      aligned.exists_ascii rfl (by decide)
    rw [closesOnLine, if_pos (lt_of_getElem? here), byteAt_of_getElem? here]
    simp only [same, if_neg plain]
    rfl
  | case5 rest plain quote =>
    obtain ⟨byte, here, same⟩ : ∃ byte, bytes[pos - base]? = some byte ∧ asChar byte = '\n' :=
      aligned.exists_ascii rfl (by decide)
    rw [closesOnLine, if_pos (lt_of_getElem? here), byteAt_of_getElem? here]
    simp only [same, if_neg plain, if_neg quote]
    rfl
  | case6 ch rest plain quote line ih =>
    have onward := passes_char passing wide aligned rfl ⟨plain, quote, line⟩
    have next : Aligned bytes base ⟨pos + ch.utf8Size, rest⟩ := aligned.of_le ⟨[ch], rfl, by simp⟩
    rw [onward]
    exact ih next

/-- The bytes behind a quote are those of the text behind it. -/
theorem aligned_quote (text : List Char) : Aligned (encode ('"' :: text)) 0 ⟨1, text⟩ := by
  have whole : Aligned (encode ('"' :: text)) 0 (Cursor.ofText ('"' :: text)) := Aligned.ofText
  exact whole.of_le ⟨['"'], rfl, rfl⟩

theorem textUnit_eq (mode : TextMode) (state : TextState) (text : List Char) :
    textUnit mode state text = .ok (textUnit? mode state text) := by
  unfold textUnit
  split
  · next rest =>
    by_cases looks : mode = .arm ∧ state.inString = false
    · obtain ⟨rfl, outside⟩ := looks
      have closed : closesOnLine (encode ('"' :: rest)) 1 = .ok (SigilTemplate.closesOnLine rest) :=
        closesOnLine_eq (aligned_quote rest)
      rw [if_pos ⟨rfl, outside⟩, closed, ok_bind]
      simp [textUnit?, outside, plainState?, armState?]
      rfl
    · rw [if_neg looks]
  · rfl

theorem textRunFrom_eq {mode : TextMode} {state : TextState} {content : List Char} {c : Cursor}
    (place : Cursor.ofText source ≤ c) :
    textRunFrom source mode state content c.pos = .ok (SigilTemplate.textRunFrom mode state content c.pos c.rest) := by
  obtain ⟨pos, text⟩ := c
  fun_induction SigilTemplate.textRunFrom mode state content pos text with
  | case1 state content pos text stops =>
    have here : moveTo source pos = .ok ⟨pos, text⟩ := moveTo_eq place
    rw [textRunFrom, here]
    simp only [textUnit_eq, stops]
  | case2 state content pos text unit found ih =>
    have here : moveTo source pos = .ok ⟨pos, text⟩ := moveTo_eq place
    obtain ⟨nonempty, split⟩ := textUnit?_spec found
    have reads : Cursor.Reads ⟨pos, text⟩ (escape unit.content) ⟨pos + byteLength (escape unit.content), unit.rest⟩ :=
      ⟨split, rfl⟩
    have onto := place.trans (Cursor.le_of_reads reads)
    have moves := Cursor.pos_lt (Cursor.lt_of_reads reads (mt escape_eq_nil nonempty))
    have within := Cursor.pos_le_size onto
    rw [textRunFrom, here]
    simp only [textUnit_eq, found]
    rw [if_pos ⟨moves, within⟩]
    exact ih onto

theorem textRun_eq {mode : TextMode} {state : TextState} {c : Cursor} (place : Cursor.ofText source ≤ c) :
    textRun source mode state c = .ok (SigilTemplate.textRun mode state c) :=
  textRunFrom_eq place

end SigilTemplate.Bytes
