import SigilTemplate.Proofs.Bytes.Markup
import SigilTemplate.Proofs.Tree.LiteralText

/-!
Quoted strings in the inline body of a match arm. Looking ahead byte by byte
decides whether a quote opens a string; where the string is over is found by
reading on, unit by unit, and by rules of its own: a doubled sigil is one unit,
and a backslash does not take a sigil along. If all sigils are doubled and no
tag starts, both come to the same quote, and the string is left just there.
-/

namespace SigilTemplate.Bytes
open Text

/-- The offset behind the quote that closes a string on its line, looked for from an offset inside the string. A backslash
takes one byte along. -/
def quoteEnd (bytes : List UInt8) (i : Nat) : Checked (Option Nat) :=
  if i < bytes.length then
    match byteAt bytes i with
    | .error breach => .error breach
    | .ok byte =>
      if asChar byte = '\\' then quoteEnd bytes (i + 2)
      else if asChar byte = '"' then .ok (some (i + 1))
      else if asChar byte = '\n' then .ok none
      else quoteEnd bytes (i + 1)
  else .ok none
termination_by bytes.length - i

/-- The bytes of the string that a text starts with, from quote to quote, if it is closed on its line. -/
def quotedLength (text : List Char) : Checked (Option Nat) := quoteEnd (encode text) 1

/-- What a run asks is whether there is such a length. -/
theorem closesOnLine_eq_map (bytes : List UInt8) (i : Nat) :
    closesOnLine bytes i = (quoteEnd bytes i).map Option.isSome := by
  fun_induction quoteEnd bytes i with
  | case1 i inside breach refused =>
    rw [closesOnLine, if_pos inside, refused]
    rfl
  | case2 i inside byte here slash ih =>
    rw [closesOnLine, if_pos inside, here]
    simp only [if_pos slash, ih]
  | case3 i inside byte here slash quote =>
    rw [closesOnLine, if_pos inside, here]
    simp only [if_neg slash, if_pos quote]
    rfl
  | case4 i inside byte here slash quote feed =>
    rw [closesOnLine, if_pos inside, here]
    simp only [if_neg slash, if_neg quote, if_pos feed]
    rfl
  | case5 i inside byte here slash quote feed ih =>
    rw [closesOnLine, if_pos inside, here]
    simp only [if_neg slash, if_neg quote, if_neg feed, ih]
  | case6 i past =>
    rw [closesOnLine, if_neg past]
    rfl

end SigilTemplate.Bytes

namespace SigilTemplate
open Text

/-- What can stand between two quotes on a line: neither quote nor line feed but behind a backslash, and no backslash that
takes the closing quote along. -/
inductive LineString : List Char → Prop
  | nil : LineString []
  | escaped (ch : Char) {rest : List Char} (behind : LineString rest) : LineString ('\\' :: ch :: rest)
  | plain {ch : Char} {rest : List Char} (slash : ch ≠ '\\') (quote : ch ≠ '"') (feed : ch ≠ '\n')
      (behind : LineString rest) : LineString (ch :: rest)

/-- Every sigil is one of a pair, counted from the left. -/
inductive PairedSigils : List Char → Prop
  | nil : PairedSigils []
  | pair {rest : List Char} (behind : PairedSigils rest) : PairedSigils ('@' :: '@' :: rest)
  | other {ch : Char} {rest : List Char} (plain : ch ≠ '@') (behind : PairedSigils rest) : PairedSigils (ch :: rest)

variable {mode : TextMode} {state between : TextState} {c d : Cursor} {text inside after rest content : List Char} {ch : Char}
  {pos : Nat}

/-- Sigils are paired just in what is written for some text. -/
theorem pairedSigils_iff : PairedSigils text ↔ ∃ content, text = escape content := by
  constructor
  · intro paired
    induction paired with
    | nil => exact ⟨[], rfl⟩
    | pair behind ih =>
      obtain ⟨content, rfl⟩ := ih
      exact ⟨'@' :: content, rfl⟩
    | @other ch rest plain behind ih =>
      obtain ⟨content, rfl⟩ := ih
      exact ⟨ch :: content, (escape_cons_of_ne plain).symm⟩
  · rintro ⟨content, rfl⟩
    induction content with
    | nil => exact .nil
    | cons ch content ih =>
      by_cases sigil : ch = '@'
      · subst sigil
        exact .pair ih
      · rw [escape_cons_of_ne sigil]
        exact .other sigil ih

/-! ## Looking ahead -/

theorem exists_lineString (closes : closesOnLine text = true) :
    ∃ inside after, text = inside ++ '"' :: after ∧ LineString inside := by
  fun_induction closesOnLine text with
  | case1 | case2 | case5 => simp at closes
  | case3 escaped rest ih =>
    obtain ⟨inside, after, rfl, string⟩ := ih closes
    exact ⟨'\\' :: escaped :: inside, after, rfl, .escaped escaped string⟩
  | case4 rest slash => exact ⟨[], rest, rfl, .nil⟩
  | case6 ch rest slash quote feed ih =>
    obtain ⟨inside, after, rfl, string⟩ := ih closes
    exact ⟨ch :: inside, after, rfl, .plain slash quote feed string⟩

namespace Bytes

theorem quoteEnd_over (bytes : List UInt8) (i : Nat) (byte : UInt8) (here : bytes[i]? = some byte)
    (plain : asChar byte ≠ '\\' ∧ asChar byte ≠ '"' ∧ asChar byte ≠ '\n') : quoteEnd bytes i = quoteEnd bytes (i + 1) := by
  conv => lhs; rw [quoteEnd, if_pos (lt_of_getElem? here), byteAt_of_getElem? here]
  simp only [if_neg plain.1, if_neg plain.2.1, if_neg plain.2.2]

theorem quoteEnd_backslash (bytes : List UInt8) (i : Nat) (byte : UInt8) (here : bytes[i]? = some byte)
    (slash : asChar byte = '\\') : quoteEnd bytes i = quoteEnd bytes (i + 2) := by
  conv => lhs; rw [quoteEnd, if_pos (lt_of_getElem? here), byteAt_of_getElem? here]
  simp only [if_pos slash]

/-- From inside a string, looking ahead comes to its closing quote. -/
theorem quoteEnd_eq {bytes : List UInt8} {base : Nat} (string : LineString inside)
    (aligned : Aligned bytes base ⟨pos, inside ++ '"' :: after⟩) :
    quoteEnd bytes (pos - base) = .ok (some (pos - base + byteLength inside + 1)) := by
  have wide (ch : Char) (beyond : Wide ch) : ch ≠ '\\' ∧ ch ≠ '"' ∧ ch ≠ '\n' :=
    ⟨beyond.ne (by decide), beyond.ne (by decide), beyond.ne (by decide)⟩
  have passing := quoteEnd_over bytes
  have skips := quoteEnd_backslash bytes
  have start := aligned.length_eq.1
  induction string generalizing pos with
  | nil =>
    obtain ⟨byte, here, same⟩ : ∃ byte, bytes[pos - base]? = some byte ∧ asChar byte = '"' :=
      aligned.exists_ascii rfl (by decide)
    rw [quoteEnd, if_pos (lt_of_getElem? here), byteAt_of_getElem? here]
    simp only [same]
    rfl
  | @escaped ch rest behind ih =>
    have one : '\\'.utf8Size = 1 := rfl
    have next : Aligned bytes base ⟨pos + 1 + ch.utf8Size, rest ++ '"' :: after⟩ := aligned.of_le ⟨['\\', ch], rfl, by
      simp [Nat.add_assoc, Char.utf8Size]⟩
    have onward := ih next next.length_eq.1
    simp only at start
    rw [List.cons_append, List.cons_append] at aligned
    rw [passes_escaped passing wide skips aligned, onward]
    simp only [byteLength_cons, one, Except.ok.injEq, Option.some.injEq]
    omega
  | @plain ch rest slash quote feed behind ih =>
    have next : Aligned bytes base ⟨pos + ch.utf8Size, rest ++ '"' :: after⟩ := aligned.of_le ⟨[ch], rfl, by simp⟩
    have onward := ih next next.length_eq.1
    simp only at start
    rw [List.cons_append] at aligned
    have passed : quoteEnd bytes (pos - base) = quoteEnd bytes (pos + ch.utf8Size - base) :=
      passes_char passing wide aligned rfl ⟨slash, quote, feed⟩
    rw [passed, onward]
    simp only [byteLength_cons, Except.ok.injEq, Option.some.injEq]
    omega

theorem quotedLength_of_lineString (string : LineString inside) (after : List Char) :
    quotedLength ('"' :: (inside ++ '"' :: after)) = .ok (some (byteLength inside + 2)) := by
  have found := quoteEnd_eq string (aligned_quote (inside ++ '"' :: after))
  rw [quotedLength, found]
  simp only [Except.ok.injEq, Option.some.injEq]
  omega

/-- Looking ahead always has an answer: the length of a string that is closed on its line, or that there is none. -/
theorem quotedLength_cases (text : List Char) :
    (∃ inside after, text = inside ++ '"' :: after ∧ LineString inside ∧
        quotedLength ('"' :: text) = .ok (some (byteLength inside + 2)) ∧ SigilTemplate.closesOnLine text = true) ∨
      (quotedLength ('"' :: text) = .ok none ∧ SigilTemplate.closesOnLine text = false) := by
  have asked : closesOnLine (encode ('"' :: text)) 1 = .ok (SigilTemplate.closesOnLine text) :=
    closesOnLine_eq (aligned_quote text)
  cases closes : SigilTemplate.closesOnLine text with
  | true =>
    obtain ⟨inside, after, rfl, string⟩ := exists_lineString closes
    exact .inl ⟨inside, after, rfl, string, quotedLength_of_lineString string after, rfl⟩
  | false =>
    rw [closesOnLine_eq_map, closes] at asked
    refine .inr ⟨?_, rfl⟩
    rw [quotedLength]
    revert asked
    cases quoteEnd (encode ('"' :: text)) 1 with
    | error breach => simp [Except.map]
    | ok answer => cases answer <;> simp [Except.map]

end Bytes

/-! ## Reading on -/

/-- The place behind a unit. -/
def Cursor.behind (c : Cursor) (unit : TextUnit) : Cursor := ⟨c.pos + byteLength (escape unit.content), unit.rest⟩

/-- A run that has come to a place with a state comes by another place, with the content on the way and the state there. -/
inductive Passes (mode : TextMode) : TextState → Cursor → List Char → TextState → Cursor → Prop
  | stay (state : TextState) (c : Cursor) : Passes mode state c [] state c
  | unit {state last : TextState} {c d : Cursor} {unit : TextUnit} {content : List Char}
      (found : textUnit? mode state c.rest = some unit) (onward : Passes mode unit.state (c.behind unit) content last d) :
      Passes mode state c (unit.content ++ content) last d

theorem reads_behind {unit : TextUnit} (found : textUnit? mode state c.rest = some unit) :
    c.Reads (escape unit.content) (c.behind unit) :=
  ⟨(textUnit?_spec found).2, rfl⟩

theorem Passes.reads (passes : Passes mode state c content between d) : c.Reads (escape content) d := by
  induction passes with
  | stay => exact .refl _
  | unit found onward ih =>
    rw [escape_append]
    exact (reads_behind found).trans ih

/-- A run is at each place that it comes by as if it had been read from there, with the content so far. -/
theorem Passes.textRunFrom_eq (passes : Passes mode state c content between d) (front : List Char) :
    textRunFrom mode state front c.pos c.rest = textRunFrom mode between (content.reverse ++ front) d.pos d.rest := by
  induction passes generalizing front with
  | stay => rfl
  | unit found onward ih =>
    rw [textRunFrom_of_some found, List.reverse_append, List.append_assoc]
    exact ih _

/-- A run that goes on from a place takes the unit that stands there. -/
theorem Passes.stays_or {unit : TextUnit} (passes : Passes mode state c content between d)
    (found : textUnit? mode state c.rest = some unit) :
    between = state ∧ d = c ∨ ∃ later, Passes mode unit.state (c.behind unit) later between d := by
  cases passes with
  | stay => exact .inl ⟨rfl, rfl⟩
  | unit other onward =>
    obtain rfl := Option.some.inj (found.symm.trans other)
    exact .inr ⟨_, onward⟩

/-- A string goes on from a place: what is ahead of its closing quote, behind which is `d`. -/
structure StringAhead (inside : List Char) (c d : Cursor) : Prop where
  reads : c.Reads (inside ++ ['"']) d
  string : LineString inside
  sigils : PairedSigils inside
  plain : ¬HoldsTag inside

theorem opensTag_append_quote (text after : List Char) : opensTag (text ++ '"' :: after) = opensTag text := by
  cases text with
  | nil => rfl
  | cons ch rest => rfl

/-- No tag starts across a quote. -/
theorem closesTag_append_quote (text after : List Char) : closesTag (text ++ '"' :: after) = closesTag text := by
  cases text with
  | nil => rfl
  | cons ch rest =>
    by_cases slash : ch = '/'
    · subst slash
      exact opensTag_append_quote rest after
    · simp [closesTag, slash]

/-- What is behind a unit inside a string is the rest of the string. -/
theorem StringAhead.behind {unit : TextUnit} (ahead : StringAhead inside c d)
    (found : textUnit? mode state c.rest = some unit) (split : inside = escape unit.content ++ rest)
    (string : LineString rest) (sigils : PairedSigils rest) : StringAhead rest (c.behind unit) d where
  reads := by
    have whole := ahead.reads
    rw [split, List.append_assoc] at whole
    exact whole.cancel_left (reads_behind found)
  string := string
  sigils := sigils
  plain := by
    rintro ⟨before, after, rfl, tag⟩
    exact ahead.plain ⟨escape unit.content ++ before, after, by rw [split, List.append_assoc], tag⟩

theorem textUnit?_string (within : state.inString = true) (sigil : ch ≠ '@')
    (tag : ¬(ch = '<' ∧ (opensTag rest = true ∨ closesTag rest = true))) :
    textUnit? mode state (ch :: rest) = some (stringUnit state ch rest) :=
  textUnit?_eq_some_iff.mpr (.inr ⟨sigil, tag, .inl ⟨within, rfl⟩⟩)

theorem StringAhead.rest_eq (ahead : StringAhead inside c d) : c.rest = inside ++ '"' :: d.rest := by
  rw [ahead.reads.rest_eq, List.append_assoc]
  rfl

/-- The next unit stays inside a string, and takes some of what is ahead in it. -/
def StringAhead.Stays (mode : TextMode) (state : TextState) (inside : List Char) (c d : Cursor) : Prop :=
  ∃ unit, textUnit? mode state c.rest = some unit ∧ unit.state = state ∧
    ∃ rest, rest.length < inside.length ∧ StringAhead rest (c.behind unit) d

/-- A character behind a backslash is taken with it, unless it is a sigil: then the backslash stands for itself, and the
sigil is the first of a pair. -/
theorem StringAhead.stays_escaped (mode : TextMode) (ahead : StringAhead ('\\' :: ch :: rest) c d)
    (within : state.inString = true) (behind : LineString rest) : Stays mode state ('\\' :: ch :: rest) c d := by
  have unit : textUnit? mode state c.rest = some (stringUnit state '\\' (ch :: (rest ++ '"' :: d.rest))) := by
    rw [ahead.rest_eq]
    exact textUnit?_string within (by decide) (by simp)
  cases ahead.sigils with
  | other _ sigils =>
    by_cases sigil : ch = '@'
    · subst sigil
      have found : textUnit? mode state c.rest = some ⟨['\\'], state, '@' :: (rest ++ '"' :: d.rest)⟩ := unit
      have string : LineString ('@' :: rest) := .plain (by decide) (by decide) (by decide) behind
      exact ⟨_, found, rfl, '@' :: rest, by simp, ahead.behind found rfl string sigils⟩
    · have found : textUnit? mode state c.rest = some ⟨['\\', ch], state, rest ++ '"' :: d.rest⟩ := by
        rw [unit, stringUnit, if_neg (by decide), if_pos rfl]
        exact congrArg some (if_neg sigil)
      have paired : PairedSigils rest := by
        cases sigils with
        | pair => exact absurd rfl sigil
        | other _ paired => exact paired
      have split : '\\' :: ch :: rest = escape ['\\', ch] ++ rest := by
        rw [escape_cons, escape_singleton (by decide), escape_singleton sigil]
        rfl
      refine ⟨_, found, rfl, rest, ?_, ahead.behind found split behind paired⟩
      simp only [List.length_cons]
      omega

/-- A sigil is taken with the one it is paired with, and any other plain character by itself. -/
theorem StringAhead.stays_plain (mode : TextMode) (ahead : StringAhead (ch :: rest) c d) (within : state.inString = true)
    (slash : ch ≠ '\\') (quote : ch ≠ '"') (feed : ch ≠ '\n') (behind : LineString rest) :
    Stays mode state (ch :: rest) c d := by
  cases ahead.sigils with
  | @pair rest sigils =>
    have found : textUnit? mode state c.rest = some ⟨['@'], state, rest ++ '"' :: d.rest⟩ := by
      rw [ahead.rest_eq]
      rfl
    have string : LineString rest := by
      cases behind with
      | plain _ _ _ string => exact string
    refine ⟨_, found, rfl, rest, ?_, ahead.behind found rfl string sigils⟩
    simp only [List.length_cons]
    omega
  | other sigil sigils =>
    have tag := (not_or.mp (mt holdsTag_cons_iff.mpr ahead.plain)).1
    have found : textUnit? mode state c.rest = some ⟨[ch], state, rest ++ '"' :: d.rest⟩ := by
      rw [ahead.rest_eq, List.cons_append, textUnit?_string within sigil
        (by rwa [opensTag_append_quote, closesTag_append_quote])]
      simp [stringUnit, slash, quote, feed]
    have split : ch :: rest = escape [ch] ++ rest := by
      rw [escape_singleton sigil]
      rfl
    exact ⟨_, found, rfl, rest, Nat.lt_succ_self _, ahead.behind found split behind sigils⟩

/-- Inside a string, the next unit closes it or stays inside it. -/
theorem StringAhead.step (mode : TextMode) (ahead : StringAhead inside c d) (within : state.inString = true) :
    (∃ unit, textUnit? mode state c.rest = some unit ∧ unit.state = state.withString false ∧ c.behind unit = d) ∨
      Stays mode state inside c d := by
  cases ahead.string with
  | nil =>
    have found : textUnit? mode state c.rest = some ⟨['"'], state.withString false, d.rest⟩ := by
      rw [ahead.rest_eq, List.nil_append, textUnit?_string within (by decide) (by simp)]
      rfl
    exact .inl ⟨_, found, rfl, Cursor.reads_unique (reads_behind found) ahead.reads⟩
  | escaped _ behind => exact .inr (ahead.stays_escaped mode within behind)
  | plain slash quote feed behind => exact .inr (ahead.stays_plain mode within slash quote feed behind)

/-- Through a string, a run stays inside it up to the closing quote and is outside behind it. -/
theorem StringAhead.passes (mode : TextMode) (ahead : StringAhead inside c d) (within : state.inString = true) :
    (∃ content, Passes mode state c content (state.withString false) d) ∧
      ∀ content between e, Passes mode state c content between e → e.pos < d.pos → between = state := by
  -- By what is ahead in the string: each unit leaves less of it.
  induction length : inside.length using Nat.strongRecOn generalizing inside c with
  | ind n ih =>
    obtain ⟨unit, found, leaves, last⟩ | ⟨unit, found, stays, rest, shorter, onward⟩ := ahead.step mode within
    · constructor
      · refine ⟨unit.content ++ [], .unit found ?_⟩
        rw [leaves, last]
        exact .stay _ _
      · intro content between e passes before
        obtain ⟨same, _⟩ | ⟨later, further⟩ := passes.stays_or found
        · exact same
        · rw [last] at further
          exact absurd (Cursor.pos_le (Cursor.le_of_reads further.reads)) (Nat.not_le_of_gt before)
    · obtain ⟨⟨content, reaches⟩, inner⟩ := ih _ (length ▸ shorter) onward rfl
      constructor
      · refine ⟨unit.content ++ content, .unit found ?_⟩
        rwa [stays]
      · intro content between e passes before
        obtain ⟨same, _⟩ | ⟨later, further⟩ := passes.stays_or found
        · exact same
        · rw [stays] at further
          exact inner _ _ _ further before

/-! ## Both together -/

/-- In front of another character, sigils are paired among themselves. -/
theorem PairedSigils.of_append (paired : PairedSigils (text ++ rest)) (ends : rest.head? ≠ some '@') : PairedSigils text := by
  generalize whole : text ++ rest = all at paired
  induction paired generalizing text with
  | nil =>
    rw [(List.append_eq_nil_iff.mp whole).1]
    exact .nil
  | pair behind ih =>
    match text with
    | [] => exact .nil
    | [first] =>
      obtain ⟨_, rfl⟩ := List.cons.inj whole
      exact absurd rfl ends
    | first :: second :: text =>
      obtain ⟨rfl, later⟩ := List.cons.inj whole
      obtain ⟨rfl, onward⟩ := List.cons.inj later
      exact .pair (ih onward)
  | other plain behind ih =>
    match text with
    | [] => exact .nil
    | first :: text =>
      obtain ⟨rfl, onward⟩ := List.cons.inj whole
      exact .other plain (ih onward)

theorem HoldsTag.mem (holds : HoldsTag text) : '<' ∈ text := by
  obtain ⟨before, after, rfl, _⟩ := holds
  simp

theorem HoldsTag.append_quote (holds : HoldsTag text) (rest : List Char) : HoldsTag (text ++ '"' :: rest) := by
  obtain ⟨before, after, rfl, tag⟩ := holds
  exact ⟨before, after ++ '"' :: rest, by simp, by rwa [opensTag_append_quote, closesTag_append_quote]⟩

/-- Outside strings, a quote opens one just where it is closed on its line. -/
theorem textUnit?_quote (outside : state.inString = false) (rest : List Char) :
    textUnit? .arm state ('"' :: rest) = some ⟨['"'], if closesOnLine rest then state.withString true else state, rest⟩ := by
  simp [textUnit?, outside, plainState?, armState?]

/-- The place behind a string that is closed on its line, and how a run that has opened the string comes there. -/
theorem passes_string (starts : c.rest = '"' :: (inside ++ '"' :: after)) (string : LineString inside)
    (closes : closesOnLine (inside ++ '"' :: after) = true) (outside : state.inString = false)
    (reads : c.Reads ('"' :: (inside ++ ['"'])) d) (sigils : PairedSigils ('"' :: (inside ++ ['"'])))
    (plain : ¬HoldsTag ('"' :: (inside ++ ['"']))) :
    (∃ content, Passes .arm state c content state d) ∧
      ∀ content between e, Passes .arm state c content between e → c.pos < e.pos → e.pos < d.pos →
        between = state.withString true := by
  have found : textUnit? .arm state c.rest = some ⟨['"'], state.withString true, inside ++ '"' :: after⟩ := by
    rw [starts, textUnit?_quote outside, if_pos closes]
  have paired : PairedSigils inside := by
    cases sigils with
    | other _ behind => exact behind.of_append (by decide)
  have whole : c.Reads (escape ['"'] ++ (inside ++ ['"'])) d := reads
  have ahead : StringAhead inside (c.behind ⟨['"'], state.withString true, inside ++ '"' :: after⟩) d :=
    ⟨whole.cancel_left (reads_behind found), string, paired, fun holds => plain ((holds.append_quote []).cons '"')⟩
  have left : (state.withString true).withString false = state := by
    rw [← outside]
    rfl
  have within : (state.withString true).inString = true := rfl
  obtain ⟨⟨content, reaches⟩, inner⟩ := ahead.passes .arm within
  rw [left] at reaches
  refine ⟨⟨_, .unit found reaches⟩, ?_⟩
  intro content between e passes after before
  obtain ⟨_, rfl⟩ | ⟨later, further⟩ := passes.stays_or found
  · exact absurd after (Nat.lt_irrefl _)
  · exact inner _ _ _ further before

/-- Looking ahead and reading on agree on strings. In the inline body of an arm and outside strings, looking ahead from a
quote always has an answer. If it is a length, and in the text of that length all sigils are paired and no tag starts, then
one run goes on at least so far, is inside the string all the way, and has left it at its end with the delimiters that
were open before. If there is no length, the quote is a character like others. -/
theorem textRun_arm_string {source : List Char} (place : Cursor.ofText source ≤ c) (quote : c.peek = some '"')
    (outside : state.inString = false) :
    ∃ answer, Bytes.quotedLength c.rest = .ok answer ∧
      (∀ n, answer = some n → ∃ part d, slice? source ⟨c.pos, c.pos + n⟩ = some part ∧ c.Reads part d ∧ d.pos = c.pos + n ∧
        (PairedSigils part → ¬HoldsTag part →
          (∃ content, Passes .arm state c content state d ∧
            textRun .arm state c = textRunFrom .arm state content.reverse d.pos d.rest) ∧
          d ≤ (textRun .arm state c).after ∧
          ∀ content between e, Passes .arm state c content between e → c.pos < e.pos → e.pos < c.pos + n →
            between = state.withString true)) ∧
      (answer = none → textUnit? .arm state c.rest = some ⟨['"'], state, c.next.rest⟩) := by
  obtain ⟨text, starts⟩ := Cursor.peek_eq_some.mp quote
  rcases Bytes.quotedLength_cases text with ⟨inside, after, rfl, string, length, closes⟩ | ⟨none, unclosed⟩
  · refine ⟨_, by rw [starts, length], ?_, by simp⟩
    rintro n ⟨⟩
    have one : '"'.utf8Size = 1 := rfl
    have reads : c.Reads ('"' :: (inside ++ ['"'])) ⟨c.pos + (byteLength inside + 2), after⟩ := by
      constructor
      · simp [starts]
      · simp only [byteLength_cons, byteLength_append, byteLength_nil, one]
        omega
    have part := Cursor.slice?_spanTo place (Cursor.le_of_reads reads)
    rw [reads.textTo_eq] at part
    refine ⟨_, _, part, reads, rfl, ?_⟩
    intro sigils plain
    obtain ⟨⟨content, passes⟩, inner⟩ := passes_string starts string closes outside reads sigils plain
    have run : textRun .arm state c = textRunFrom .arm state content.reverse (c.pos + (byteLength inside + 2)) after := by
      have onward := passes.textRunFrom_eq []
      rwa [List.append_nil] at onward
    obtain ⟨more, _, further⟩ := reads_textRunFrom .arm state content.reverse (c.pos + (byteLength inside + 2)) after
    refine ⟨⟨content, passes, run⟩, ?_, inner⟩
    rw [run]
    exact Cursor.le_of_reads further
  · refine ⟨_, by rw [starts, none], by simp, ?_⟩
    intro _
    rw [starts, textUnit?_quote outside, unclosed]
    simp [Cursor.next, starts]

/-- Inside an open parenthesis: a string with a comma, a bracket, an escaped quote, and a backslash in front of a doubled
sigil. -/
theorem textRun_arm_string_sample :
    ∃ source c, source = "x (\"a, [\\\"@@é\\@@\", b".toList ∧ c = ⟨3, source.drop 3⟩ ∧ Cursor.ofText source ≤ c ∧
      c.peek = some '"' ∧ Bytes.quotedLength c.rest = .ok (some 15) ∧
      ∃ d, d.pos = 18 ∧ (∃ content, Passes .arm ⟨[')'], false⟩ c content ⟨[')'], false⟩ d) ∧
        d ≤ (textRun .arm ⟨[')'], false⟩ c).after := by
  have place : Cursor.ofText "x (\"a, [\\\"@@é\\@@\", b".toList ≤ ⟨3, "\"a, [\\\"@@é\\@@\", b".toList⟩ :=
    ⟨"x (".toList, by decide, by decide⟩
  have length : Bytes.quotedLength "\"a, [\\\"@@é\\@@\", b".toList = .ok (some 15) := by cbv
  have outside : (⟨[')'], false⟩ : TextState).inString = false := rfl
  obtain ⟨answer, found, closed, _⟩ := textRun_arm_string place rfl outside
  obtain rfl : answer = some 15 := Except.ok.inj (found.symm.trans length)
  obtain ⟨part, d, slice, _, pos, agree⟩ := closed 15 rfl
  obtain rfl : part = escape "\"a, [\\\"@é\\@\"".toList := Option.some.inj (slice.symm.trans (by decide))
  have sigils : PairedSigils (escape "\"a, [\\\"@é\\@\"".toList) := pairedSigils_iff.mpr ⟨_, rfl⟩
  have plain : ¬HoldsTag (escape "\"a, [\\\"@é\\@\"".toList) := fun holds => absurd holds.mem (by decide)
  obtain ⟨⟨content, passes, _⟩, reached, _⟩ := agree sigils plain
  exact ⟨_, ⟨3, "\"a, [\\\"@@é\\@@\", b".toList⟩, rfl, rfl, place, rfl, length, d, pos, ⟨content, passes⟩, reached⟩

end SigilTemplate
