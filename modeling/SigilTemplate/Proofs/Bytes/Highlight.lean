import SigilTemplate.Diagnostic.Highlight
import SigilTemplate.Proofs.Bytes.Access

/-!
Colours by index. A round looks at the characters of a line from an index on,
copies what it passes to the painted text and moves the index behind it. The
index never leaves the line, no piece is cut outside of it, and every round
moves on, so the line is painted as it is by its pieces.
-/

namespace SigilTemplate.Bytes
open Text Highlight

section

variable (chars : List Char)

def charAt (i : Nat) : Checked Char :=
  match chars[i]? with
  | some ch => .ok ch
  | none => .error (.index i)

/-- The characters between two indices. -/
def cut (start stop : Nat) : Checked (List Char) :=
  if start ≤ stop ∧ stop ≤ chars.length then .ok ((chars.drop start).take (stop - start)) else .error (.piece ⟨start, stop⟩)

/-- The index of the next `*@`, or of the end. -/
def commentClose (i : Nat) : Checked Nat :=
  if i < chars.length then do
    let ch ← charAt chars i
    if ch = '*' ∧ chars[i + 1]? = some '@' then pure i else commentClose (i + 1)
  else pure i
termination_by chars.length - i

/-- Copies characters while they are of a kind. -/
def copyWhile (kind : Char → Bool) (painted : List Char) (i : Nat) : Checked (List Char × Nat) :=
  if i < chars.length then do
    let ch ← charAt chars i
    if kind ch then copyWhile kind (painted ++ [ch]) (i + 1) else pure (painted, i)
  else pure (painted, i)
termination_by chars.length - i

/-- Copies the characters of a string up to its closing quote. A backslash takes the next character along. -/
def copyString (painted : List Char) (i : Nat) : Checked (List Char × Nat) :=
  if i < chars.length then do
    let ch ← charAt chars i
    if ch = '"' then pure (painted, i)
    else if ch = '\\' ∧ i + 1 < chars.length then do
      let next ← charAt chars (i + 1)
      copyString (painted ++ [ch] ++ [next]) (i + 2)
    else copyString (painted ++ [ch]) (i + 1)
  else pure (painted, i)
termination_by chars.length - i

/-- The index behind the mark of a tag, which may be that of a closing one. -/
def nameStart (i : Nat) : Nat := if chars[i + 1]? = some '/' then i + 2 else i + 1

/-- One round: what has been painted behind the next piece, and the index there. -/
def paintPiece (painted : List Char) (i : Nat) : Checked (List Char × Nat) := do
  let ch ← charAt chars i
  if ch = '@' ∧ chars[i + 1]? = some '@' then pure (painted ++ ['@', '@'], i + 2)
  else if ch = '@' ∧ chars[i + 1]? = some '*' then do
    let close ← commentClose chars (i + 2)
    let stop := min (close + 2) chars.length
    let comment ← cut chars i stop
    pure (painted ++ Paint.comment.code ++ comment ++ Paint.reset, stop)
  else if ch = '@' then do
    let (painted, i) ← copyWhile chars (fun ch => ch == '#' || ch == '&') (painted ++ Paint.sigil.code ++ ['@']) (i + 1)
    let (painted, i) ← copyWhile chars isWordPart painted i
    pure (painted ++ Paint.reset, i)
  else if ch = '<' ∧ chars[nameStart chars i]?.any Char.isUpper then do
    let mark ← cut chars i (nameStart chars i)
    let (painted, i) ← copyWhile chars isTagPart (painted ++ Paint.tag.code ++ mark) (nameStart chars i)
    pure (painted ++ Paint.reset, i)
  else if ch = '"' then do
    let (painted, i) ← copyString chars (painted ++ Paint.string.code ++ ['"']) (i + 1)
    if i < chars.length then pure (painted ++ ['"'] ++ Paint.reset, i + 1) else pure (painted ++ Paint.reset, i)
  else pure (painted ++ [ch], i + 1)

/-- Paints the line from an index on. A round that does not move on would go on for ever, which is a breach too. -/
def paintFrom (painted : List Char) (i : Nat) : Checked (List Char) :=
  if i < chars.length then do
    let (painted, next) ← paintPiece chars painted i
    if i < next then paintFrom painted next else .error (.index next)
  else pure painted
termination_by chars.length - i

end

/-! ## What is ahead -/

variable {chars rest : List Char} {ch : Char} {i : Nat}

theorem getElem?_ahead (ahead : chars.drop i = rest) (k : Nat) : chars[i + k]? = rest[k]? := by
  rw [← ahead, List.getElem?_drop]

theorem lt_of_ahead (ahead : chars.drop i = ch :: rest) : i < chars.length := by
  have some : chars[i + 0]? = some ch := getElem?_ahead ahead 0
  exact (List.getElem?_eq_some_iff.mp some).1

theorem le_of_ahead_nil (ahead : chars.drop i = []) : chars.length ≤ i := List.drop_eq_nil_iff.mp ahead

theorem drop_ahead (ahead : chars.drop i = rest) (k : Nat) : chars.drop (i + k) = rest.drop k := by
  rw [← ahead, List.drop_drop]

theorem length_ahead (ahead : chars.drop i = rest) (inside : i ≤ chars.length) : chars.length = i + rest.length := by
  rw [← ahead, List.length_drop]
  omega

theorem charAt_ahead (ahead : chars.drop i = ch :: rest) : charAt chars i = .ok ch := by
  have here : chars[i]? = some ch := getElem?_ahead ahead 0
  rw [charAt, here]

theorem cut_ahead (ahead : chars.drop i = rest) (inside : i ≤ chars.length) {k : Nat} (within : k ≤ rest.length) :
    cut chars i (i + k) = .ok (rest.take k) := by
  have length := length_ahead ahead inside
  rw [cut, if_pos ⟨by omega, by omega⟩, ahead, Nat.add_sub_cancel_left]

/-! ## Runs -/

theorem copyWhile_eq (kind : Char → Bool) (ahead : chars.drop i = rest) (painted : List Char) :
    copyWhile chars kind painted i = .ok (painted ++ rest.takeWhile kind, i + (rest.takeWhile kind).length) := by
  induction rest generalizing i painted with
  | nil =>
    have done := le_of_ahead_nil ahead
    rw [copyWhile, if_neg (by omega), List.takeWhile_nil, List.append_nil]
    rfl
  | cons ch rest ih =>
    rw [copyWhile, if_pos (lt_of_ahead ahead), charAt_ahead ahead, ok_bind]
    by_cases here : kind ch = true
    · rw [if_pos here, ih (drop_ahead ahead 1), List.takeWhile_cons_of_pos here, List.length_cons]
      simp [Nat.add_assoc, Nat.add_comm 1]
    · rw [if_neg here, List.takeWhile_cons_of_neg here, List.append_nil]
      rfl

theorem commentClose_eq (ahead : chars.drop i = rest) (inside : i ≤ chars.length) :
    ∃ close, commentClose chars i = .ok close ∧ min (close + 2) chars.length = i + commentLength rest := by
  fun_induction commentLength rest generalizing i with
  | case1 =>
    have done := le_of_ahead_nil ahead
    refine ⟨i, ?_, by omega⟩
    rw [commentClose, if_neg (by omega)]
    rfl
  | case2 rest =>
    have next : chars[i + 1]? = some '@' := getElem?_ahead ahead 1
    have length := length_ahead ahead inside
    simp only [List.length_cons] at length
    refine ⟨i, ?_, by omega⟩
    rw [commentClose, if_pos (lt_of_ahead ahead), charAt_ahead ahead, ok_bind, if_pos ⟨rfl, next⟩]
    rfl
  | case3 ch rest open_ ih =>
    have goes : ¬ (ch = '*' ∧ chars[i + 1]? = some '@') := by
      rintro ⟨rfl, next⟩
      rw [getElem?_ahead ahead 1, List.getElem?_cons_succ, ← List.head?_eq_getElem?] at next
      obtain ⟨more, rfl⟩ := List.head?_eq_some_iff.mp next
      exact open_ more rfl rfl
    obtain ⟨close, found, stop⟩ := ih (drop_ahead ahead 1) (lt_of_ahead ahead)
    refine ⟨close, ?_, by omega⟩
    rw [commentClose, if_pos (lt_of_ahead ahead), charAt_ahead ahead, ok_bind, if_neg goes, found]

/-- Copying stops at the closing quote, or where the line ends without one. -/
theorem copyString_eq (ahead : chars.drop i = rest) (inside : i ≤ chars.length) (painted : List Char) :
    ∃ copied, copyString chars painted i = .ok (painted ++ copied, i + copied.length) ∧
      (rest.take (stringLength rest) = copied ++ ['"'] ∧ i + copied.length < chars.length ∨
        rest.take (stringLength rest) = copied ∧ i + copied.length = chars.length) := by
  fun_induction stringLength rest generalizing i painted with
  | case1 =>
    have done := le_of_ahead_nil ahead
    refine ⟨[], ?_, .inr ⟨rfl, Nat.le_antisymm inside done⟩⟩
    rw [copyString, if_neg (by omega), List.append_nil]
    rfl
  | case2 rest =>
    refine ⟨[], ?_, .inl ⟨rfl, lt_of_ahead ahead⟩⟩
    rw [copyString, if_pos (lt_of_ahead ahead), charAt_ahead ahead, ok_bind, if_pos rfl, List.append_nil]
    rfl
  | case3 escaped rest ih =>
    have later : chars.drop (i + 1) = escaped :: rest := drop_ahead ahead 1
    have more := lt_of_ahead later
    obtain ⟨copied, copies, stops⟩ := ih (drop_ahead ahead 2) more (painted ++ ['\\'] ++ [escaped])
    refine ⟨'\\' :: escaped :: copied, ?_, ?_⟩
    · rw [copyString, if_pos (lt_of_ahead ahead), charAt_ahead ahead, ok_bind, if_neg (by decide), if_pos ⟨rfl, more⟩,
        charAt_ahead later, ok_bind, copies]
      simp [Nat.add_assoc, Nat.add_comm 2]
    · have length : i + ('\\' :: escaped :: copied).length = i + 2 + copied.length := by
        simp only [List.length_cons]
        omega
      rw [length, List.take_succ_cons, List.take_succ_cons, List.cons_append, List.cons_append, List.cons.injEq,
        List.cons.injEq, List.cons.injEq, List.cons.injEq]
      simpa using stops
  | case4 ch rest closes escapes ih =>
    have length := length_ahead ahead inside
    have single : ¬ (ch = '\\' ∧ i + 1 < chars.length) := by
      rintro ⟨rfl, more⟩
      cases rest with
      | nil =>
        rw [List.length_singleton] at length
        omega
      | cons escaped rest => exact escapes escaped rest rfl rfl
    obtain ⟨copied, copies, stops⟩ := ih (drop_ahead ahead 1) (lt_of_ahead ahead) (painted ++ [ch])
    refine ⟨ch :: copied, ?_, ?_⟩
    · rw [copyString, if_pos (lt_of_ahead ahead), charAt_ahead ahead, ok_bind, if_neg closes, if_neg single, copies]
      simp [Nat.add_assoc, Nat.add_comm 1]
    · have length : i + (ch :: copied).length = i + 1 + copied.length := by
        rw [List.length_cons]
        omega
      rw [length, List.take_succ_cons, List.cons_append, List.cons.injEq, List.cons.injEq]
      simpa using stops

theorem take_takeWhile (kind : Char → Bool) (rest : List Char) :
    rest.take (rest.takeWhile kind).length = rest.takeWhile kind :=
  (List.prefix_iff_eq_take.mp (List.takeWhile_prefix kind)).symm

theorem stringLength_le (rest : List Char) : stringLength rest ≤ rest.length := by
  fun_induction stringLength rest <;> simp only [List.length_nil, List.length_cons] <;> omega

/-! ## One round -/

theorem getElem?_next (ahead : chars.drop i = ch :: rest) : chars[i + 1]? = rest.head? := by
  rw [getElem?_ahead ahead 1, List.getElem?_cons_succ, List.head?_eq_getElem?]

theorem paintPiece_escape (ahead : chars.drop i = '@' :: '@' :: rest) (painted : List Char) :
    paintPiece chars painted i = .ok (painted ++ ['@', '@'], i + 2) := by
  have next : chars[i + 1]? = some '@' := getElem?_next ahead
  rw [paintPiece, charAt_ahead ahead, ok_bind, if_pos ⟨rfl, next⟩]
  rfl

theorem paintPiece_comment (ahead : chars.drop i = '@' :: '*' :: rest) (painted : List Char) :
    paintPiece chars painted i =
      .ok (painted ++ (Paint.comment.code ++ '@' :: '*' :: rest.take (commentLength rest) ++ Paint.reset),
        i + (commentLength rest + 2)) := by
  have next : chars[i + 1]? = some '*' := getElem?_next ahead
  have inside : i + 1 < chars.length := lt_of_ahead (drop_ahead ahead 1)
  obtain ⟨close, found, stop⟩ := commentClose_eq (drop_ahead ahead 2) (by omega)
  have length := length_ahead ahead (by omega)
  simp only [List.length_cons] at length
  rw [List.drop_succ_cons, List.drop_succ_cons, List.drop_zero, Nat.add_assoc, Nat.add_comm 2] at stop
  have whole := cut_ahead (k := commentLength rest + 2) ahead (by omega) (by simp only [List.length_cons]; omega)
  rw [paintPiece, charAt_ahead ahead, ok_bind, if_neg (by simp [next]), if_pos ⟨rfl, next⟩, found, ok_bind]
  simp only [stop, whole, ok_bind, List.take_succ_cons]
  rw [List.append_assoc, List.append_assoc, List.append_assoc]
  rfl

/-- Two runs, one behind the other. -/
theorem take_runs (first second : Char → Bool) (rest : List Char) :
    rest.take ((rest.takeWhile first).length + ((rest.drop (rest.takeWhile first).length).takeWhile second).length) =
      rest.takeWhile first ++ (rest.drop (rest.takeWhile first).length).takeWhile second := by
  rw [List.take_add, take_takeWhile, take_takeWhile]

theorem paintPiece_sigil (ahead : chars.drop i = '@' :: rest) (escape : rest.head? ≠ some '@')
    (comment : rest.head? ≠ some '*') (painted : List Char) :
    paintPiece chars painted i =
      .ok (painted ++ (Paint.sigil.code ++ '@' :: rest.take (sigilLength rest) ++ Paint.reset),
        i + (sigilLength rest + 1)) := by
  have next := getElem?_next ahead
  have behind : chars.drop (i + 1) = rest := drop_ahead ahead 1
  have marks := copyWhile_eq (fun ch => ch == '#' || ch == '&') behind
  have word := copyWhile_eq isWordPart (drop_ahead behind (rest.takeWhile fun ch => ch == '#' || ch == '&').length)
  rw [paintPiece, charAt_ahead ahead, ok_bind, if_neg (by simp [next, escape]), if_neg (by simp [next, comment]),
    if_pos rfl, marks, ok_bind]
  simp only [word, ok_bind, sigilLength, take_runs]
  simp [pure, Except.pure, Nat.add_assoc, Nat.add_comm 1]

theorem nameStart_opens (ahead : chars.drop i = ch :: rest) (opens : opensTag rest = true) :
    nameStart chars i = i + 1 := by
  rw [nameStart, getElem?_next ahead, if_neg]
  intro slash
  rw [opensTag, slash] at opens
  exact absurd opens (by decide)

theorem nameStart_closes (ahead : chars.drop i = ch :: '/' :: rest) : nameStart chars i = i + 2 := by
  rw [nameStart, getElem?_next ahead]
  exact if_pos rfl

theorem exists_of_closesTag (closes : closesTag rest = true) : ∃ more, rest = '/' :: more := by
  unfold closesTag at closes
  split at closes
  · exact ⟨_, rfl⟩
  · exact absurd closes (by decide)

/-- One look behind the mark tells whether a component tag opens or closes. -/
theorem any_isUpper_eq (ahead : chars.drop i = ch :: rest) :
    chars[nameStart chars i]?.any Char.isUpper = (opensTag rest || closesTag rest) := by
  by_cases slash : rest.head? = some '/'
  · obtain ⟨more, rfl⟩ := List.head?_eq_some_iff.mp slash
    have name : chars[i + 2]? = more.head? := by
      rw [getElem?_ahead ahead 2, List.head?_eq_getElem?]
      rfl
    rw [nameStart_closes ahead, name]
    rfl
  · have none : closesTag rest = false := by
      by_contra closes
      obtain ⟨more, rfl⟩ := exists_of_closesTag (eq_true_of_ne_false closes)
      exact slash rfl
    rw [nameStart, getElem?_next ahead, if_neg slash, getElem?_next ahead, none, Bool.or_false, opensTag]

theorem paintPiece_tag (size : Nat) (ahead : chars.drop i = '<' :: rest) (tag : (opensTag rest || closesTag rest) = true)
    (start : nameStart chars i = i + 1 + size) (within : size ≤ rest.length) (painted : List Char) :
    paintPiece chars painted i =
      .ok (painted ++ (Paint.tag.code ++ '<' :: rest.take (size + ((rest.drop size).takeWhile isTagPart).length) ++
          Paint.reset), i + (size + ((rest.drop size).takeWhile isTagPart).length + 1)) := by
  have behind : chars.drop (i + 1) = rest := drop_ahead ahead 1
  have name := copyWhile_eq isTagPart (drop_ahead behind size)
  have mark := cut_ahead (k := size + 1) ahead (Nat.le_of_lt (lt_of_ahead ahead)) (Nat.succ_le_succ within)
  have stop : i + (size + 1) = i + 1 + size := by omega
  rw [stop, List.take_succ_cons] at mark
  rw [paintPiece, charAt_ahead ahead, ok_bind, if_neg (by simp), if_neg (by simp), if_neg (by decide),
    any_isUpper_eq ahead, if_pos ⟨rfl, tag⟩, start, mark, ok_bind, name, ok_bind]
  rw [List.take_add, take_takeWhile]
  simp [pure, Except.pure, Nat.add_assoc, Nat.add_comm 1]

theorem paintPiece_string (ahead : chars.drop i = '"' :: rest) (painted : List Char) :
    paintPiece chars painted i =
      .ok (painted ++ (Paint.string.code ++ '"' :: rest.take (stringLength rest) ++ Paint.reset),
        i + (stringLength rest + 1)) := by
  have behind : chars.drop (i + 1) = rest := drop_ahead ahead 1
  have inside := lt_of_ahead ahead
  obtain ⟨copied, copies, stops⟩ := copyString_eq behind inside (painted ++ Paint.string.code ++ ['"'])
  have size := List.length_take_of_le (stringLength_le rest)
  rw [paintPiece, charAt_ahead ahead, ok_bind, if_neg (by simp), if_neg (by simp), if_neg (by decide),
    if_neg (by simp), if_pos rfl, copies, ok_bind]
  simp only
  rcases stops with ⟨taken, closed⟩ | ⟨taken, ended⟩
  · rw [taken, List.length_append, List.length_singleton] at size
    rw [if_pos closed, taken, ← size]
    simp [pure, Except.pure, Nat.add_assoc, Nat.add_comm 1]
  · rw [taken] at size
    rw [if_neg (by omega), taken, ← size]
    simp [pure, Except.pure, Nat.add_assoc, Nat.add_comm 1]

theorem paintPiece_plain (ahead : chars.drop i = ch :: rest) (sigil : ch ≠ '@') (quote : ch ≠ '"')
    (tag : ¬ (ch = '<' ∧ (opensTag rest || closesTag rest) = true)) (painted : List Char) :
    paintPiece chars painted i = .ok (painted ++ [ch], i + 1) := by
  rw [paintPiece, charAt_ahead ahead, ok_bind, if_neg (by simp [sigil]), if_neg (by simp [sigil]), if_neg sigil,
    any_isUpper_eq ahead, if_neg tag, if_neg quote]
  rfl

/-- A round paints the next piece. -/
theorem paintPiece_eq (ahead : chars.drop i = ch :: rest) (painted : List Char) :
    paintPiece chars painted i =
      .ok (painted ++ Piece.painted ⟨(lead ch rest).1, ch :: rest.take (lead ch rest).2⟩, i + ((lead ch rest).2 + 1)) := by
  unfold lead
  split
  · next sigil =>
    subst sigil
    split
    · next more => exact paintPiece_escape ahead painted
    · next more => exact paintPiece_comment ahead painted
    · next escape comment =>
      refine paintPiece_sigil ahead ?_ ?_ painted
      · intro head
        obtain ⟨more, rfl⟩ := List.head?_eq_some_iff.mp head
        exact escape more rfl
      · intro head
        obtain ⟨more, rfl⟩ := List.head?_eq_some_iff.mp head
        exact comment more rfl
  · next sigil =>
    split
    · next opens =>
      obtain ⟨rfl, opens⟩ := opens
      have round := paintPiece_tag 0 ahead (by rw [opens, Bool.true_or]) (nameStart_opens ahead opens)
        (Nat.zero_le _) painted
      rw [Nat.zero_add, List.drop_zero] at round
      exact round
    · next opens =>
      split
      · next closes =>
        obtain ⟨rfl, closes⟩ := closes
        obtain ⟨more, rfl⟩ := exists_of_closesTag closes
        have round := paintPiece_tag 1 ahead (by rw [closes, Bool.or_true]) (nameStart_closes ahead)
          (Nat.succ_le_succ (Nat.zero_le _)) painted
        rw [Nat.add_comm 1] at round
        exact round
      · next closes =>
        split
        · next quote =>
          subst quote
          exact paintPiece_string ahead painted
        · next quote =>
          refine paintPiece_plain ahead sigil quote ?_ painted
          rintro ⟨rfl, tag⟩
          rcases Bool.or_eq_true_iff.mp tag with first | second
          · exact opens ⟨rfl, first⟩
          · exact closes ⟨rfl, second⟩

/-- Painting a line by index is never a breach and never without an end, and gives the line with its colours. -/
theorem paintFrom_eq (ahead : chars.drop i = rest) (painted : List Char) :
    paintFrom chars painted i = .ok (painted ++ highlight rest) := by
  -- By what is ahead: a piece takes at least its first character.
  induction length : rest.length using Nat.strongRecOn generalizing rest i painted with
  | ind n ih =>
    cases rest with
    | nil =>
      have done := le_of_ahead_nil ahead
      rw [paintFrom, if_neg (by omega), highlight, pieces, List.flatMap_nil, List.append_nil]
      rfl
    | cons ch rest =>
      rw [List.length_cons] at length
      have behind : chars.drop (i + ((lead ch rest).2 + 1)) = rest.drop (lead ch rest).2 := drop_ahead ahead _
      have onward := ih _ (by rw [List.length_drop]; omega) behind
        (painted ++ Piece.painted ⟨(lead ch rest).1, ch :: rest.take (lead ch rest).2⟩) rfl
      rw [paintFrom, if_pos (lt_of_ahead ahead), paintPiece_eq ahead, ok_bind]
      simp only
      rw [if_pos (by omega), onward, highlight, highlight, pieces, List.flatMap_cons, List.append_assoc]

end SigilTemplate.Bytes
