import SigilTemplate.Proofs.Bytes.Highlight

/-!
What a terminal makes of a painted line. Of a line that brings no codes of its
own it shows exactly the characters, and the codes come in pairs: one that starts
a colour, and the one that ends it. So no colour is left on behind the line, and
none is started inside another.
-/

namespace SigilTemplate

/-- What a terminal reads: a character that it shows, or a code, which goes from an escape character up to and with the
next `m`. -/
inductive Signal where
  | shown (ch : Char)
  | code (text : List Char)
deriving DecidableEq

namespace Signal

def shown? : Signal → Option Char
  | shown ch => some ch
  | code _ => none

def code? : Signal → Option (List Char)
  | shown _ => none
  | code text => some text

end Signal

/-- The signals of a text. A code that does not end takes the rest of the text. -/
def signals (text : List Char) : List Signal :=
  match text with
  | [] => []
  | ch :: rest =>
    if ch = '\x1b' then
      let body := rest.takeWhile (· ≠ 'm')
      .code (ch :: rest.take (body.length + 1)) :: signals (rest.drop (body.length + 1))
    else .shown ch :: signals rest
termination_by text.length
decreasing_by all_goals simp only [List.length_drop, List.length_cons]; omega

/-- A text with its codes deleted. -/
def withoutCodes (text : List Char) : List Char := (signals text).filterMap Signal.shown?

/-- The codes of a text, in order. -/
def codes (text : List Char) : List (List Char) := (signals text).filterMap Signal.code?

/-- The signals of a piece, if its text brings no codes. -/
def Piece.signals (piece : Piece) : List Signal :=
  match piece.paint with
  | none => piece.text.map .shown
  | some paint => .code paint.code :: (piece.text.map .shown ++ [.code Paint.reset])

variable {text line : List Char} {sheet : List Piece}

/-! ## Codes in a text -/

/-- Characters stand for themselves until a code begins. -/
theorem signals_append_of_not_mem (clean : '\x1b' ∉ text) (rest : List Char) :
    signals (text ++ rest) = text.map .shown ++ signals rest := by
  induction text with
  | nil => rfl
  | cons ch text ih =>
    rw [List.mem_cons, not_or] at clean
    rw [List.cons_append, signals, if_neg (Ne.symm clean.1), ih clean.2]
    rfl

/-- A code ends with its first `m`. -/
theorem signals_code (body : List Char) (unended : 'm' ∉ body) (rest : List Char) :
    signals ('\x1b' :: (body ++ 'm' :: rest)) = .code ('\x1b' :: (body ++ ['m'])) :: signals rest := by
  have all : ∀ ch ∈ body, decide (ch ≠ 'm') = true := fun ch among => decide_eq_true (ne_of_mem_of_not_mem among unended)
  have before : (body ++ 'm' :: rest).takeWhile (· ≠ 'm') = body := by
    rw [List.takeWhile_append_of_pos all, List.takeWhile_cons_of_neg (by decide), List.append_nil]
  have split : body ++ 'm' :: rest = (body ++ ['m']) ++ rest := by simp
  have size : body.length + 1 = (body ++ ['m']).length := by simp
  rw [signals, if_pos rfl]
  simp only [before]
  rw [split, size, List.take_left, List.drop_left]

theorem signals_paint (paint : Paint) (rest : List Char) :
    signals (paint.code ++ rest) = .code paint.code :: signals rest := by
  cases paint with
  | tag => exact signals_code "[38;5;180".toList (by decide) rest
  | sigil => exact signals_code "[38;5;173".toList (by decide) rest
  | string => exact signals_code "[38;5;72".toList (by decide) rest
  | comment => exact signals_code "[38;5;243".toList (by decide) rest

theorem signals_reset (rest : List Char) : signals (Paint.reset ++ rest) = .code Paint.reset :: signals rest :=
  signals_code "[0".toList (by decide) rest

theorem Paint.code_ne_reset (paint : Paint) : paint.code ≠ Paint.reset := by
  cases paint <;> decide

/-! ## Pieces -/

/-- A painted piece gives its own signals, whatever is behind it. -/
theorem Piece.signals_append {piece : Piece} (clean : '\x1b' ∉ piece.text) (rest : List Char) :
    SigilTemplate.signals (piece.painted ++ rest) = piece.signals ++ SigilTemplate.signals rest := by
  unfold Piece.painted Piece.signals
  cases piece.paint with
  | none => exact signals_append_of_not_mem clean rest
  | some paint =>
    simp only [List.append_assoc, List.cons_append, List.nil_append]
    rw [signals_paint, signals_append_of_not_mem clean, signals_reset]

theorem signals_flatMap_painted (clean : ∀ piece ∈ sheet, '\x1b' ∉ piece.text) :
    signals (sheet.flatMap Piece.painted) = sheet.flatMap Piece.signals := by
  induction sheet with
  | nil => rw [List.flatMap_nil, signals, List.flatMap_nil]
  | cons piece sheet ih =>
    rw [List.forall_mem_cons] at clean
    rw [List.flatMap_cons, List.flatMap_cons, Piece.signals_append clean.1, ih clean.2]

theorem Piece.filterMap_shown?_signals (piece : Piece) : piece.signals.filterMap Signal.shown? = piece.text := by
  have shown (text : List Char) : (text.map Signal.shown).filterMap Signal.shown? = text := by
    rw [List.filterMap_map]
    exact List.filterMap_some
  unfold Piece.signals
  cases piece.paint with
  | none => exact shown piece.text
  | some paint =>
    simp only [List.filterMap_cons, List.filterMap_append, shown, List.filterMap_nil, Signal.shown?, List.append_nil]

theorem Piece.filterMap_code?_signals (piece : Piece) :
    piece.signals.filterMap Signal.code? = piece.paint.toList.flatMap fun paint => [paint.code, Paint.reset] := by
  have silent (text : List Char) : (text.map Signal.shown).filterMap Signal.code? = [] := by
    rw [List.filterMap_map]
    exact List.filterMap_eq_nil_iff.mpr fun _ _ => rfl
  unfold Piece.signals
  cases piece.paint with
  | none => exact silent piece.text
  | some paint => simp [Signal.code?, silent]

/-! ## Lines -/

/-- The pieces of a line hold nothing but the characters of the line. -/
theorem not_mem_of_mem_pieces {ch : Char} (clean : ch ∉ line) : ∀ piece ∈ Highlight.pieces line, ch ∉ piece.text := by
  intro piece among inside
  apply clean
  rw [← Highlight.flatMap_pieces line]
  exact List.mem_flatMap.mpr ⟨piece, among, inside⟩

/-- The signals of a painted line are those of its pieces. -/
theorem signals_highlight (clean : '\x1b' ∉ line) :
    signals (highlight line) = (Highlight.pieces line).flatMap Piece.signals :=
  signals_flatMap_painted (not_mem_of_mem_pieces clean)

theorem withoutCodes_highlight (clean : '\x1b' ∉ line) : withoutCodes (highlight line) = line := by
  rw [withoutCodes, signals_highlight clean, List.filterMap_flatMap]
  simp only [Piece.filterMap_shown?_signals]
  exact Highlight.flatMap_pieces line

theorem codes_highlight (clean : '\x1b' ∉ line) :
    codes (highlight line) =
      ((Highlight.pieces line).flatMap (·.paint.toList)).flatMap fun paint => [paint.code, Paint.reset] := by
  rw [codes, signals_highlight clean, List.filterMap_flatMap, List.flatMap_assoc]
  simp only [Piece.filterMap_code?_signals]

/-- Painting only adds colour. Going over a line by index is never a breach; a line without codes is given back when the
codes are deleted; and the codes come in pairs, first one that starts a colour and then the one, different from all of
those, that ends it. -/
theorem highlight_adds_colour (clean : '\x1b' ∉ line) :
    Bytes.paintFrom line [] 0 = .ok (highlight line) ∧ withoutCodes (highlight line) = line ∧
      ∃ paints : List Paint, codes (highlight line) = (paints.flatMap fun paint => [paint.code, Paint.reset]) ∧
        ∀ paint ∈ paints, paint.code ≠ Paint.reset := by
  have ahead : line.drop 0 = line := List.drop_zero
  have byIndex : Bytes.paintFrom line [] 0 = .ok (highlight line) := Bytes.paintFrom_eq ahead []
  exact ⟨byIndex, withoutCodes_highlight clean, _, codes_highlight clean, fun paint _ => paint.code_ne_reset⟩

/-- A doubled sigil, a tag, a string with a quote in it, a sigil with its marks and a comment that the line does not close. -/
theorem highlight_adds_colour_open : ∃ line, line = "@@é</Card \"a\\\"\" @&x_1 @* m".toList ∧ '\x1b' ∉ line ∧
    Bytes.paintFrom line [] 0 = .ok (highlight line) ∧ withoutCodes (highlight line) = line ∧
      ∃ paints : List Paint, codes (highlight line) = (paints.flatMap fun paint => [paint.code, Paint.reset]) ∧
        ∀ paint ∈ paints, paint.code ≠ Paint.reset := by
  have clean : '\x1b' ∉ "@@é</Card \"a\\\"\" @&x_1 @* m".toList := by decide
  exact ⟨_, rfl, clean, highlight_adds_colour clean⟩

end SigilTemplate
