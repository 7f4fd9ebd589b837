import SigilTemplate.Markup.Marks

/-!
Runs of literal markup. A run is read unit by unit: a doubled `@`, which stands
for one `@`, an escaped pair inside a quoted string, or a single character. A
unit that would belong to a construct, or that ends the enclosing region, is
not part of the run.

How a region is delimited decides what its text keeps track of. The state of
that is kept across the runs of one region, so that an expression or a tag in
between does not reset it.
-/

namespace SigilTemplate

open Text

/-- How the text of a region is delimited. -/
inductive TextMode where
  /-- Outside all braces: braces are plain text. -/
  | free
  /-- Between braces: a pair of braces in the text is text, and a `}` beyond those ends the region. -/
  | braced
  /-- In the inline body of a match arm: all brackets nest, quoted strings are opaque, and a
  top-level comma ends the region as well. -/
  | arm
deriving DecidableEq

/-- What the text of a region has opened so far. -/
structure TextState where
  /-- The delimiters that would close what is open, innermost first. -/
  expected : List Char := []
  inString : Bool := false
deriving DecidableEq, Inhabited

namespace TextState

def closes (state : TextState) (ch : Char) : Bool := state.expected.head? == some ch

def isTopLevel (state : TextState) : Bool := state.expected.isEmpty && !state.inString

def push (state : TextState) (closer : Char) : TextState :=
  { state with expected := closer :: state.expected }

def pop (state : TextState) : TextState := { state with expected := state.expected.tail }

def withString (state : TextState) (inString : Bool) : TextState := { state with inString }

end TextState

/-- After an opening quote: the quote is closed before the line ends. A backslash takes the next
character along. -/
def closesOnLine : List Char → Bool
  | [] => false
  | ch :: rest =>
    if ch = '\\' then
      match rest with
      | [] => false
      | _ :: rest => closesOnLine rest
    else if ch = '"' then true
    else if ch = '\n' then false
    else closesOnLine rest

/-- One unit of a run: what it stands for, the state after it and the characters after it. -/
structure TextUnit where
  content : List Char
  state : TextState
  rest : List Char
deriving DecidableEq

/-- A character of an inline arm body that is neither a brace nor inside a string. -/
def armState? (state : TextState) (ch : Char) (rest : List Char) : Option TextState :=
  if ch = '(' then some (state.push ')')
  else if ch = '[' then some (state.push ']')
  else if ch = ')' ∨ ch = ']' then some (if state.closes ch then state.pop else state)
  else if ch = ',' then if state.expected.isEmpty then none else some state
  else if ch = '"' then some (if closesOnLine rest then state.withString true else state)
  else some state

/-- The state after a character outside strings; none where the character ends the region. -/
def plainState? (mode : TextMode) (state : TextState) (ch : Char) (rest : List Char) :
    Option TextState :=
  if mode = .free then some state
  else if ch = '}' then if state.closes '}' then some state.pop else none
  else if ch = '{' then some (state.push '}')
  else if mode = .braced then some state
  else armState? state ch rest

/-- A unit inside a quoted string. The string ends at its quote or at the end of the line; a
backslash takes the next character along unless that is an `@`. -/
def stringUnit (state : TextState) (ch : Char) (rest : List Char) : TextUnit :=
  if ch = '"' ∨ ch = '\n' then ⟨[ch], state.withString false, rest⟩
  else if ch = '\\' then
    match rest with
    | [] => ⟨[ch], state, rest⟩
    | escaped :: after =>
      if escaped = '@' then ⟨[ch], state, rest⟩ else ⟨[ch, escaped], state, after⟩
  else ⟨[ch], state, rest⟩

/-- The next unit of a run, if the run goes on. -/
def textUnit? (mode : TextMode) (state : TextState) : List Char → Option TextUnit
  | [] => none
  | ch :: rest =>
    if ch = '@' then
      match rest with
      | '@' :: rest => some ⟨['@'], state, rest⟩
      | _ => none
    else if ch = '<' ∧ (opensTag rest ∨ closesTag rest) then none
    else if state.inString then some (stringUnit state ch rest)
    else (plainState? mode state ch rest).map fun state => ⟨[ch], state, rest⟩

theorem length_stringUnit (state : TextState) (ch : Char) (rest : List Char) :
    (stringUnit state ch rest).rest.length ≤ rest.length := by
  unfold stringUnit
  split
  · simp
  · split
    · split
      · simp
      · split <;> simp
    · simp

/-- A unit takes at least one character. -/
theorem length_textUnit? {mode : TextMode} {state : TextState} {text : List Char} {unit : TextUnit}
    (found : textUnit? mode state text = some unit) : unit.rest.length < text.length := by
  unfold textUnit? at found
  split at found
  · simp at found
  · rename_i ch rest
    split at found
    · split at found
      · obtain rfl := Option.some.inj found
        simp only [List.length_cons]; omega
      · simp at found
    · split at found
      · simp at found
      · split at found
        · obtain rfl := Option.some.inj found
          have := length_stringUnit state ch rest
          simp only [List.length_cons]; omega
        · obtain ⟨_, _, rfl⟩ := Option.map_eq_some_iff.mp found
          simp

/-- How text is written: each `@` doubled. -/
def escape (text : List Char) : List Char :=
  text.flatMap fun ch => if ch = '@' then ['@', '@'] else [ch]

/-- A run that has been read: what it stands for, the state after it and the place after it. -/
structure TextRun where
  content : List Char
  state : TextState
  after : Cursor

/-- The longest run from `c`, after content that is given in reverse. -/
def textRunFrom (mode : TextMode) (state : TextState) (content : List Char) (pos : Nat)
    (text : List Char) : TextRun :=
  match _unit : textUnit? mode state text with
  | none => ⟨content.reverse, state, ⟨pos, text⟩⟩
  | some unit =>
    textRunFrom mode unit.state (unit.content.reverse ++ content)
      (pos + byteLength (escape unit.content)) unit.rest
termination_by text.length
decreasing_by exact length_textUnit? _unit

/-- The longest run from `c`. It may be empty. -/
def textRun (mode : TextMode) (state : TextState) (c : Cursor) : TextRun :=
  textRunFrom mode state [] c.pos c.rest

end SigilTemplate
