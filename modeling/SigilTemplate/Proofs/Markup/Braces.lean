import SigilTemplate.Proofs.Reading.Sequence

/-!
The braces in the text of a region between braces. What the region expects to
be closed are the braces that its text has opened, however many constructs
stand between the runs of that text. So it is an unmatched `}` that ends the
region, and no other.
-/

namespace SigilTemplate
open Text

/-- The text leaves `depth` braces open, and no brace closes in it that has not been opened. -/
structure LeavesOpen (depth : Nat) (text : List Char) : Prop where
  upTo : ∀ front, front <+: text → front.count '}' ≤ front.count '{'
  total : text.count '{' = text.count '}' + depth

/-- No prefix has more closing braces than opening ones, and as a whole the text has as many. -/
abbrev BraceBalanced (text : List Char) : Prop := LeavesOpen 0 text

namespace LeavesOpen

theorem nil : LeavesOpen 0 [] where
  upTo front isPrefix := by simp [List.prefix_nil.mp isPrefix]
  total := rfl

/-- A prefix of a longer text is one of the shorter, or it is all of it. -/
theorem upTo_concat {depth : Nat} {text : List Char} {ch : Char} (leaves : LeavesOpen depth text)
    (whole : (text ++ [ch]).count '}' ≤ (text ++ [ch]).count '{') :
    ∀ front, front <+: text ++ [ch] → front.count '}' ≤ front.count '{' := by
  intro front isPrefix
  rcases List.prefix_concat_iff.mp isPrefix with rfl | shorter
  · exact whole
  · exact leaves.upTo front shorter

theorem plain {depth : Nat} {text : List Char} {ch : Char} (leaves : LeavesOpen depth text) (notOpen : ch ≠ '{')
    (notClose : ch ≠ '}') : LeavesOpen depth (text ++ [ch]) := by
  have total := leaves.total
  have opened : (text ++ [ch]).count '{' = text.count '{' := by simp [notOpen]
  have closed : (text ++ [ch]).count '}' = text.count '}' := by simp [notClose]
  exact ⟨leaves.upTo_concat (by omega), by omega⟩

theorem opening {depth : Nat} {text : List Char} (leaves : LeavesOpen depth text) :
    LeavesOpen (depth + 1) (text ++ ['{']) := by
  have total := leaves.total
  have opened : (text ++ ['{']).count '{' = text.count '{' + 1 := by simp
  have closed : (text ++ ['{']).count '}' = text.count '}' := by simp
  exact ⟨leaves.upTo_concat (by omega), by omega⟩

theorem closing {depth : Nat} {text : List Char} (leaves : LeavesOpen (depth + 1) text) :
    LeavesOpen depth (text ++ ['}']) := by
  have total := leaves.total
  have opened : (text ++ ['}']).count '{' = text.count '{' := by simp
  have closed : (text ++ ['}']).count '}' = text.count '}' + 1 := by simp
  exact ⟨leaves.upTo_concat (by omega), by omega⟩

end LeavesOpen

/-- The state that the text of a region between braces is in after `text`. -/
structure TextState.Tracks (state : TextState) (text : List Char) : Prop where
  outside : state.inString = false
  expected : ∀ closer ∈ state.expected, closer = '}'
  leavesOpen : LeavesOpen state.expected.length text

theorem TextState.Tracks.start : TextState.Tracks {} [] := ⟨rfl, by simp, .nil⟩

/-- A character between braces keeps track: a plain one changes nothing, and a brace is counted. -/
theorem TextState.Tracks.plainState {state next : TextState} {text rest : List Char} {ch : Char} (tracks : state.Tracks text)
    (found : plainState? .braced state ch rest = some next) : next.Tracks (text ++ [ch]) := by
  unfold plainState? at found
  rw [if_neg (by simp)] at found
  by_cases closes : ch = '}'
  · rw [if_pos closes] at found
    split at found
    · next matched =>
      obtain rfl := Option.some.inj found
      subst closes
      cases opened : state.expected with
      | nil => simp [TextState.closes, opened] at matched
      | cons closer outer =>
        have leaves := tracks.leavesOpen
        have below := tracks.expected
        rw [opened] at leaves below
        refine ⟨tracks.outside, ?_, ?_⟩
        · simpa [TextState.pop, opened] using fun other member => below other (by simp [member])
        · simpa [TextState.pop, opened] using leaves.closing
    · simp at found
  · rw [if_neg closes] at found
    by_cases opens : ch = '{'
    · rw [if_pos opens] at found
      obtain rfl := Option.some.inj found
      subst opens
      exact ⟨tracks.outside, by simpa [TextState.push] using tracks.expected, tracks.leavesOpen.opening⟩
    · rw [if_neg opens, if_pos rfl] at found
      obtain rfl := Option.some.inj found
      exact ⟨tracks.outside, tracks.expected, tracks.leavesOpen.plain opens closes⟩

/-- One unit of text keeps track: no string is open between braces, so that it is a sigil or a character. -/
theorem TextState.Tracks.unit {state : TextState} {text rest : List Char} {unit : TextUnit} (tracks : state.Tracks text)
    (found : textUnit? .braced state rest = some unit) : unit.state.Tracks (text ++ unit.content) := by
  unfold textUnit? at found
  split at found
  · simp at found
  · next ch rest =>
    split at found
    · split at found
      · obtain rfl := Option.some.inj found
        exact ⟨tracks.outside, tracks.expected, tracks.leavesOpen.plain (by decide) (by decide)⟩
      · simp at found
    · split at found
      · simp at found
      · rw [if_neg (by simp [tracks.outside])] at found
        obtain ⟨next, plain, rfl⟩ := Option.map_eq_some_iff.mp found
        exact tracks.plainState plain

/-- A run of text keeps track, unit by unit. -/
theorem TextState.Tracks.runFrom {state : TextState} {text content rest : List Char} {pos : Nat}
    (tracks : state.Tracks (text ++ content.reverse)) :
    (textRunFrom .braced state content pos rest).state.Tracks
      (text ++ (textRunFrom .braced state content pos rest).content) := by
  fun_induction textRunFrom .braced state content pos rest with
  | case1 => exact tracks
  | case2 state content pos rest unit found ih =>
    apply ih
    simpa using tracks.unit found

theorem TextState.Tracks.run {state : TextState} {text : List Char} (tracks : state.Tracks text) (c : Cursor) :
    (textRun .braced state c).state.Tracks (text ++ (textRun .braced state c).content) := by
  refine TextState.Tracks.runFrom ?_
  simpa using tracks

/-- The literal text of a node; other constructs have none of their own. -/
def Node.literal (node : Node) : List Char :=
  match node.form with
  | .text content => content.toList
  | _ => []

/-- The text that stands directly between some nodes, put together. -/
def directText (nodes : List Node) : List Char := nodes.flatMap Node.literal

theorem Node.literal_eq_nil {node : Node} (other : ∀ content, node.form ≠ .text content) : node.literal = [] := by
  unfold literal
  split
  · next content text => exact absurd text (other content)
  · rfl

/-- Between braces, a region expects what the text directly in it has opened, whatever stands between its runs. -/
theorem Items.tracks {c d : Cursor} {nodes : List Node} {state : TextState} (items : Items .braced c nodes state d) :
    state.Tracks (directText nodes) := by
  induction items with
  | start => exact .start
  | @text nodes state d _ _ ih =>
    have onward := ih.run d
    simpa [directText, Node.literal, Node.form] using onward
  | construct _ _ _ _ other ih =>
    simpa [directText, Node.literal_eq_nil other] using ih

/-- A `}` between braces ends the region just where the text directly before it is balanced. -/
theorem Items.closeBrace_iff {c d : Cursor} {nodes : List Node} {state : TextState}
    (items : Items .braced c nodes state d) :
    endAt? .braced state '}' = some .closeBrace ↔ BraceBalanced (directText nodes) := by
  have tracks := items.tracks
  have leaves := tracks.leavesOpen
  have ends : endAt? .braced state '}' = some .closeBrace ↔ state.expected = [] := by
    unfold endAt?
    rw [if_neg (by simp [tracks.outside]), if_pos rfl]
    cases opened : state.expected with
    | nil => simp
    | cons closer outer =>
      obtain rfl := tracks.expected closer (by simp [opened])
      simp
  rw [ends]
  constructor
  · intro none
    rw [none] at leaves
    exact leaves
  · intro balanced
    have total := balanced.total
    have opened := leaves.total
    exact List.length_eq_zero_iff.mp (by omega)

end SigilTemplate
