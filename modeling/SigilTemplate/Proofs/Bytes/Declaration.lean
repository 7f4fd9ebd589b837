import SigilTemplate.Proofs.Bytes.Argument
import SigilTemplate.Proofs.Bytes.Inline
import SigilTemplate.Proofs.Bytes.Markup

/-!
Directives, read by offsets. An attempt that fails says where it stopped, and
what was taken up to there is cut out of the source to find its white space.
-/

namespace SigilTemplate.Bytes
open Text

/-- A reading by offsets that may fail at a place. -/
abbrev Attempt := ExceptT Cursor Checked

/-- The attempt is no breach, and succeeds or fails as the other one does. -/
def Tries {α : Type} (attempt : Attempt α) (other : Except Cursor α) : Prop := attempt.run = .ok other

namespace Tries

variable {α β : Type}

theorem plain (other : Except Cursor α) : Tries (liftM other) other := rfl

theorem pure (a : α) : Tries (Pure.pure a) (.ok a) := rfl

theorem throw (stop : Cursor) : Tries (throw stop : Attempt α) (.error stop) := rfl

theorem bind {x : Attempt α} {f : α → Attempt β} {y : Except Cursor α} {g : α → Except Cursor β} (first : Tries x y)
    (second : ∀ a, y = .ok a → Tries (f a) (g a)) : Tries (x >>= f) (y >>= g) := by
  unfold Tries at first ⊢
  rw [ExceptT.run_bind, first]
  cases y with
  | error stop => rfl
  | ok a => exact second a rfl

theorem check {x : Checked α} {a : α} {f : α → Attempt β} {other : Except Cursor β} (ok : x = .ok a)
    (next : Tries (f a) other) : Tries ((liftM x : Attempt α) >>= f) other := by
  rw [ok]
  exact next

end Tries

section

variable (source : List Char)

/-- Gives up a directive of which everything up to `stop` was taken. -/
def malformedDirective (keyword : Keyword) (start stop : Cursor) : Run ReadNode := do
  let last ← trimmedEnd source start.pos stop.pos
  let node ← Traced.recover (.malformedDirective keyword) (start.spanTo last) []
  pure (node, last)

/-- The directive that an attempt gives, or the error node in its place. -/
def settleDirective (keyword : Keyword) (start : Cursor) (attempt : Attempt (Directive Node × Cursor)) : Run ReadNode := do
  match ← attempt.run with
  | .ok (directive, after) => pure (⟨.directive directive, start.spanTo after⟩, after)
  | .error stop => malformedDirective source keyword start stop

/-- An ASCII identifier. -/
def identifier (c : Cursor) : Attempt (Fragment × Cursor) :=
  let after := c.skipIdent
  if c.pos < after.pos then do
    let name ← between source c after
    pure (name, after)
  else throw c

/-- A string between parentheses. -/
def parenthesizedString (c : Cursor) : Attempt (Fragment × Cursor) := do
  let inside ← expect '(' c
  let (value, after) ← ExceptT.mk (stringLiteral source inside.skipBlank)
  let after ← expect ')' after.skipBlank
  pure (value, after)

/-- No arguments, empty parentheses, or the path of the layout between them. -/
def layoutDirective (c : Cursor) : Attempt (Directive Node × Cursor) :=
  match c.eat? '(' with
  | none => pure (.layout none, c)
  | some inside =>
    match inside.skipBlank.eat? ')' with
    | some after => pure (.layout none, after)
    | none => do
      let (path, after) ← ExceptT.mk (stringLiteral source inside.skipBlank)
      let after ← expect ')' after.skipBlank
      pure (.layout (some path), after)

/-- The name under which a file is used, after `as`. Otherwise the reader goes back. -/
def componentName (afterPath : Cursor) : Attempt (Option Fragment × Cursor) := do
  match ← (liftM (eatText source ['a', 's'] afterPath.skipInlineBlank) : Attempt (Option Cursor)) with
  | some after =>
    if after.peek.any isBlank then do
      let (name, after) ← identifier source after.skipInlineBlank
      pure (some name, after)
    else do
      let back ← moveTo source afterPath.pos
      pure (none, back)
  | none => do
    let back ← moveTo source afterPath.pos
    pure (none, back)

/-- A path, perhaps a name for it, and perhaps a semicolon, all on one line. -/
def useDirective (c : Cursor) : Attempt (Directive Node × Cursor) := do
  let (path, afterPath) ← ExceptT.mk (stringLiteral source c.skipInlineBlank)
  let (component, after) ← componentName source afterPath
  let after ← moveTo source ((after.skipInlineBlank.eat? ';').getD after).pos
  pure (.useFile path component, after)

/-- A directive whose only argument is a string. -/
def stringDirective (directive : Fragment → Directive Node) (c : Cursor) : Attempt (Directive Node × Cursor) := do
  let (value, after) ← parenthesizedString source c
  pure (directive value, after)

/-- A directive that is complete on its own; empty parentheses may follow. -/
def bareDirective (directive : Directive Node) (c : Cursor) : Attempt (Directive Node × Cursor) := do
  let after ← eatText source ['(', ')'] c
  pure (directive, after.getD c)

/-- The offset before the `}` that brings the count of open braces to zero. -/
def rawClose (depth : Nat) (pos : Nat) : List Char → Checked (Option Nat)
  | [] => .ok none
  | ch :: rest =>
    if ch = '{' then rawClose (depth + 1) (pos + ch.utf8Size) rest
    else if ch = '}' then do
      let depth ← minus depth 1
      if depth = 0 then return some (← minus (pos + ch.utf8Size) 1)
      else rawClose depth (pos + ch.utf8Size) rest
    else rawClose depth (pos + ch.utf8Size) rest

/-- A block of which only the braces count. -/
def readRaw (context : Context) (start c : Cursor) : Run ReadNode := do
  let brace := c.skipBlank
  if brace.peek = some '{' then
    match ← rawClose 1 brace.next.pos brace.next.rest with
    | some stop =>
      let close ← moveTo source stop
      let body ← between source brace.next close
      pure (⟨.directive (.raw body), start.spanTo close.next⟩, close.next)
    | none =>
      Traced.fail
        { cause := .unterminatedRawBlock
          span := .point context.size
          related := some ⟨brace.pos, brace.pos + 1⟩ }
  else malformedDirective source .raw start brace

/-- The name and the parameters of a helper, up to the `{` of its body. -/
def functionHead (room : Nat) (c : Cursor) : Attempt ((Fragment × Fragment) × Cursor) := do
  let (name, after) ← identifier source c.skipInlineBlank
  let opener := after.skipInlineBlank
  if opener.peek = some '(' then
    match ← (liftM (enclosed source room opener) : Attempt (Except Code.Refusal Code.Enclosed)) with
    | .ok fragment =>
      let last ← minus fragment.after.pos 1
      let parameters ← trimmed source (opener.pos + 1) last
      let brace := fragment.after.skipBlank
      if brace.peek = some '{' then pure ((name, parameters), brace)
      else throw fragment.after
    | .error _ => throw opener
  else throw opener

/-- A section with its name and its value between parentheses. -/
def readSectionValue (room : Nat) (context : Context) (start opener : Cursor) : Run ReadNode := do
  match ← enclosed source room opener with
  | .ok arguments =>
    let last ← minus arguments.after.pos 1
    match ← sectionValue source (opener.pos + 1) last with
    | some directive => pure (⟨.directive directive, start.spanTo arguments.after⟩, arguments.after)
    | none => malformedDirective source .sectionBlock start arguments.after
  | .error refusal => refusedFragment context start refusal

/-- The name of a section, up to the `{` of its body. -/
def sectionHead (c : Cursor) : Attempt (Fragment × Cursor) := do
  let (name, after) ← identifier source c.skipInlineBlank
  let brace := after.skipBlank
  if brace.peek = some '{' then pure (name, brace) else throw brace

end

variable {source : List Char} {context : Context} {start : Cursor}

theorem malformedDirective_follows {keyword : Keyword} {stop : Cursor} (place : Cursor.ofText source ≤ start)
    (le : start ≤ stop) : Follows context (malformedDirective source keyword start stop)
      (SigilTemplate.malformedDirective keyword start stop) :=
  .check (trimmedEnd_eq place le) (.traced (SigilTemplate.malformedDirective keyword start stop))

theorem settleDirective_follows {keyword : Keyword} {attempt : Attempt (Directive Node × Cursor)}
    {other : Except Cursor (Directive Node × Cursor)} {post : Directive Node → Cursor → Prop} {c : Cursor}
    (place : Cursor.ofText source ≤ start) (le : start ≤ c) (onward : Onward c post other) (tries : Tries attempt other) :
    Follows context (settleDirective source keyword start attempt) (SigilTemplate.settleDirective keyword start other) := by
  apply Follows.check tries
  match other, onward with
  | .ok (directive, after), _ => exact .pure _
  | .error stop, later => exact malformedDirective_follows place (le.trans later)

theorem identifier_tries {c : Cursor} (place : Cursor.ofText source ≤ c) :
    Tries (identifier source c) (SigilTemplate.identifier c) := by
  simp only [identifier, SigilTemplate.identifier]
  split
  · exact .check (between_eq place (Cursor.le_skipIdent c)) (.pure _)
  · exact .throw c

theorem lt_of_expect {ch : Char} {c after : Cursor} (found : expect ch c = .ok after) : c < after := by
  unfold expect at found
  split at found
  · next eaten =>
    obtain rfl := Except.ok.inj found
    exact Cursor.lt_of_eat? eaten
  · simp at found

theorem parenthesizedString_tries {c : Cursor} (place : Cursor.ofText source ≤ c) :
    Tries (parenthesizedString source c) (SigilTemplate.parenthesizedString c) := by
  apply Tries.bind (.plain _)
  intro inside opens
  have start := place.trans ((lt_of_expect opens).le.trans (Cursor.le_skipBlank inside))
  apply Tries.bind (stringLiteral_eq start)
  rintro ⟨value, after⟩ _
  exact .bind (.plain _) fun last _ => .pure _

theorem layoutDirective_tries {c : Cursor} (place : Cursor.ofText source ≤ c) :
    Tries (layoutDirective source c) (SigilTemplate.layoutDirective c) := by
  unfold layoutDirective SigilTemplate.layoutDirective
  cases opens : c.eat? '(' with
  | none => exact .pure _
  | some inside =>
    simp only
    cases closes : inside.skipBlank.eat? ')' with
    | some after => exact .pure _
    | none =>
      have start := place.trans ((Cursor.lt_of_eat? opens).le.trans (Cursor.le_skipBlank inside))
      apply Tries.bind (stringLiteral_eq start)
      rintro ⟨path, after⟩ _
      exact .bind (.plain _) fun last _ => .pure _

theorem componentName_tries {c : Cursor} (place : Cursor.ofText source ≤ c) :
    Tries (componentName source c) (SigilTemplate.componentName c) := by
  apply Tries.check (eatText_eq (place.trans (Cursor.le_skipInlineBlank c)))
  unfold SigilTemplate.componentName
  cases found : c.skipInlineBlank.eatText? ['a', 's'] with
  | none => exact .check (moveTo_eq place) (.pure _)
  | some after =>
    simp only
    by_cases blank : after.peek.any isBlank = true
    · rw [if_pos blank, if_pos blank]
      have start := (Cursor.le_skipInlineBlank c).trans (Cursor.le_of_reads (Cursor.reads_eatText? found))
      apply Tries.bind (identifier_tries (place.trans (start.trans (Cursor.le_skipInlineBlank after))))
      rintro ⟨name, last⟩ _
      exact .pure _
    · rw [if_neg blank, if_neg blank]
      exact .check (moveTo_eq place) (.pure _)

theorem useDirective_tries {c : Cursor} (place : Cursor.ofText source ≤ c) :
    Tries (useDirective source c) (SigilTemplate.useDirective c) := by
  have start := place.trans (Cursor.le_skipInlineBlank c)
  apply Tries.bind (stringLiteral_eq start)
  rintro ⟨path, middle⟩ found
  have onto := start.trans ((onward_stringLiteral _).of_ok found).1
  apply Tries.bind (componentName_tries onto)
  rintro ⟨component, last⟩ named
  have further := onto.trans ((onward_componentName _).of_ok named).1
  exact .check (moveTo_eq (further.trans (Cursor.le_getD_inlineBlank_eat? ';' last))) (.pure _)

theorem stringDirective_tries {directive : Fragment → Directive Node} {c : Cursor} (place : Cursor.ofText source ≤ c) :
    Tries (stringDirective source directive c) (SigilTemplate.stringDirective directive c) := by
  apply Tries.bind (parenthesizedString_tries place)
  rintro ⟨value, after⟩ _
  exact .pure _

theorem bareDirective_tries {directive : Directive Node} {c : Cursor} (place : Cursor.ofText source ≤ c) :
    Tries (bareDirective source directive c) (SigilTemplate.bareDirective directive c) :=
  .check (eatText_eq place) (.pure _)

theorem rawClose_eq {depth pos : Nat} (text : List Char) (inside : 1 ≤ depth) :
    rawClose depth pos text = .ok ((rawClose? depth pos text).map (·.pos)) := by
  induction text generalizing depth pos with
  | nil => rfl
  | cons ch rest ih =>
    unfold rawClose rawClose?
    by_cases opens : ch = '{'
    · rw [if_pos opens, if_pos opens]
      exact ih (by omega)
    rw [if_neg opens, if_neg opens]
    by_cases closes : ch = '}'
    · rw [if_pos closes, if_pos closes, minus_eq inside, ok_bind]
      have single : ch.utf8Size = 1 := utf8Size_of_ascii (by rw [closes]; decide)
      by_cases last : depth ≤ 1
      · rw [if_pos (by omega), if_pos last, single, minus_add]
        rfl
      · rw [if_neg (by omega), if_neg last]
        exact ih (by omega)
    · rw [if_neg closes, if_neg closes]
      exact ih inside

theorem readRaw_follows {c : Cursor} (here : Cursor.ofText source ≤ start) (le : start ≤ c) :
    Follows context (readRaw source context start c) (SigilTemplate.readRaw context start c) := by
  have reached := le.trans (Cursor.le_skipBlank c)
  simp only [readRaw, SigilTemplate.readRaw]
  by_cases brace : c.skipBlank.peek = some '{'
  · rw [if_pos brace, if_pos brace]
    apply Follows.check (rawClose_eq _ (le_refl 1))
    have inside := (here.trans reached).trans (Cursor.le_next c.skipBlank)
    match found : rawClose? 1 c.skipBlank.next.pos c.skipBlank.next.rest with
    | none => exact .traced _
    | some close =>
      obtain ⟨later, _⟩ := rawClose?_spec found
      apply Follows.moveTo (inside.trans later) rfl
      exact .check (between_eq inside later) (.pure _)
  · rw [if_neg brace, if_neg brace]
    exact malformedDirective_follows here reached

/-- What stands between delimiters begins a byte after the first and ends a byte before the end of the last. -/
theorem offsets_of_enclosed {limit : Nat} {c : Cursor} {ch : Char} {found : Code.Enclosed} (head : c.peek = some ch)
    (opens : Code.isOpener ch = true) (ok : Code.enclosed limit c = .ok found) :
    found.inner.pos = c.pos + 1 ∧ minus found.after.pos 1 = .ok found.inner.finish.pos := by
  obtain ⟨close, after, closer, rfl⟩ := Code.enclosed_ok head opens ok
  have first := pos_next_of_peek head (narrow_of_isOpener opens)
  have last := pos_next_of_peek closer (narrow_closerOf ch)
  refine ⟨first, ?_⟩
  simp only [last, minus_add, pos_finish_upTo after]

theorem inner_partOf_source {limit : Nat} {c : Cursor} {ch : Char} {found : Code.Enclosed}
    (place : Cursor.ofText source ≤ c) (head : c.peek = some ch) (opens : Code.isOpener ch = true)
    (ok : Code.enclosed limit c = .ok found) : found.inner.PartOf (Cursor.ofText source) :=
  (Code.enclosed_inner_partOf head opens ok).trans
    ((Cursor.upTo_partOf (Code.lt_of_enclosed head opens ok).le).trans (Cursor.partOf_of_le place))

theorem functionHead_tries {room : Nat} {c : Cursor} (place : Cursor.ofText source ≤ c) :
    Tries (functionHead source room c) (SigilTemplate.functionHead room c) := by
  have start := place.trans (Cursor.le_skipInlineBlank c)
  apply Tries.bind (identifier_tries start)
  rintro ⟨name, after⟩ named
  have onto := (start.trans ((onward_identifier _).of_ok named).1).trans (Cursor.le_skipInlineBlank after)
  simp only
  by_cases opens : after.skipInlineBlank.peek = some '('
  · rw [if_pos opens, if_pos opens]
    apply Tries.check (enclosed_eq room onto opens rfl)
    cases ok : Code.enclosed room after.skipInlineBlank with
    | error _ => exact .throw _
    | ok fragment =>
      obtain ⟨first, last⟩ := offsets_of_enclosed opens rfl ok
      apply Tries.check last
      rw [← first]
      apply Tries.check (trimmed_eq (inner_partOf_source onto opens rfl ok))
      simp only
      by_cases brace : fragment.after.skipBlank.peek = some '{'
      · rw [if_pos brace, if_pos brace]
        exact .pure _
      · rw [if_neg brace, if_neg brace]
        exact .throw _
  · rw [if_neg opens, if_neg opens]
    exact .throw _

theorem readSectionValue_follows {room : Nat} {opener : Cursor} (here : Cursor.ofText source ≤ start)
    (lt : start < opener) (opens : opener.peek = some '(') :
    Follows context (readSectionValue source room context start opener)
      (SigilTemplate.readSectionValue room context start opener) := by
  have place := here.trans lt.le
  apply Follows.check (enclosed_eq room place opens rfl)
  rw [SigilTemplate.readSectionValue]
  cases ok : Code.enclosed room opener with
  | error refusal => exact .traced _
  | ok arguments =>
    obtain ⟨first, last⟩ := offsets_of_enclosed opens rfl ok
    apply Follows.check last
    rw [← first]
    apply Follows.check (sectionValue_eq (inner_partOf_source place opens rfl ok))
    simp only
    cases sectionValue? arguments.inner with
    | some directive => exact .pure _
    | none => exact malformedDirective_follows here (lt.trans (Code.lt_of_enclosed opens rfl ok)).le

theorem sectionHead_tries {c : Cursor} (place : Cursor.ofText source ≤ c) :
    Tries (sectionHead source c) (SigilTemplate.sectionHead c) := by
  apply Tries.bind (identifier_tries (place.trans (Cursor.le_skipInlineBlank c)))
  rintro ⟨name, after⟩ _
  simp only
  by_cases brace : after.skipBlank.peek = some '{'
  · rw [if_pos brace, if_pos brace]
    exact .pure _
  · rw [if_neg brace, if_neg brace]
    exact .throw _

end SigilTemplate.Bytes
