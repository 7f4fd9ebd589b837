import SigilTemplate.Code.TopLevel
import SigilTemplate.Tree.Basic

/-!
Arguments: quoted strings, numbers, and lists of named entries between
parentheses. None of them holds markup, so reading one is a plain function.
A reading that fails says where it stopped, since what a malformed construct
has taken up to there belongs to it.
-/

namespace SigilTemplate

open Text

/-- One given character. -/
def expect (ch : Char) (c : Cursor) : Except Cursor Cursor :=
  match c.eat? ch with
  | some after => .ok after
  | none => .error c

/-- A string between double or between single quotes. Stops at the opening quote of one that is
never closed. -/
def stringLiteral (c : Cursor) : Except Cursor (Fragment × Cursor) :=
  match c.rest with
  | quote :: _ =>
    if quote = '"' ∨ quote = '\x27' then
      match Code.findQuote? quote c.next.pos c.next.rest with
      | some close => .ok (.between c.next close, close.next)
      | none => .error c
    else .error c
  | [] => .error c

/-- An ASCII identifier. -/
def identifier (c : Cursor) : Except Cursor (Fragment × Cursor) :=
  let after := c.skipIdent
  if c.pos < after.pos then .ok (.between c after, after) else .error c

/-- A string between parentheses. -/
def parenthesizedString (c : Cursor) : Except Cursor (Fragment × Cursor) := do
  let inside ← expect '(' c
  let (value, after) ← stringLiteral inside.skipBlank
  let after ← expect ')' after.skipBlank
  pure (value, after)

def allDigits (text : List Char) : Bool := !text.isEmpty && text.all Char.isDigit

/-- Digits, and perhaps a point and more digits. -/
def isUnsigned (digits : List Char) : Bool :=
  match digits.span (· != '.') with
  | (whole, []) => allDigits whole
  | (whole, _ :: fraction) => allDigits whole && allDigits fraction

/-- A number, perhaps with a minus. -/
def isNumber : List Char → Bool
  | '-' :: digits => isUnsigned digits
  | digits => isUnsigned digits

/-- The first `:` that is not next to another one. -/
def singleColon? (part : Cursor) : Option Cursor :=
  go false part.pos part.rest
where
  go (afterColon : Bool) (pos : Nat) : List Char → Option Cursor
    | [] => none
    | ch :: rest =>
      if ch = ':' ∧ !afterColon ∧ rest.head? ≠ some ':' then some ⟨pos, ch :: rest⟩
      else go (ch == ':') (pos + ch.utf8Size) rest

/-- Name and value of an entry, around its first single `:`. The name is an identifier, and the value
is not blank. -/
def namedEntry? (entry : Cursor) : Option (Fragment × Fragment) := do
  let colon ← singleColon? entry
  let name := Fragment.trimmed (entry.upTo colon)
  let value := Fragment.trimmed colon.next
  if !name.isEmpty && isIdentOrEmpty name.text.toList && !value.isEmpty then
    pure (name, value)
  else
    none

/-- The entries between commas, without blank ones, if each has a name and a value. -/
def namedEntries? (part : Cursor) : Option (List (Fragment × Fragment)) :=
  ((Code.split ',' part).filter fun entry => !entry.rest.all isBlank).mapM namedEntry?

/-- The parameters of a template header: at least one name with its type. -/
def templateParameters? (part : Cursor) : Option (List Parameter) := do
  let entries ← namedEntries? part
  if entries.isEmpty then none
  else pure (entries.map fun (name, type) => ⟨name, type⟩)

/-- A fragment without its first and last character, each of one byte. -/
def Fragment.unquoted (fragment : Fragment) : Fragment :=
  ⟨String.ofList fragment.text.toList.tail.dropLast, ⟨fragment.span.start + 1, fragment.span.stop - 1⟩⟩

/-- The text starts and ends with one quote, and these are two. -/
def isQuotedBy (quote : Char) (text : List Char) : Bool :=
  text.head? == some quote && text.getLast? == some quote && 2 ≤ text.length

/-- The value of an entry in a component call: a constant where it is written as one, and code
otherwise. -/
def codeValue (value : Fragment) : ArgumentValue Node :=
  let text := value.text.toList
  if value.text = "true" then .bool true
  else if value.text = "false" then .bool false
  else if isNumber text then .number value.text
  else if isQuotedBy '"' text && !text.tail.dropLast.contains '"' then .string value.unquoted
  else .code value

/-- The arguments of a component call. -/
def callArguments? (part : Cursor) : Option (List (Argument Node)) := do
  let entries ← namedEntries? part
  pure (entries.map fun (name, value) => ⟨name, codeValue value, name.span.cover value.span⟩)

/-- The two arguments of a section without a block: its name between quotes, and its value. -/
def sectionValue? (part : Cursor) : Option (Directive Node) :=
  match Code.split ',' part with
  | [first, second] =>
    let name := Fragment.trimmed first
    let value := Fragment.trimmed second
    let text := name.text.toList
    if (isQuotedBy '"' text || isQuotedBy '\x27' text) && !value.isEmpty then
      some (.sectionValue name.unquoted value)
    else none
  | _ => none

end SigilTemplate
