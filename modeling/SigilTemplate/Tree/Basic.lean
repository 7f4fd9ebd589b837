import SigilTemplate.Code.Chain
import SigilTemplate.Fault

/-!
The tree of a template. Every node is a form together with its span, and a form
is what the node is, with its children in the places where they belong. Forms
take the type of the children as a parameter, so an operation on trees is given
by what it does at one form.

Code inside a template is opaque: conditions, patterns and argument values are
fragments of the source with their spans.
-/

namespace SigilTemplate

open Text

/-- A piece of the source and its span. -/
structure Fragment where
  text : String
  span : Span
deriving DecidableEq, Inhabited

namespace Fragment

/-- The fragment that starts at `start` and reads `text`. -/
def ofChars (start : Nat) (text : List Char) : Fragment :=
  ⟨String.ofList text, ⟨start, start + byteLength text⟩⟩

/-- The text that a cursor can read, without the white space around it. -/
def trimmed (part : Cursor) : Fragment :=
  let start := part.skipBlank
  ofChars start.pos (trimEnd start.rest)

/-- The text between two places. -/
def between (c d : Cursor) : Fragment := ofChars c.pos (c.textTo d)

def isEmpty (fragment : Fragment) : Bool := fragment.text.isEmpty

end Fragment

/-- How an expression is written. -/
inductive ExpressionKind where
  /-- A chain right after the sigil. -/
  | simple (refs : Nat) (segments : List Code.Segment)
  /-- Any code between parentheses. -/
  | paren
deriving DecidableEq

/-- An expression. The code of a parenthesised one is what stands between the parentheses. -/
structure Expression where
  kind : ExpressionKind
  code : String
  /-- The value is put into the page as it is, not escaped. -/
  raw : Bool
deriving DecidableEq

/-- A parameter that a template declares in its header. -/
structure Parameter where
  name : Fragment
  type : Fragment
deriving DecidableEq

inductive Directive (α : Type) where
  /-- The layout around this template; without a path, the default one. -/
  | layout (path : Option Fragment)
  | useFile (path : Fragment) (component : Option Fragment)
  | includeFile (path : Fragment)
  | render (name : Fragment)
  | renderBody
  | childContent
  | sectionBlock (name : Fragment) (body : List α)
  | sectionValue (name value : Fragment)
  /-- The body is not read as a template. -/
  | raw (body : Fragment)
  | function (name parameters : Fragment) (body : List α)

/-- What follows the body of an `if`. -/
inductive ElseClause (α : Type) where
  /-- Another `if`, or the error node in its place. -/
  | chained (node : α)
  | block (body : List α)

inductive ArmBody (α : Type) where
  | block (body : List α)
  /-- Text and constructs up to the comma or the brace that ends the arm. -/
  | inline (body : List α)

structure Arm (α : Type) where
  pattern : Fragment
  body : ArmBody α
  span : Span

inductive Statement (α : Type) where
  | conditional (condition : Fragment) (body : List α) (otherwise : Option (ElseClause α))
  | forLoop (header : Fragment) (body : List α)
  | whileLoop (header : Fragment) (body : List α)
  | matchOn (subject : Fragment) (arms : List (Arm α))
  | continueLoop
  | breakLoop

/-- The value that an argument gives to a component. -/
inductive ArgumentValue (α : Type) where
  /-- The bare name, short for `true`. -/
  | flag
  | bool (value : Bool)
  /-- A number as it is written. -/
  | number (text : String)
  | string (text : Fragment)
  /-- What an `@` starts. -/
  | expression (node : α)
  | block (body : List α)
  /-- Code, in a component call. -/
  | code (text : Fragment)

structure Argument (α : Type) where
  name : Fragment
  value : ArgumentValue α
  span : Span

/-- The two ways to write a component. -/
inductive ComponentStyle where
  | tag
  | call
deriving DecidableEq

structure Component (α : Type) where
  name : Fragment
  style : ComponentStyle
  arguments : List (Argument α)
  body : List α
  selfClosing : Bool

/-- What a node is, over children of type `α`. -/
inductive Form (α : Type) where
  /-- Literal markup. The content has each doubled `@` folded into one. -/
  | text (content : String)
  | comment (content : String)
  | expression (expression : Expression)
  | codeBlock (code : String)
  | parameters (parameters : List Parameter)
  | directive (directive : Directive α)
  | statement (statement : Statement α)
  | component (component : Component α)
  /-- A malformed construct, with the nodes read inside it before it was found malformed. -/
  | error (cause : Malformation) (children : List α)

inductive Node where
  | mk (form : Form Node) (span : Span)

def Node.form : Node → Form Node
  | ⟨form, _⟩ => form

def Node.span : Node → Span
  | ⟨_, span⟩ => span

/-- A template that has been read. The content starts behind a byte order mark. -/
structure Tree where
  nodes : List Node
  source : List Char
  contentStart : Nat

namespace Form

/-- The kind of a node, as trees are written out. -/
def typeName {α : Type} : Form α → String
  | text _ => "text"
  | comment _ => "comment"
  | expression _ => "expression"
  | codeBlock _ => "code_block"
  | parameters _ => "parameters"
  | directive _ => "directive"
  | statement _ => "statement"
  | component _ => "component"
  | error _ _ => "error"

end Form

/-- The word after the sigil. -/
def Directive.keyword {α : Type} : Directive α → Keyword
  | layout _ => .layout
  | useFile _ _ => .useFile
  | includeFile _ => .includeFile
  | render _ => .render
  | renderBody => .renderBody
  | childContent => .childContent
  | sectionBlock _ _ => .sectionBlock
  | sectionValue _ _ => .sectionBlock
  | raw _ => .raw
  | function _ _ _ => .function

end SigilTemplate
