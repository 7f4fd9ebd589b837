import SigilTemplate.Code.Enclosed
import SigilTemplate.Markup.Keyword

/-!
What can be wrong with a template. A malformation is local: the construct
becomes an error node and reading goes on behind it. A fault ends the reading,
because what would have closed a construct is missing up to the end of the
text, or because constructs nest too deeply.

Both are causes, and their wording is a function of the cause.
-/

namespace SigilTemplate

/-- The kinds of malformation. -/
inductive MalformationKind where
  | emptyCondition
  | missingBlock
  | malformedArm
  | unmatchedTag
  | unclosedTag
  | malformedTag
  | malformedDirective
  | unbalancedDelimiter
  | invalidSigil
  | unexpectedElse
deriving DecidableEq, Inhabited

namespace MalformationKind

def name : MalformationKind → String
  | emptyCondition => "EmptyCondition"
  | missingBlock => "MissingBlock"
  | malformedArm => "MalformedArm"
  | unmatchedTag => "UnmatchedTag"
  | unclosedTag => "UnclosedTag"
  | malformedTag => "MalformedTag"
  | malformedDirective => "MalformedDirective"
  | unbalancedDelimiter => "UnbalancedDelimiter"
  | invalidSigil => "InvalidSigil"
  | unexpectedElse => "UnexpectedElse"

def title : MalformationKind → String
  | emptyCondition => "Empty condition"
  | missingBlock => "Missing block"
  | malformedArm => "Malformed match arm"
  | unmatchedTag => "Unmatched tag"
  | unclosedTag => "Unclosed tag"
  | malformedTag => "Malformed tag"
  | malformedDirective => "Malformed directive"
  | unbalancedDelimiter => "Unbalanced delimiter"
  | invalidSigil => "Invalid sigil"
  | unexpectedElse => "Unexpected else"

end MalformationKind

/-- What is wrong with one construct. -/
inductive Malformation where
  /-- A block whose condition, header or subject is blank. -/
  | emptyHead (keyword : Keyword)
  /-- No block follows the head of a statement. -/
  | missingBlock (keyword : Keyword)
  /-- A match arm without `=>`, or with nothing before it. -/
  | malformedArm
  /-- A closing tag with no open tag in its region; the name is empty where its `>` is missing. -/
  | strayClose (name : String)
  /-- A tag that another tag's closing tag ends. -/
  | crossedTags (name closer : String)
  | unclosedTag (name : String)
  /-- Something in an opening tag is no attribute. -/
  | malformedHead (name : String)
  /-- The closing tag lacks its `>`. -/
  | malformedClose (name : String)
  /-- The arguments of a component call are not all named. -/
  | malformedArguments (name : String)
  | malformedDirective (keyword : Keyword)
  /-- A delimiter that closes another kind than the innermost open one. -/
  | unbalanced (expected found : Char)
  /-- An `@` that nothing follows that it could start. -/
  | invalidSigil
  | unexpectedElse
deriving DecidableEq, Inhabited

namespace Malformation

def kind : Malformation → MalformationKind
  | emptyHead _ => .emptyCondition
  | missingBlock _ => .missingBlock
  | malformedArm => .malformedArm
  | strayClose _ => .unmatchedTag
  | crossedTags _ _ => .unmatchedTag
  | unclosedTag _ => .unclosedTag
  | malformedHead _ => .malformedTag
  | malformedClose _ => .malformedTag
  | malformedArguments _ => .malformedTag
  | malformedDirective _ => .malformedDirective
  | unbalanced _ _ => .unbalancedDelimiter
  | invalidSigil => .invalidSigil
  | unexpectedElse => .unexpectedElse

/-- What the head of a statement is called. -/
def headNoun : Keyword → String
  | .ifBlock => "a condition"
  | .matchOn => "a subject"
  | _ => "a header"

def message : Malformation → String
  | emptyHead keyword => "`@" ++ keyword.word ++ "` needs " ++ headNoun keyword
  | missingBlock keyword => "expected `\x7b` to open the `@" ++ keyword.word ++ "` block"
  | malformedArm => "match arm is missing its `=>`"
  | strayClose name => "closing tag `</" ++ name ++ ">` has no matching opening tag"
  | crossedTags name closer => "`<" ++ name ++ ">` is closed by `</" ++ closer ++ ">`"
  | unclosedTag name => "`<" ++ name ++ ">` is never closed"
  | malformedHead name => "malformed `<" ++ name ++ ">` tag"
  | malformedClose name => "closing tag `</" ++ name ++ "` is missing its `>`"
  | malformedArguments name => "parameters of `@" ++ name ++ "` must be `name: value` pairs"
  | malformedDirective keyword => "malformed `@" ++ keyword.word ++ "` directive"
  | unbalanced expected found =>
    "expected `" ++ expected.toString ++ "` before `" ++ found.toString ++ "`"
  | invalidSigil =>
    "expected an expression, keyword or block after `@` (write `@@` for a literal `@`)"
  | unexpectedElse => "`else` without a preceding `@if` block"

end Malformation

/-- The blocks between braces that a template can hold. -/
inductive BlockRole where
  /-- The body of a statement or directive. -/
  | body (keyword : Keyword)
  | arm
  | component
  | argument
deriving DecidableEq

def BlockRole.noun : BlockRole → String
  | body keyword => keyword.word
  | arm => "match arm"
  | component => "component"
  | argument => "attribute"

/-- Why a template cannot be read. -/
inductive FaultCause where
  | unterminatedComment
  | unterminatedRawBlock
  | unterminatedBlock (role : BlockRole)
  | unbalancedDelimiter (opener : Char)
  | recursionLimit (limit : Nat)
deriving DecidableEq

namespace FaultCause

def name : FaultCause → String
  | unterminatedComment => "UnterminatedComment"
  | unterminatedRawBlock => "UnterminatedRawBlock"
  | unterminatedBlock _ => "UnterminatedBlock"
  | unbalancedDelimiter _ => "UnbalancedDelimiter"
  | recursionLimit _ => "RecursionLimitExceeded"

def title : FaultCause → String
  | unterminatedComment => "Unterminated comment"
  | unterminatedRawBlock => "Unterminated raw block"
  | unterminatedBlock _ => "Unterminated block"
  | unbalancedDelimiter _ => "Unbalanced delimiter"
  | recursionLimit _ => "Recursion limit exceeded"

/-- The fault shows while characters are still being read, before any structure applies. -/
def isLexical : FaultCause → Bool
  | unterminatedComment | unterminatedRawBlock => true
  | _ => false

def message : FaultCause → String
  | unterminatedComment => "This comment is never closed."
  | unterminatedRawBlock => "This raw block is never closed."
  | unterminatedBlock role => "This " ++ role.noun ++ " block is never closed."
  | unbalancedDelimiter opener => "This `" ++ opener.toString ++ "` is never closed."
  | recursionLimit limit => "Nesting exceeds the limit of " ++ toString limit ++ " levels."

/-- What is said at the related place, where it is not the usual "opened here". -/
def relatedLabel? : FaultCause → Option String
  | unterminatedComment => some "comment opened here"
  | unterminatedRawBlock => some "raw block opened here"
  | unterminatedBlock _ => some "block opened here"
  | unbalancedDelimiter _ | recursionLimit _ => none

def help : FaultCause → String
  | unterminatedComment => "Close the comment with '*@'"
  | unterminatedRawBlock => "Balance the braces inside '@raw \x7b … \x7d'"
  | unterminatedBlock _ => "Close the block with '\x7d'"
  | unbalancedDelimiter opener => "Add the matching `" ++ (Code.closerOf opener).toString ++ "`"
  | recursionLimit _ => "Flatten the template or raise the depth limit"

end FaultCause

/-- A fault: where it shows, and the opening that it goes back to, if any. -/
structure Fault where
  cause : FaultCause
  span : Span
  related : Option Span := none
deriving DecidableEq

end SigilTemplate
