import SigilTemplate.Text.Blank
import SigilTemplate.Text.Identifier

/-!
The reserved words that may follow an `@`. A word is reserved only as a whole
identifier, and most words only in front of what they need: a condition, a
block or an argument. In any other place the word is the name of a value.
-/

namespace SigilTemplate

open Text

inductive Keyword where
  | ifBlock | elseBlock | forLoop | whileLoop | matchOn
  | continueLoop | breakLoop
  | layout | useFile | includeFile | render | renderBody | childContent
  | sectionBlock | raw | function
deriving DecidableEq

/-- What must come right after a keyword for it to be one. -/
inductive Follow where
  /-- White space, `(` or an opening brace. -/
  | head
  /-- White space, `(` or a double quote. -/
  | argument
  /-- Anything. -/
  | bare

def Follow.accepts (follow : Follow) (following : Option Char) : Bool :=
  match follow with
  | .head => following.any fun ch => isBlank ch || ch == '(' || ch == '{'
  | .argument => following.any fun ch => isBlank ch || ch == '(' || ch == '"'
  | .bare => true

namespace Keyword

def all : List Keyword :=
  [ifBlock, elseBlock, forLoop, whileLoop, matchOn, continueLoop, breakLoop, layout, useFile,
    includeFile, render, renderBody, childContent, sectionBlock, raw, function]

/-- How a keyword is spelled. -/
def word : Keyword → String
  | ifBlock => "if"
  | elseBlock => "else"
  | forLoop => "for"
  | whileLoop => "while"
  | matchOn => "match"
  | continueLoop => "continue"
  | breakLoop => "break"
  | layout => "extends"
  | useFile => "use"
  | includeFile => "include"
  | render => "render"
  | renderBody => "render_body"
  | childContent => "child_content"
  | sectionBlock => "section"
  | raw => "raw"
  | function => "fn"

def follow : Keyword → Follow
  | ifBlock | elseBlock | forLoop | whileLoop | matchOn | raw | function => .head
  | useFile | includeFile | render | sectionBlock => .argument
  | continueLoop | breakLoop | layout | renderBody | childContent => .bare

/-- The keyword at the start of the text. The whole identifier there must be its word. -/
def recognize? (text : List Char) : Option Keyword :=
  let name := identHead text
  (all.find? fun keyword => keyword.word.toList == name).filter fun keyword =>
    keyword.follow.accepts text[name.length]?

end Keyword

end SigilTemplate
