import SigilTemplate.Json
import SigilTemplate.Tree.Fold

/-!
Trees as JSON. A node is an object with its type first and its span last; a
choice without content is its name, and one with content an object with the
name as its only member.
-/

namespace SigilTemplate

open Json

def Span.toJson (span : Span) : Json :=
  object [("start", number span.start), ("end", number span.stop)]

def Fragment.toJson (fragment : Fragment) : Json :=
  object [("text", string fragment.text), ("span", fragment.span.toJson)]

/-- A choice with its content. -/
def Json.choice (name : String) (content : Json) : Json := object [(name, content)]

def Code.Segment.toJson : Code.Segment → Json
  | .ident name => choice "ident" (string name)
  | .field name => choice "field" (string name)
  | .path name => choice "path" (string name)
  | .borrow name => choice "borrow" (string name)
  | .call arguments => choice "call" (string arguments)
  | .index argument => choice "index" (string argument)

def ExpressionKind.toJson : ExpressionKind → Json
  | simple refs segments =>
    choice "simple"
      (object [("refs", number refs), ("segments", array (segments.map Code.Segment.toJson))])
  | paren => string "paren"

def Parameter.toJson (parameter : Parameter) : Json :=
  object [("name", parameter.name.toJson), ("ty", parameter.type.toJson)]

def fragmentOrNull (fragment : Option Fragment) : Json := ofOption (fragment.map Fragment.toJson)

def Directive.toJson : Directive Json → Json
  | layout path => choice "extends" (object [("path", fragmentOrNull path)])
  | useFile path component =>
    choice "use" (object [("path", path.toJson), ("alias", fragmentOrNull component)])
  | includeFile path => choice "include" (object [("path", path.toJson)])
  | render name => choice "render" (object [("name", name.toJson)])
  | renderBody => string "render_body"
  | childContent => string "child_content"
  | sectionBlock name body =>
    choice "section" (object [("name", name.toJson), ("body", array body)])
  | sectionValue name value =>
    choice "section_inline" (object [("name", name.toJson), ("value", value.toJson)])
  | raw body => choice "raw" (object [("body", body.toJson)])
  | function name parameters body =>
    choice "fn" (object [("name", name.toJson), ("params", parameters.toJson), ("body", array body)])

def ElseClause.toJson : ElseClause Json → Json
  | chained node => choice "if" node
  | block body => choice "block" (array body)

def ArmBody.toJson : ArmBody Json → Json
  | block body => choice "block" (array body)
  | inline body => choice "inline" (array body)

def Arm.toJson (arm : Arm Json) : Json :=
  object [("pattern", arm.pattern.toJson), ("body", arm.body.toJson), ("span", arm.span.toJson)]

def Statement.toJson : Statement Json → Json
  | conditional condition body otherwise =>
    choice "if"
      (object [("condition", condition.toJson), ("body", array body),
        ("else_clause", ofOption (otherwise.map ElseClause.toJson))])
  | forLoop header body => choice "for" (object [("header", header.toJson), ("body", array body)])
  | whileLoop header body =>
    choice "while" (object [("header", header.toJson), ("body", array body)])
  | matchOn subject arms =>
    choice "match" (object [("subject", subject.toJson), ("arms", array (arms.map Arm.toJson))])
  | continueLoop => string "continue"
  | breakLoop => string "break"

def ArgumentValue.toJson : ArgumentValue Json → Json
  | flag => Json.string "flag"
  | bool value => choice "bool" (Json.bool value)
  | number text => choice "number" (Json.string text)
  | string text => choice "string" text.toJson
  | expression node => choice "expression" node
  | block body => choice "block" (array body)
  | code text => choice "rust" text.toJson

def Argument.toJson (argument : Argument Json) : Json :=
  object [("name", argument.name.toJson), ("value", argument.value.toJson),
    ("span", argument.span.toJson)]

def ComponentStyle.name : ComponentStyle → String
  | tag => "tag"
  | call => "call"

/-- What a form has between its type and its span. -/
def Form.members : Form Json → List (String × Json)
  | .text content => [("content", string content)]
  | .comment content => [("content", string content)]
  | .expression e =>
    [("kind", e.kind.toJson), ("code", string e.code), ("raw_output", bool e.raw)]
  | .codeBlock code => [("code", string code)]
  | .parameters list => [("params", array (list.map Parameter.toJson))]
  | .directive d => [("directive", d.toJson)]
  | .statement s => [("statement", s.toJson)]
  | .component c =>
    [("name", c.name.toJson), ("syntax", string c.style.name),
      ("parameters", array (c.arguments.map Argument.toJson)), ("body", array c.body),
      ("self_closing", bool c.selfClosing)]
  | .error cause nodes =>
    [("kind", string cause.kind.name), ("message", string cause.message), ("children", array nodes)]

def Form.toJson (form : Form Json) (span : Span) : Json :=
  object (("type", string form.typeName) :: form.members ++ [("span", span.toJson)])

def Node.toJson : Node → Json := Node.fold Form.toJson

def Tree.toJson (tree : Tree) : Json :=
  object [("nodes", array (tree.nodes.map Node.toJson)), ("content_start", number tree.contentStart)]

end SigilTemplate
