import SigilTemplate.Text.Quoted
import SigilTemplate.Tree.Fold

/-!
The outline of a tree shows its structure: one parenthesised form for each
node, its texts quoted on the first line and the forms below it on lines of
their own, two spaces further in. Spans are left out.
-/

namespace SigilTemplate

open Text

/-- A parenthesised form: its name with the texts and perhaps a bare word on its line, and the forms below it. -/
inductive Outline where
  | form (name : String) (texts : List String) (word : Option String) (below : List Outline)

namespace Outline

def indent (depth : Nat) : List Char := List.replicate (2 * depth) ' '

/-- What stands on the line of a form: its name, the texts in quotes, and the word as it is. -/
def line (name : String) (texts : List String) (word : Option String) : List Char :=
  name.toList ++ (texts.flatMap fun text => ' ' :: quote text.toList) ++
    (word.toList.flatMap fun word => ' ' :: word.toList)

mutual

/-- The lines of a form whose own first line is already indented by `depth` steps. -/
def chars (depth : Nat) : Outline → List Char
  | form name texts word below => '(' :: line name texts word ++ charsBelow (depth + 1) below ++ [')']

def charsBelow (depth : Nat) : List Outline → List Char
  | [] => []
  | outline :: rest => '\n' :: indent depth ++ chars depth outline ++ charsBelow depth rest

end

/-- A form with nothing below it. -/
def leaf (name : String) (texts : List String) : Outline := form name texts none []

/-- A form with some forms below it. -/
def group (name : String) (below : List Outline) : Outline := form name [] none below

end Outline

open Outline

def Expression.outlineName (e : Expression) : String :=
  match e.kind, e.raw with
  | .simple _ _, false => "expr"
  | .simple _ _, true => "raw_expr"
  | .paren, false => "paren_expr"
  | .paren, true => "raw_paren_expr"

def Directive.outline : Directive Outline → Outline
  | layout path => leaf "extends" (path.toList.map (·.text))
  | useFile path component =>
    form "use" [path.text] none (component.toList.map fun name => leaf "alias" [name.text])
  | includeFile path => leaf "include" [path.text]
  | render name => leaf "render" [name.text]
  | renderBody => leaf "render_body" []
  | childContent => leaf "child_content" []
  | sectionBlock name body => form "section" [name.text] none body
  | sectionValue name value => leaf "section_inline" [name.text, value.text]
  | raw body => leaf "raw" [body.text]
  | function name parameters body => form "fn" [name.text, parameters.text] none body

def ElseClause.outline : ElseClause Outline → Outline
  | chained node => group "else" [node]
  | block body => group "else" body

def Arm.outline (arm : Arm Outline) : Outline :=
  form "arm" [arm.pattern.text] none
    [match arm.body with
      | .block body => group "block" body
      | .inline body => group "inline" body]

def Statement.outline : Statement Outline → Outline
  | conditional condition body otherwise =>
    group "if"
      ([leaf "condition" [condition.text], group "body" body] ++ otherwise.toList.map ElseClause.outline)
  | forLoop header body => form "for" [header.text] none [group "body" body]
  | whileLoop header body => form "while" [header.text] none [group "body" body]
  | matchOn subject arms => form "match" [subject.text] none (arms.map Arm.outline)
  | continueLoop => leaf "continue" []
  | breakLoop => leaf "break" []

def Argument.outline (argument : Argument Outline) : Outline :=
  let name := argument.name.text
  match argument.value with
  | .flag => leaf "param" [name]
  | .bool value => form "param" [name] (some (if value then "true" else "false")) []
  | .number text => form "param" [name] (some text) []
  | .string text => leaf "param" [name, text.text]
  | .expression node => form "param" [name] none [node]
  | .block body => form "param" [name] none [group "block" body]
  | .code text => form "param" [name] none [leaf "rust" [text.text]]

def ComponentStyle.outlineName : ComponentStyle → String
  | tag => "component"
  | call => "component_call"

def Component.outline (component : Component Outline) : Outline :=
  form component.style.outlineName [component.name.text] none
    (component.arguments.map Argument.outline ++
      if component.selfClosing then [] else [group "body" component.body])

def Form.outline : Form Outline → Outline
  | .text content => leaf "text" [content]
  | .comment content => leaf "comment" [content]
  | .expression e => leaf e.outlineName [e.code]
  | .codeBlock code => leaf "code" [code]
  | .parameters list =>
    group "parameters" (list.map fun parameter => leaf "parameter" [parameter.name.text, parameter.type.text])
  | .directive d => d.outline
  | .statement s => s.outline
  | .component c => c.outline
  | .error cause nodes => form "ERROR" [] (some cause.kind.name) nodes

def Node.outline : Node → Outline := Node.fold fun form _ => form.outline

/-- The written outline of one node. -/
def Node.outlineText (node : Node) : String := String.ofList (node.outline.chars 0)

/-- The outlines of all nodes, under a form of their own. -/
def Tree.outline (tree : Tree) : Outline := group "template" (tree.nodes.map Node.outline)

/-- The written outline of a tree. -/
def Tree.outlineText (tree : Tree) : String := String.ofList (tree.outline.chars 0)

end SigilTemplate
