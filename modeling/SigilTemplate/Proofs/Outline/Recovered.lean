import SigilTemplate.Proofs.Outline.Bare
import SigilTemplate.Tree.Outline

/-!
Trees read back from their outlines. The name of a form tells what it is the
outline of; what a node, an arm or an argument holds is then found on the line
of the form and in the forms below it. For a tree in which no argument and no
tag hides something, this gives the tree without what its outline leaves out.
-/

namespace SigilTemplate

/-- A fragment of which the text is known. -/
def Fragment.shown (text : String) : Fragment := ⟨text, ⟨0, 0⟩⟩

namespace MalformationKind

def named : String → MalformationKind
  | "EmptyCondition" => .emptyCondition
  | "MissingBlock" => .missingBlock
  | "MalformedArm" => .malformedArm
  | "UnmatchedTag" => .unmatchedTag
  | "UnclosedTag" => .unclosedTag
  | "MalformedTag" => .malformedTag
  | "MalformedDirective" => .malformedDirective
  | "UnbalancedDelimiter" => .unbalancedDelimiter
  | "InvalidSigil" => .invalidSigil
  | _ => .unexpectedElse

@[simp]
theorem named_name (kind : MalformationKind) : named kind.name = kind := by
  cases kind <;> rfl

end MalformationKind

/-- What is read back from a form: what stands on its line, the nodes below it, and what it would be as a node, as an
arm and as an argument. -/
structure Recovered where
  name : String
  texts : List String
  nodes : List Node
  node : Node
  arm : Arm Node
  argument : Argument Node

namespace Recovered

def text (part : Recovered) : Fragment := .shown (part.texts.headD "")

def parameter (part : Recovered) : Parameter := ⟨part.text, .shown (part.texts.tail.headD "")⟩

/-- A component from its name and the forms below: its arguments, and its body if it has one. -/
def component (style : ComponentStyle) (name : String) (below : List Recovered) : Component Node :=
  let body := below.find? (·.name == "body")
  { name := .shown name
    style := style
    arguments := (below.filter (·.name == "param")).map (·.argument)
    body := (body.map (·.nodes)).getD []
    selfClosing := body.isNone }

/-- The nodes inside the first form. -/
def inner (below : List Recovered) : List Node := (below.head?.map (·.nodes)).getD []

def conditional : List Recovered → Statement Node
  | condition :: body :: otherwise =>
    .conditional condition.text body.nodes (otherwise.head?.map fun part => .block part.nodes)
  | _ => .breakLoop

def directive? (name : String) (texts : List String) (below : List Recovered) : Option (Directive Node) :=
  match name, texts with
  | "extends", _ => some (.layout (texts.head?.map .shown))
  | "use", [path] => some (.useFile (.shown path) (below.head?.map text))
  | "include", [path] => some (.includeFile (.shown path))
  | "render", [name] => some (.render (.shown name))
  | "render_body", _ => some .renderBody
  | "child_content", _ => some .childContent
  | "section", [name] => some (.sectionBlock (.shown name) (below.map (·.node)))
  | "section_inline", [name, value] => some (.sectionValue (.shown name) (.shown value))
  | "raw", [body] => some (.raw (.shown body))
  | "fn", [name, parameters] => some (.function (.shown name) (.shown parameters) (below.map (·.node)))
  | _, _ => none

def statement? (name : String) (texts : List String) (below : List Recovered) : Option (Statement Node) :=
  match name, texts with
  | "if", _ => some (conditional below)
  | "for", [header] => some (.forLoop (.shown header) (inner below))
  | "while", [header] => some (.whileLoop (.shown header) (inner below))
  | "match", [subject] => some (.matchOn (.shown subject) (below.map (·.arm)))
  | "continue", _ => some .continueLoop
  | "break", _ => some .breakLoop
  | _, _ => none

/-- The form that is outlined with this line and these forms below. -/
def form (name : String) (texts : List String) (word : Option String) (below : List Recovered) : Form Node :=
  match name, texts with
  | "text", [content] => .text content
  | "comment", [content] => .comment content
  | "expr", [code] => .expression ⟨.simple 0 [], code, false⟩
  | "raw_expr", [code] => .expression ⟨.simple 0 [], code, true⟩
  | "paren_expr", [code] => .expression ⟨.paren, code, false⟩
  | "raw_paren_expr", [code] => .expression ⟨.paren, code, true⟩
  | "code", [code] => .codeBlock code
  | "parameters", _ => .parameters (below.map parameter)
  | "component", [name] => .component (component .tag name below)
  | "component_call", [name] => .component (component .call name below)
  | "ERROR", _ => .error (MalformationKind.named (word.getD "")).representative (below.map (·.node))
  | _, _ =>
    match directive? name texts below, statement? name texts below with
    | some directive, _ => .directive directive
    | _, some statement => .statement statement
    | _, _ => .text ""

def armBody : List Recovered → ArmBody Node
  | [part] => if part.name = "block" then .block part.nodes else .inline part.nodes
  | _ => .inline []

/-- A word is a truth value or a number; a second text is a string; and a form below tells what it is by its name. -/
def value (texts : List String) (word : Option String) (below : List Recovered) : ArgumentValue Node :=
  match texts, word, below with
  | [_, text], _, _ => .string (.shown text)
  | _, some word, _ => if word = "true" then .bool true else if word = "false" then .bool false else .number word
  | _, none, [part] =>
    if part.name = "block" then .block part.nodes
    else if part.name = "rust" then .code part.text
    else .expression part.node
  | _, none, _ => .flag

/-- Arguments come first, and then at most a body. -/
theorem component_append {style : ComponentStyle} {name : String} {params : List Recovered} (body : Option Recovered)
    (isParam : ∀ part ∈ params, part.name = "param") (isBody : ∀ part ∈ body, part.name = "body") :
    component style name (params ++ body.toList) =
      ⟨.shown name, style, params.map (·.argument), (body.map (·.nodes)).getD [], body.isNone⟩ := by
  have arguments : params.filter (·.name == "param") = params := by
    rw [List.filter_eq_self]
    simpa using isParam
  have noBody : params.find? (·.name == "body") = none := by
    rw [List.find?_eq_none]
    intro part member
    simp [isParam part member]
  cases body with
  | none => simp [component, arguments, noBody]
  | some part => simp [component, List.filter_append, List.find?_append, arguments, noBody, isBody part rfl]

theorem value_number {name text : String} (notTrue : text ≠ "true") (notFalse : text ≠ "false") :
    value [name] (some text) [] = .number text := by
  simp [value, notTrue, notFalse]

theorem value_node {name : String} {part : Recovered} (other : part.name ≠ "block" ∧ part.name ≠ "rust") :
    value [name] none [part] = .expression part.node := by
  simp [value, other]

def ofForm (name : String) (texts : List String) (word : Option String) (below : List Recovered) : Recovered where
  name := name
  texts := texts
  nodes := below.map (·.node)
  node := ⟨form name texts word below, ⟨0, 0⟩⟩
  arm := ⟨.shown (texts.headD ""), armBody below, ⟨0, 0⟩⟩
  argument := ⟨.shown (texts.headD ""), value texts word below, ⟨0, 0⟩⟩

end Recovered

namespace Outline

mutual

def recover : Outline → Recovered
  | form name texts word below => .ofForm name texts word (recoverAll below)

def recoverAll : List Outline → List Recovered
  | [] => []
  | outline :: rest => recover outline :: recoverAll rest

end

theorem recoverAll_eq (outlines : List Outline) : recoverAll outlines = outlines.map recover := by
  induction outlines with
  | nil => rfl
  | cons outline rest ih => rw [recoverAll, ih, List.map_cons]

@[simp]
theorem recover_form (name : String) (texts : List String) (word : Option String) (below : List Outline) :
    (form name texts word below).recover = .ofForm name texts word (below.map recover) := by
  rw [recover, recoverAll_eq]

@[simp]
theorem recover_group (name : String) (below : List Outline) :
    (group name below).recover = .ofForm name [] none (below.map recover) :=
  recover_form name [] none below

end Outline

open Outline

/-- The node is read back from its outline, as far as that shows it. -/
def Node.Recovers (node : Node) : Prop := node.outline.recover.node = node.bare

theorem Node.map_recovers (nodes : List Node) (each : ∀ node ∈ nodes, node.Recovers) :
    ((nodes.map Node.outline).map recover).map (·.node) = nodes.map Node.bare := by
  rw [List.map_map, List.map_map]
  exact List.map_congr_left each

theorem Directive.recovers (directive : Directive Node) (each : ∀ child ∈ directive.children, child.Recovers) :
    (directive.map Node.outline).outline.recover.node =
      ⟨.directive ((directive.map Node.bare).mapOffsets fun _ => 0), ⟨0, 0⟩⟩ := by
  cases directive with
  | layout path => cases path <;> rfl
  | useFile path component => cases component <;> rfl
  | sectionBlock name body =>
    rw [map, outline, recover_form, map, ← Node.map_recovers body each]
    rfl
  | function name parameters body =>
    rw [map, outline, recover_form, map, ← Node.map_recovers body each]
    rfl
  | _ => rfl

/-- A group has the nodes below it. -/
theorem nodes_recover_group (name : String) (nodes : List Node) (each : ∀ node ∈ nodes, node.Recovers) :
    (group name (nodes.map Node.outline)).recover.nodes = nodes.map Node.bare := by
  rw [recover_group]
  exact Node.map_recovers nodes each

theorem ElseClause.recovers (clause : ElseClause Node) (each : ∀ child ∈ clause.nodes, child.Recovers) :
    (clause.map Node.outline).outline.recover.nodes = (clause.map Node.bare).nodes := by
  cases clause with
  | chained node => exact nodes_recover_group _ [node] each
  | block body => exact nodes_recover_group _ body each

theorem Arm.recovers (arm : Arm Node) (each : ∀ child ∈ arm.body.nodes, child.Recovers) :
    (arm.map Node.outline).outline.recover.arm = (arm.map Node.bare).mapOffsets fun _ => 0 := by
  obtain ⟨pattern, body, span⟩ := arm
  cases body with
  | block nodes =>
    rw [map, outline, recover_form, map, ArmBody.map, ArmBody.map, ← nodes_recover_group "block" nodes each]
    rfl
  | inline nodes =>
    rw [map, outline, recover_form, map, ArmBody.map, ArmBody.map, ← nodes_recover_group "inline" nodes each]
    rfl

theorem Statement.recovers (statement : Statement Node) (each : ∀ child ∈ statement.children, child.Recovers) :
    (statement.map Node.outline).outline.recover.node =
      ⟨.statement ((statement.map Node.bare).bare.mapOffsets fun _ => 0), ⟨0, 0⟩⟩ := by
  cases statement with
  | conditional condition body otherwise =>
    have own := nodes_recover_group "body" body fun child member => each child (by simp [children, member])
    cases otherwise with
    | none =>
      simp only [map, outline, bare, mapOffsets, Option.map_none, ← own]
      rfl
    | some clause =>
      have other := clause.recovers fun child member => each child (by simp [children, member])
      simp only [map, outline, bare, mapOffsets, Option.map_some, ← own, ← other]
      rfl
  | forLoop header body =>
    rw [map, outline, recover_form, map, ← nodes_recover_group "body" body each]
    rfl
  | whileLoop header body =>
    rw [map, outline, recover_form, map, ← nodes_recover_group "body" body each]
    rfl
  | matchOn subject arms =>
    have all : (((arms.map (Arm.map Node.outline)).map Arm.outline).map recover).map (·.arm) =
        (arms.map (Arm.map Node.bare)).map (Arm.mapOffsets fun _ => 0) := by
      simp only [List.map_map]
      apply List.map_congr_left
      intro arm member
      exact arm.recovers fun child inside => each child (List.mem_flatMap.mpr ⟨arm, member, inside⟩)
    rw [map, outline, recover_form, map, bare, mapOffsets, ← all]
    · rfl
    · simp
  | _ => rfl

/-! ## Components -/

def Outline.name : Outline → String
  | form name _ _ _ => name

@[simp]
theorem name_recover (outline : Outline) : outline.recover.name = outline.name := by
  cases outline
  rw [recover_form]
  rfl

/-- A node is not outlined by the names that tell a block or code from a node in an argument. -/
theorem Node.name_outline (node : Node) : node.outline.name ≠ "block" ∧ node.outline.name ≠ "rust" := by
  obtain ⟨form, span⟩ := node
  rw [outline, fold_mk]
  generalize form.map (Node.fold fun form _ => form.outline) = outlined
  cases outlined with
  | expression e =>
    obtain ⟨kind, code, raw⟩ := e
    cases kind <;> cases raw <;> simp [Form.outline, Expression.outlineName, leaf, Outline.name]
  | directive d => cases d <;> simp [Form.outline, Directive.outline, leaf, Outline.name]
  | statement s => cases s <;> simp [Form.outline, Statement.outline, leaf, group, Outline.name]
  | component c =>
    obtain ⟨name, style, arguments, body, selfClosing⟩ := c
    cases style <;> simp [Form.outline, Component.outline, ComponentStyle.outlineName, Outline.name]
  | _ => simp [Form.outline, leaf, group, Outline.name]

theorem Argument.recovers (argument : Argument Node) (definite : argument.value.Definite)
    (each : ∀ child ∈ argument.value.nodes, child.Recovers) :
    (argument.map Node.outline).outline.recover.argument = (argument.map Node.bare).mapOffsets fun _ => 0 := by
  obtain ⟨name, value, span⟩ := argument
  cases value with
  | bool value => cases value <;> rfl
  | number text =>
    have numeric := all_of_isNumber (definite text rfl)
    have notTrue : text ≠ "true" := by
      rintro rfl
      exact absurd numeric (by decide)
    have notFalse : text ≠ "false" := by
      rintro rfl
      exact absurd numeric (by decide)
    exact congrArg (Argument.mk (.shown name.text) · ⟨0, 0⟩) (Recovered.value_number notTrue notFalse)
  | expression node =>
    have read : node.Recovers := each node (by simp [ArgumentValue.nodes])
    have other : node.outline.recover.name ≠ "block" ∧ node.outline.recover.name ≠ "rust" := by
      rw [name_recover]
      exact node.name_outline
    rw [map, ArgumentValue.map, outline, recover_form, map, ArgumentValue.map, ← read]
    exact congrArg (Argument.mk (.shown name.text) · ⟨0, 0⟩) (Recovered.value_node other)
  | block body =>
    rw [map, ArgumentValue.map, outline, recover_form, map, ArgumentValue.map,
      ← nodes_recover_group "block" body each]
    rfl
  | _ => rfl

theorem Argument.name_outline (argument : Argument Outline) : argument.outline.name = "param" := by
  obtain ⟨name, value, span⟩ := argument
  cases value <;> rfl

/-- The forms of some arguments are marked as such, and the arguments are read back from them. -/
theorem arguments_recover {arguments : List (Argument Node)}
    (definite : ∀ argument ∈ arguments, argument.value.Definite) (each : ∀ child ∈ argumentNodes arguments, child.Recovers) :
    (∀ part ∈ ((arguments.map (Argument.map Node.outline)).map Argument.outline).map recover, part.name = "param") ∧
      (((arguments.map (Argument.map Node.outline)).map Argument.outline).map recover).map (·.argument) =
        (arguments.map (Argument.map Node.bare)).map (Argument.mapOffsets fun _ => 0) := by
  constructor
  · simp [Argument.name_outline]
  · simp only [List.map_map]
    apply List.map_congr_left
    intro argument member
    apply argument.recovers (definite argument member)
    intro child inside
    exact each child (List.mem_flatMap.mpr ⟨argument, member, inside⟩)

theorem Component.recovers (component : Component Node) (definite : component.Definite)
    (each : ∀ child ∈ argumentNodes component.arguments ++ component.body, child.Recovers) :
    (component.map Node.outline).outline.recover.node =
      ⟨.component ((component.map Node.bare).mapOffsets fun _ => 0), ⟨0, 0⟩⟩ := by
  obtain ⟨name, style, arguments, body, selfClosing⟩ := component
  obtain ⟨isParam, values⟩ :=
    arguments_recover definite.values fun child member => each child (List.mem_append_left _ member)
  have inside : (group "body" (body.map Node.outline)).recover.nodes = body.map Node.bare :=
    nodes_recover_group _ body fun child member => each child (List.mem_append_right _ member)
  have named (below : List Recovered) :
      (Recovered.ofForm style.outlineName [name.text] none below).node =
        ⟨.component (Recovered.component style name.text below), ⟨0, 0⟩⟩ := by
    cases style <;> rfl
  rw [map, outline, recover_form, named, List.map_append, map, mapOffsets]
  refine congrArg (Node.mk · ⟨0, 0⟩) (congrArg Form.component ?_)
  rw [← values]
  cases selfClosing with
  | true =>
    obtain rfl : body = [] := definite.body rfl
    exact Recovered.component_append none isParam (by simp)
  | false =>
    rw [← inside]
    refine Recovered.component_append (some (group "body" (body.map Node.outline)).recover) isParam ?_
    rintro part ⟨⟩
    rw [name_recover]
    rfl

/-- A definite tree is read back from its outline, without what that leaves out. By induction on the tree. -/
theorem Node.Definite.recovers {node : Node} (definite : node.Definite) : node.Recovers := by
  induction definite with
  | @mk node definite below ih =>
    obtain ⟨form, span⟩ := node
    have each : ∀ child ∈ form.children, child.Recovers := ih
    rw [Recovers, outline, fold_mk, bare_mk]
    cases form with
    | expression e =>
      obtain ⟨kind, code, raw⟩ := e
      cases kind <;> cases raw <;> rfl
    | parameters list =>
      have read : ((list.map fun parameter => leaf "parameter" [parameter.name.text, parameter.type.text]).map
          recover).map Recovered.parameter = list.map (Parameter.mapOffsets fun _ => 0) := by
        rw [List.map_map, List.map_map]
        exact List.map_congr_left fun parameter _ => rfl
      rw [Form.map, Form.outline, recover_group]
      exact congrArg (Node.mk · ⟨0, 0⟩) (congrArg Form.parameters read)
    | directive d => exact d.recovers each
    | statement s => exact s.recovers each
    | component c => exact c.recovers (definite c rfl) each
    | error cause nodes =>
      have same : (MalformationKind.named cause.kind.name).representative = cause.kind.representative := by
        rw [MalformationKind.named_name]
      rw [Form.map, Form.outline, recover_form, Form.map, Form.bare, ← Node.map_recovers nodes each, ← same]
      rfl
    | _ => rfl

end SigilTemplate
