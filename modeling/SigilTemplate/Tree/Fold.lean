import SigilTemplate.Tree.Basic

/-!
Children of a form in document order, the map over them, and the fold over a
tree. A fold is one function at one form whose children have been replaced by
their values; `Node.fold_mk` is its equation, and `Node.induct` the induction
that goes with it.
-/

namespace SigilTemplate

variable {α β : Type}

def ElseClause.nodes : ElseClause α → List α
  | chained node => [node]
  | block body => body

def ElseClause.map (f : α → β) : ElseClause α → ElseClause β
  | chained node => .chained (f node)
  | block body => .block (body.map f)

def ArmBody.nodes : ArmBody α → List α
  | block body => body
  | inline body => body

def ArmBody.map (f : α → β) : ArmBody α → ArmBody β
  | block body => .block (body.map f)
  | inline body => .inline (body.map f)

def Arm.map (f : α → β) (arm : Arm α) : Arm β := ⟨arm.pattern, arm.body.map f, arm.span⟩

def ArgumentValue.nodes : ArgumentValue α → List α
  | expression node => [node]
  | block body => body
  | flag | bool _ | number _ | string _ | code _ => []

def ArgumentValue.map (f : α → β) : ArgumentValue α → ArgumentValue β
  | flag => .flag
  | bool value => .bool value
  | number text => .number text
  | string text => .string text
  | expression node => .expression (f node)
  | block body => .block (body.map f)
  | code text => .code text

def Argument.map (f : α → β) (argument : Argument α) : Argument β :=
  ⟨argument.name, argument.value.map f, argument.span⟩

/-- The nodes in the values of some arguments. -/
def argumentNodes (arguments : List (Argument α)) : List α :=
  arguments.flatMap fun argument => argument.value.nodes

/-- The nodes in the bodies of some arms. -/
def armNodes (arms : List (Arm α)) : List α := arms.flatMap fun arm => arm.body.nodes

def Directive.children : Directive α → List α
  | sectionBlock _ body => body
  | function _ _ body => body
  | layout _ | useFile _ _ | includeFile _ | render _ | renderBody | childContent
  | sectionValue _ _ | raw _ => []

def Directive.map (f : α → β) : Directive α → Directive β
  | layout path => .layout path
  | useFile path component => .useFile path component
  | includeFile path => .includeFile path
  | render name => .render name
  | renderBody => .renderBody
  | childContent => .childContent
  | sectionBlock name body => .sectionBlock name (body.map f)
  | sectionValue name value => .sectionValue name value
  | raw body => .raw body
  | function name parameters body => .function name parameters (body.map f)

def Statement.children : Statement α → List α
  | conditional _ body otherwise => body ++ (otherwise.map ElseClause.nodes).getD []
  | forLoop _ body => body
  | whileLoop _ body => body
  | matchOn _ arms => armNodes arms
  | continueLoop | breakLoop => []

def Statement.map (f : α → β) : Statement α → Statement β
  | conditional condition body otherwise =>
    .conditional condition (body.map f) (otherwise.map (ElseClause.map f))
  | forLoop header body => .forLoop header (body.map f)
  | whileLoop header body => .whileLoop header (body.map f)
  | matchOn subject arms => .matchOn subject (arms.map (Arm.map f))
  | continueLoop => .continueLoop
  | breakLoop => .breakLoop

def Component.map (f : α → β) (component : Component α) : Component β :=
  { name := component.name
    style := component.style
    arguments := component.arguments.map (Argument.map f)
    body := component.body.map f
    selfClosing := component.selfClosing }

/-- The children in document order. -/
def Form.children : Form α → List α
  | .text _ | .comment _ | .expression _ | .codeBlock _ | .parameters _ => []
  | .directive d => d.children
  | .statement s => s.children
  | .component c => argumentNodes c.arguments ++ c.body
  | .error _ nodes => nodes

def Form.map (f : α → β) : Form α → Form β
  | .text content => .text content
  | .comment content => .comment content
  | .expression e => .expression e
  | .codeBlock code => .codeBlock code
  | .parameters list => .parameters list
  | .directive d => .directive (d.map f)
  | .statement s => .statement (s.map f)
  | .component c => .component (c.map f)
  | .error cause nodes => .error cause (nodes.map f)

theorem ElseClause.nodes_map (f : α → β) (clause : ElseClause α) :
    (clause.map f).nodes = clause.nodes.map f := by
  cases clause <;> simp [map, nodes]

theorem ArmBody.nodes_map (f : α → β) (body : ArmBody α) : (body.map f).nodes = body.nodes.map f := by
  cases body <;> simp [map, nodes]

theorem ArgumentValue.nodes_map (f : α → β) (value : ArgumentValue α) :
    (value.map f).nodes = value.nodes.map f := by
  cases value <;> simp [map, nodes]

theorem argumentNodes_map (f : α → β) (arguments : List (Argument α)) :
    argumentNodes (arguments.map (Argument.map f)) = (argumentNodes arguments).map f := by
  simp [argumentNodes, List.flatMap_map, List.map_flatMap, Argument.map, ArgumentValue.nodes_map]

theorem armNodes_map (f : α → β) (arms : List (Arm α)) :
    armNodes (arms.map (Arm.map f)) = (armNodes arms).map f := by
  simp [armNodes, List.flatMap_map, List.map_flatMap, Arm.map, ArmBody.nodes_map]

theorem Directive.children_map (f : α → β) (directive : Directive α) :
    (directive.map f).children = directive.children.map f := by
  cases directive <;> simp [map, children]

theorem Statement.children_map (f : α → β) (statement : Statement α) :
    (statement.map f).children = statement.children.map f := by
  cases statement with
  | conditional condition body otherwise =>
    cases otherwise <;> simp [map, children, ElseClause.nodes_map]
  | matchOn subject arms => simp [map, children, armNodes_map]
  | _ => simp [map, children]

/-- Mapping a form maps its children. -/
theorem Form.children_map (f : α → β) (form : Form α) : (form.map f).children = form.children.map f := by
  cases form <;>
    simp [map, children, Directive.children_map, Statement.children_map, Component.map, argumentNodes_map]

/-! A child is smaller than what it is a child of. -/

section Size

variable [SizeOf α] {a : α}

theorem ElseClause.sizeOf_lt {clause : ElseClause α} (h : a ∈ clause.nodes) :
    sizeOf a < sizeOf clause := by
  cases clause with
  | chained node => simp [nodes] at h; subst h; simp
  | block body => have := List.sizeOf_lt_of_mem h; simp only [nodes] at this; simp; omega

theorem ArmBody.sizeOf_lt {body : ArmBody α} (h : a ∈ body.nodes) : sizeOf a < sizeOf body := by
  cases body with
  | block | inline => have := List.sizeOf_lt_of_mem h; simp only [nodes] at this; simp; omega

theorem ArgumentValue.sizeOf_lt {value : ArgumentValue α} (h : a ∈ value.nodes) :
    sizeOf a < sizeOf value := by
  cases value with
  | expression node => simp [nodes] at h; subst h; simp
  | block body => have := List.sizeOf_lt_of_mem h; simp only [nodes] at this; simp; omega
  | _ => simp [nodes] at h

theorem sizeOf_lt_of_mem_argumentNodes {arguments : List (Argument α)} (h : a ∈ argumentNodes arguments) :
    sizeOf a < sizeOf arguments := by
  obtain ⟨argument, mem, h⟩ := List.mem_flatMap.mp h
  have outer := List.sizeOf_lt_of_mem mem
  have inner := ArgumentValue.sizeOf_lt h
  cases argument; simp at outer inner ⊢; omega

theorem sizeOf_lt_of_mem_armNodes {arms : List (Arm α)} (h : a ∈ armNodes arms) :
    sizeOf a < sizeOf arms := by
  obtain ⟨arm, mem, h⟩ := List.mem_flatMap.mp h
  have outer := List.sizeOf_lt_of_mem mem
  have inner := ArmBody.sizeOf_lt h
  cases arm; simp at outer inner ⊢; omega

theorem Directive.sizeOf_lt {d : Directive α} (h : a ∈ d.children) : sizeOf a < sizeOf d := by
  cases d with
  | sectionBlock | function =>
    have := List.sizeOf_lt_of_mem h; simp only [children] at this; simp; omega
  | _ => simp [children] at h

theorem Statement.sizeOf_lt {s : Statement α} (h : a ∈ s.children) : sizeOf a < sizeOf s := by
  cases s with
  | conditional condition body otherwise =>
    rcases List.mem_append.mp h with h | h
    · have := List.sizeOf_lt_of_mem h; simp; omega
    · cases otherwise with
      | none => simp at h
      | some clause =>
        have : sizeOf a < sizeOf clause := ElseClause.sizeOf_lt h
        simp; omega
  | forLoop | whileLoop => have := List.sizeOf_lt_of_mem h; simp only [children] at this; simp; omega
  | matchOn subject arms =>
    have : sizeOf a < sizeOf arms := sizeOf_lt_of_mem_armNodes h
    simp; omega
  | continueLoop | breakLoop => simp [children] at h

theorem Form.sizeOf_lt {form : Form α} (h : a ∈ form.children) : sizeOf a < sizeOf form := by
  cases form with
  | directive d => have := Directive.sizeOf_lt (d := d) h; simp; omega
  | statement s => have := Statement.sizeOf_lt (s := s) h; simp; omega
  | component c =>
    cases c
    rcases List.mem_append.mp h with h | h
    · have := sizeOf_lt_of_mem_argumentNodes h; simp at this ⊢; omega
    · have := List.sizeOf_lt_of_mem h; simp at this ⊢; omega
  | error cause nodes => have := List.sizeOf_lt_of_mem h; simp only [children] at this; simp; omega
  | _ => simp [children] at h

end Size

namespace Node

def children (node : Node) : List Node := node.form.children

theorem sizeOf_lt_of_mem_children {node child : Node} (h : child ∈ node.children) :
    sizeOf child < sizeOf node := by
  obtain ⟨form, span⟩ := node
  have : sizeOf child < sizeOf form := Form.sizeOf_lt h
  simp; omega

/-- Induction over a tree: what holds of a node whenever it holds of its children holds of all. -/
theorem induct {motive : Node → Prop}
    (step : ∀ node, (∀ child ∈ node.children, motive child) → motive node) (node : Node) :
    motive node :=
  step node fun child _ => induct step child
termination_by node
decreasing_by exact sizeOf_lt_of_mem_children ‹_›

end Node

mutual

/-- The value of a tree under a function that gives the value of one form from its children's. -/
def Node.fold (f : Form β → Span → β) : Node → β
  | ⟨.text content, span⟩ => f (.text content) span
  | ⟨.comment content, span⟩ => f (.comment content) span
  | ⟨.expression e, span⟩ => f (.expression e) span
  | ⟨.codeBlock code, span⟩ => f (.codeBlock code) span
  | ⟨.parameters list, span⟩ => f (.parameters list) span
  | ⟨.directive (.layout path), span⟩ => f (.directive (.layout path)) span
  | ⟨.directive (.useFile path component), span⟩ => f (.directive (.useFile path component)) span
  | ⟨.directive (.includeFile path), span⟩ => f (.directive (.includeFile path)) span
  | ⟨.directive (.render name), span⟩ => f (.directive (.render name)) span
  | ⟨.directive .renderBody, span⟩ => f (.directive .renderBody) span
  | ⟨.directive .childContent, span⟩ => f (.directive .childContent) span
  | ⟨.directive (.sectionBlock name body), span⟩ =>
    f (.directive (.sectionBlock name (foldNodes f [] body))) span
  | ⟨.directive (.sectionValue name value), span⟩ => f (.directive (.sectionValue name value)) span
  | ⟨.directive (.raw body), span⟩ => f (.directive (.raw body)) span
  | ⟨.directive (.function name parameters body), span⟩ =>
    f (.directive (.function name parameters (foldNodes f [] body))) span
  | ⟨.statement (.conditional condition body none), span⟩ =>
    f (.statement (.conditional condition (foldNodes f [] body) none)) span
  | ⟨.statement (.conditional condition body (some (.chained node))), span⟩ =>
    f (.statement (.conditional condition (foldNodes f [] body) (some (.chained (node.fold f))))) span
  | ⟨.statement (.conditional condition body (some (.block other))), span⟩ =>
    f (.statement
      (.conditional condition (foldNodes f [] body) (some (.block (foldNodes f [] other))))) span
  | ⟨.statement (.forLoop header body), span⟩ =>
    f (.statement (.forLoop header (foldNodes f [] body))) span
  | ⟨.statement (.whileLoop header body), span⟩ =>
    f (.statement (.whileLoop header (foldNodes f [] body))) span
  | ⟨.statement (.matchOn subject arms), span⟩ =>
    f (.statement (.matchOn subject (foldArms f arms))) span
  | ⟨.statement .continueLoop, span⟩ => f (.statement .continueLoop) span
  | ⟨.statement .breakLoop, span⟩ => f (.statement .breakLoop) span
  | ⟨.component ⟨name, style, arguments, body, selfClosing⟩, span⟩ =>
    f (.component ⟨name, style, foldArguments f arguments, foldNodes f [] body, selfClosing⟩) span
  | ⟨.error cause nodes, span⟩ => f (.error cause (foldNodes f [] nodes)) span

/-- The values of some trees, after others that are given in reverse. -/
def foldNodes (f : Form β → Span → β) (done : List β) : List Node → List β
  | [] => done.reverse
  | node :: rest => foldNodes f (node.fold f :: done) rest

def foldArms (f : Form β → Span → β) : List (Arm Node) → List (Arm β)
  | [] => []
  | ⟨pattern, .block body, span⟩ :: rest =>
    ⟨pattern, .block (foldNodes f [] body), span⟩ :: foldArms f rest
  | ⟨pattern, .inline body, span⟩ :: rest =>
    ⟨pattern, .inline (foldNodes f [] body), span⟩ :: foldArms f rest

def foldArguments (f : Form β → Span → β) : List (Argument Node) → List (Argument β)
  | [] => []
  | ⟨name, .flag, span⟩ :: rest => ⟨name, .flag, span⟩ :: foldArguments f rest
  | ⟨name, .bool value, span⟩ :: rest => ⟨name, .bool value, span⟩ :: foldArguments f rest
  | ⟨name, .number text, span⟩ :: rest => ⟨name, .number text, span⟩ :: foldArguments f rest
  | ⟨name, .string text, span⟩ :: rest => ⟨name, .string text, span⟩ :: foldArguments f rest
  | ⟨name, .expression node, span⟩ :: rest =>
    ⟨name, .expression (node.fold f), span⟩ :: foldArguments f rest
  | ⟨name, .block body, span⟩ :: rest =>
    ⟨name, .block (foldNodes f [] body), span⟩ :: foldArguments f rest
  | ⟨name, .code text, span⟩ :: rest => ⟨name, .code text, span⟩ :: foldArguments f rest

end

theorem foldNodes_eq (f : Form β → Span → β) (done : List β) (nodes : List Node) :
    foldNodes f done nodes = done.reverse ++ nodes.map (Node.fold f) := by
  induction nodes generalizing done with
  | nil => simp [foldNodes]
  | cons node rest ih => simp [foldNodes, ih]

theorem foldArms_eq (f : Form β → Span → β) (arms : List (Arm Node)) :
    foldArms f arms = arms.map (Arm.map (Node.fold f)) := by
  induction arms with
  | nil => rfl
  | cons arm rest ih =>
    obtain ⟨pattern, body, span⟩ := arm
    cases body <;> simp [foldArms, foldNodes_eq, Arm.map, ArmBody.map, ih]

theorem foldArguments_eq (f : Form β → Span → β) (arguments : List (Argument Node)) :
    foldArguments f arguments = arguments.map (Argument.map (Node.fold f)) := by
  induction arguments with
  | nil => rfl
  | cons argument rest ih =>
    obtain ⟨name, value, span⟩ := argument
    cases value <;> simp [foldArguments, foldNodes_eq, Argument.map, ArgumentValue.map, ih]

/-- A fold gives the children their values and then the form its own. -/
theorem Node.fold_mk (f : Form β → Span → β) (form : Form Node) (span : Span) :
    Node.fold f ⟨form, span⟩ = f (form.map (Node.fold f)) span := by
  cases form with
  | directive d => cases d <;> simp [fold, Form.map, Directive.map, foldNodes_eq]
  | statement s =>
    cases s with
    | conditional condition body otherwise =>
      cases otherwise with
      | none => simp [fold, Form.map, Statement.map, foldNodes_eq]
      | some clause => cases clause <;> simp [fold, Form.map, Statement.map, ElseClause.map, foldNodes_eq]
    | _ => simp [fold, Form.map, Statement.map, foldNodes_eq, foldArms_eq]
  | component c => cases c; simp [fold, Form.map, Component.map, foldNodes_eq, foldArguments_eq]
  | _ => simp [fold, Form.map, foldNodes_eq]

end SigilTemplate
