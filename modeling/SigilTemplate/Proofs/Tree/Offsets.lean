import SigilTemplate.Tree.Fold

/-!
Trees with other offsets. A tree holds offsets in the spans of its nodes, and in
the spans of fragments, parameters, arms and arguments. `Node.mapOffsets`
replaces each of them by its value under a function and leaves the rest as it
is.
-/

namespace SigilTemplate

variable {α β γ : Type}

def Span.mapOffsets (f : Nat → Nat) (span : Span) : Span := ⟨f span.start, f span.stop⟩

def Fragment.mapOffsets (f : Nat → Nat) (fragment : Fragment) : Fragment := ⟨fragment.text, fragment.span.mapOffsets f⟩

def Parameter.mapOffsets (f : Nat → Nat) (parameter : Parameter) : Parameter :=
  ⟨parameter.name.mapOffsets f, parameter.type.mapOffsets f⟩

def Directive.mapOffsets (f : Nat → Nat) : Directive α → Directive α
  | layout path => .layout (path.map (Fragment.mapOffsets f))
  | useFile path component => .useFile (path.mapOffsets f) (component.map (Fragment.mapOffsets f))
  | includeFile path => .includeFile (path.mapOffsets f)
  | render name => .render (name.mapOffsets f)
  | renderBody => .renderBody
  | childContent => .childContent
  | sectionBlock name body => .sectionBlock (name.mapOffsets f) body
  | sectionValue name value => .sectionValue (name.mapOffsets f) (value.mapOffsets f)
  | raw body => .raw (body.mapOffsets f)
  | function name parameters body => .function (name.mapOffsets f) (parameters.mapOffsets f) body

def Arm.mapOffsets (f : Nat → Nat) (arm : Arm α) : Arm α :=
  ⟨arm.pattern.mapOffsets f, arm.body, arm.span.mapOffsets f⟩

def Statement.mapOffsets (f : Nat → Nat) : Statement α → Statement α
  | conditional condition body otherwise => .conditional (condition.mapOffsets f) body otherwise
  | forLoop header body => .forLoop (header.mapOffsets f) body
  | whileLoop header body => .whileLoop (header.mapOffsets f) body
  | matchOn subject arms => .matchOn (subject.mapOffsets f) (arms.map (Arm.mapOffsets f))
  | continueLoop => .continueLoop
  | breakLoop => .breakLoop

def ArgumentValue.mapOffsets (f : Nat → Nat) : ArgumentValue α → ArgumentValue α
  | string text => .string (text.mapOffsets f)
  | code text => .code (text.mapOffsets f)
  | value => value

def Argument.mapOffsets (f : Nat → Nat) (argument : Argument α) : Argument α :=
  ⟨argument.name.mapOffsets f, argument.value.mapOffsets f, argument.span.mapOffsets f⟩

def Component.mapOffsets (f : Nat → Nat) (component : Component α) : Component α :=
  { name := component.name.mapOffsets f
    style := component.style
    arguments := component.arguments.map (Argument.mapOffsets f)
    body := component.body
    selfClosing := component.selfClosing }

/-- The offsets of a form itself; those of its children stay. -/
def Form.mapOffsets (f : Nat → Nat) : Form α → Form α
  | parameters list => .parameters (list.map (Parameter.mapOffsets f))
  | directive d => .directive (d.mapOffsets f)
  | statement s => .statement (s.mapOffsets f)
  | component c => .component (c.mapOffsets f)
  | form => form

/-- Every offset of a node and of what is below it. -/
def Node.mapOffsets (f : Nat → Nat) : Node → Node :=
  Node.fold fun form span => ⟨form.mapOffsets f, span.mapOffsets f⟩

theorem Node.mapOffsets_mk (f : Nat → Nat) (form : Form Node) (span : Span) :
    Node.mapOffsets f ⟨form, span⟩ = ⟨(form.map (Node.mapOffsets f)).mapOffsets f, span.mapOffsets f⟩ :=
  Node.fold_mk _ form span

@[simp]
theorem Node.span_mapOffsets (f : Nat → Nat) (node : Node) : (node.mapOffsets f).span = node.span.mapOffsets f := by
  cases node
  rw [mapOffsets_mk]
  rfl

/-- Every offset of a directive and of what is below it. -/
def Directive.mapAllOffsets (f : Nat → Nat) (directive : Directive Node) : Directive Node :=
  (directive.map (Node.mapOffsets f)).mapOffsets f

def Statement.mapAllOffsets (f : Nat → Nat) (statement : Statement Node) : Statement Node :=
  (statement.map (Node.mapOffsets f)).mapOffsets f

def Arm.mapAllOffsets (f : Nat → Nat) (arm : Arm Node) : Arm Node := (arm.map (Node.mapOffsets f)).mapOffsets f

def ArgumentValue.mapAllOffsets (f : Nat → Nat) (value : ArgumentValue Node) : ArgumentValue Node :=
  (value.map (Node.mapOffsets f)).mapOffsets f

def Argument.mapAllOffsets (f : Nat → Nat) (argument : Argument Node) : Argument Node :=
  (argument.map (Node.mapOffsets f)).mapOffsets f

theorem Node.mapOffsets_directive (f : Nat → Nat) (directive : Directive Node) (span : Span) :
    Node.mapOffsets f ⟨.directive directive, span⟩ = ⟨.directive (directive.mapAllOffsets f), span.mapOffsets f⟩ :=
  Node.mapOffsets_mk f _ span

theorem Node.mapOffsets_statement (f : Nat → Nat) (statement : Statement Node) (span : Span) :
    Node.mapOffsets f ⟨.statement statement, span⟩ = ⟨.statement (statement.mapAllOffsets f), span.mapOffsets f⟩ :=
  Node.mapOffsets_mk f _ span

theorem Node.mapOffsets_component (f : Nat → Nat) (name : Fragment) (style : ComponentStyle)
    (arguments : List (Argument Node)) (body : List Node) (selfClosing : Bool) (span : Span) :
    Node.mapOffsets f ⟨.component ⟨name, style, arguments, body, selfClosing⟩, span⟩ =
      ⟨.component ⟨name.mapOffsets f, style, arguments.map (Argument.mapAllOffsets f), body.map (Node.mapOffsets f),
        selfClosing⟩, span.mapOffsets f⟩ := by
  rw [Node.mapOffsets_mk]
  simp [Form.map, Form.mapOffsets, Component.map, Component.mapOffsets, Argument.mapAllOffsets]

/-! ## Maps over children -/

theorem ElseClause.map_map (f : α → β) (g : β → γ) (clause : ElseClause α) :
    (clause.map f).map g = clause.map (g ∘ f) := by
  cases clause <;> simp [map]

theorem Arm.map_map (f : α → β) (g : β → γ) (arm : Arm α) : (arm.map f).map g = arm.map (g ∘ f) := by
  obtain ⟨pattern, body, span⟩ := arm
  cases body <;> simp [map, ArmBody.map]

theorem Argument.map_map (f : α → β) (g : β → γ) (argument : Argument α) :
    (argument.map f).map g = argument.map (g ∘ f) := by
  obtain ⟨name, value, span⟩ := argument
  cases value <;> simp [map, ArgumentValue.map]

theorem Form.map_map (f : α → β) (g : β → γ) (form : Form α) : (form.map f).map g = form.map (g ∘ f) := by
  cases form with
  | directive d => cases d <;> simp [map, Directive.map]
  | statement s =>
    cases s with
    | conditional condition body otherwise => cases otherwise <;> simp [map, Statement.map, ElseClause.map_map]
    | _ => simp [map, Statement.map, Arm.map_map, Function.comp_def]
  | component c => simp [map, Component.map, Argument.map_map, Function.comp_def]
  | _ => simp [map]

theorem ElseClause.map_congr {f g : α → β} {clause : ElseClause α} (same : ∀ a ∈ clause.nodes, f a = g a) :
    clause.map f = clause.map g := by
  cases clause with
  | chained node => rw [map, map, same node (List.mem_singleton_self node)]
  | block body => exact congrArg ElseClause.block (List.map_congr_left same)

theorem Arm.map_congr {f g : α → β} {arm : Arm α} (same : ∀ a ∈ arm.body.nodes, f a = g a) :
    arm.map f = arm.map g := by
  obtain ⟨pattern, body, span⟩ := arm
  cases body with
  | block body => exact congrArg (fun nodes => Arm.mk pattern (.block nodes) span) (List.map_congr_left same)
  | inline body => exact congrArg (fun nodes => Arm.mk pattern (.inline nodes) span) (List.map_congr_left same)

theorem Argument.map_congr {f g : α → β} {argument : Argument α} (same : ∀ a ∈ argument.value.nodes, f a = g a) :
    argument.map f = argument.map g := by
  obtain ⟨name, value, span⟩ := argument
  cases value with
  | expression node => rw [map, map, ArgumentValue.map, ArgumentValue.map, same node (List.mem_singleton_self node)]
  | block body => exact congrArg (fun nodes => Argument.mk name (.block nodes) span) (List.map_congr_left same)
  | _ => rfl

/-- Mapping a form looks at nothing but its children. -/
theorem Form.map_congr {f g : α → β} {form : Form α} (same : ∀ a ∈ form.children, f a = g a) :
    form.map f = form.map g := by
  cases form with
  | directive d =>
    cases d with
    | sectionBlock name body =>
      exact congrArg (fun nodes => directive (.sectionBlock name nodes)) (List.map_congr_left same)
    | function name parameters body =>
      exact congrArg (fun nodes => directive (.function name parameters nodes)) (List.map_congr_left same)
    | _ => rfl
  | statement s =>
    cases s with
    | conditional condition body otherwise =>
      obtain ⟨inBody, inElse⟩ := List.forall_mem_append.mp same
      cases otherwise with
      | none => simp only [map, Statement.map, List.map_congr_left inBody, Option.map_none]
      | some clause =>
        simp only [map, Statement.map, List.map_congr_left inBody, Option.map_some, ElseClause.map_congr inElse]
    | matchOn subject arms =>
      have each : ∀ arm ∈ arms, arm.map f = arm.map g := fun arm among =>
        Arm.map_congr fun a inside => same a (List.mem_flatMap.mpr ⟨arm, among, inside⟩)
      simp only [map, Statement.map, List.map_congr_left each]
    | forLoop header body =>
      exact congrArg (fun nodes => statement (.forLoop header nodes)) (List.map_congr_left same)
    | whileLoop header body =>
      exact congrArg (fun nodes => statement (.whileLoop header nodes)) (List.map_congr_left same)
    | continueLoop | breakLoop => rfl
  | component c =>
    obtain ⟨inArguments, inBody⟩ := List.forall_mem_append.mp same
    have each : ∀ argument ∈ c.arguments, argument.map f = argument.map g := fun argument among =>
      Argument.map_congr fun a inside => inArguments a (List.mem_flatMap.mpr ⟨argument, among, inside⟩)
    simp only [map, Component.map, List.map_congr_left each, List.map_congr_left inBody]
  | error cause nodes => exact congrArg (error cause) (List.map_congr_left same)
  | _ => rfl

theorem ElseClause.map_id : ElseClause.map id = (id : ElseClause α → ElseClause α) := by
  funext clause
  cases clause <;> simp [map]

theorem Arm.map_id : Arm.map id = (id : Arm α → Arm α) := by
  funext ⟨pattern, body, span⟩
  cases body <;> simp [map, ArmBody.map]

theorem Argument.map_id : Argument.map id = (id : Argument α → Argument α) := by
  funext ⟨name, value, span⟩
  cases value <;> simp [map, ArgumentValue.map]

theorem Form.map_id (form : Form α) : form.map id = form := by
  cases form with
  | directive d => cases d <;> simp [map, Directive.map]
  | statement s => cases s <;> simp [map, Statement.map, ElseClause.map_id, Arm.map_id]
  | component c => simp [map, Component.map, Argument.map_id]
  | _ => simp [map]

theorem Argument.map_eq_self {f : α → α} {argument : Argument α} (same : ∀ a ∈ argument.value.nodes, f a = a) :
    argument.map f = argument :=
  (map_congr (g := id) same).trans (congrFun map_id argument)

/-- A map that leaves the children of a form as they are leaves the form as it is. -/
theorem Form.map_eq_self {f : α → α} {form : Form α} (same : ∀ a ∈ form.children, f a = a) : form.map f = form :=
  (map_congr (g := id) same).trans form.map_id

/-- The offsets of a form are apart from its children. -/
theorem Form.map_mapOffsets (f : Nat → Nat) (g : α → β) (form : Form α) :
    (form.mapOffsets f).map g = (form.map g).mapOffsets f := by
  cases form with
  | directive d => cases d <;> rfl
  | statement s =>
    cases s with
    | matchOn subject arms => simp [map, mapOffsets, Statement.map, Statement.mapOffsets, Arm.map, Arm.mapOffsets]
    | _ => rfl
  | component c =>
    have arguments : ∀ value : ArgumentValue α, (value.mapOffsets f).map g = (value.map g).mapOffsets f := by
      intro value
      cases value <;> rfl
    simp [map, mapOffsets, Component.map, Component.mapOffsets, Argument.map, Argument.mapOffsets, arguments]
  | _ => rfl

/-! ## Offsets back and forth -/

section Inverse

variable {f g : Nat → Nat} (inverse : ∀ n, g (f n) = n)
include inverse

theorem Span.mapOffsets_mapOffsets (span : Span) : (span.mapOffsets f).mapOffsets g = span := by
  simp [mapOffsets, inverse]

theorem Fragment.mapOffsets_mapOffsets (fragment : Fragment) : (fragment.mapOffsets f).mapOffsets g = fragment := by
  simp [mapOffsets, Span.mapOffsets_mapOffsets inverse]

theorem Directive.mapOffsets_mapOffsets (directive : Directive α) : (directive.mapOffsets f).mapOffsets g = directive := by
  have fragment := Fragment.mapOffsets_mapOffsets inverse
  cases directive <;> simp [mapOffsets, fragment, Function.comp_def]

theorem Statement.mapOffsets_mapOffsets (statement : Statement α) : (statement.mapOffsets f).mapOffsets g = statement := by
  have fragment := Fragment.mapOffsets_mapOffsets inverse
  have arm : ∀ arm : Arm α, (arm.mapOffsets f).mapOffsets g = arm := by
    simp [Arm.mapOffsets, fragment, Span.mapOffsets_mapOffsets inverse]
  cases statement <;> simp [mapOffsets, fragment, arm, Function.comp_def]

theorem Component.mapOffsets_mapOffsets (component : Component α) : (component.mapOffsets f).mapOffsets g = component := by
  have fragment := Fragment.mapOffsets_mapOffsets inverse
  have argument : ∀ argument : Argument α, (argument.mapOffsets f).mapOffsets g = argument := by
    rintro ⟨name, value, span⟩
    cases value <;>
      simp [Argument.mapOffsets, ArgumentValue.mapOffsets, fragment, Span.mapOffsets_mapOffsets inverse]
  simp [mapOffsets, fragment, argument, Function.comp_def]

theorem Form.mapOffsets_mapOffsets (form : Form α) : (form.mapOffsets f).mapOffsets g = form := by
  have parameter : ∀ parameter : Parameter, (parameter.mapOffsets f).mapOffsets g = parameter := by
    simp [Parameter.mapOffsets, Fragment.mapOffsets_mapOffsets inverse]
  cases form <;>
    simp [mapOffsets, parameter, Function.comp_def, Directive.mapOffsets_mapOffsets inverse,
      Statement.mapOffsets_mapOffsets inverse, Component.mapOffsets_mapOffsets inverse]

/-- What one function does to the offsets of a tree, an inverse of it undoes. -/
theorem Node.mapOffsets_mapOffsets (node : Node) : (node.mapOffsets f).mapOffsets g = node := by
  induction node using Node.induct with
  | step node ih =>
    obtain ⟨form, span⟩ := node
    rw [mapOffsets_mk, mapOffsets_mk, Form.map_mapOffsets, Form.map_map, Span.mapOffsets_mapOffsets inverse,
      Form.mapOffsets_mapOffsets inverse, Form.map_eq_self]
    exact ih

end Inverse

end SigilTemplate
