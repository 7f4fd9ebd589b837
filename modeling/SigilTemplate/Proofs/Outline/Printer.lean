import SigilTemplate.Proofs.Outline.Written

/-!
Outlines written piece by piece. A printer has one text, to which everything is
appended, and one count of open forms; a form begins on a line of its own unless
nothing has been written before it. Whatever is printed leaves the count as it
was, and what it has appended is the outline, indented by that count.
-/

namespace SigilTemplate
open Text

/-- What has been written, and how many forms are open. -/
structure Printer where
  out : List Char
  depth : Nat

/-- What prints something. -/
abbrev Printing := Printer → Printer

namespace Printer

def start : Printer := ⟨[], 0⟩

/-- What comes before a form. Only the first of all has no line to begin. -/
def lineBreak (p : Printer) : List Char := if p.out.isEmpty then [] else '\n' :: Outline.indent p.depth

def openForm (head : String) (p : Printer) : Printer := ⟨p.out ++ p.lineBreak ++ '(' :: head.toList, p.depth + 1⟩

def closeForm (p : Printer) : Printer := ⟨p.out ++ [')'], p.depth - 1⟩

def string (value : String) (p : Printer) : Printer := ⟨p.out ++ ' ' :: quote value.toList, p.depth⟩

def bare (value : String) (p : Printer) : Printer := ⟨p.out ++ ' ' :: value.toList, p.depth⟩

/-- Some things, one after the other. -/
def each {α : Type} (print : α → Printing) (list : List α) (p : Printer) : Printer :=
  list.foldl (fun p item => print item p) p

def nodes (below : List Printing) : Printing := each id below

def leaf (head : String) (values : List String) (p : Printer) : Printer :=
  (each string values (p.openForm head)).closeForm

def block (head : String) (below : List Printing) (p : Printer) : Printer :=
  ((p.openForm head).nodes below).closeForm

end Printer

/-! ## What is printed of a tree -/

def Directive.print (directive : Directive Printing) (p : Printer) : Printer :=
  match directive with
  | layout path =>
    let p := p.openForm "extends"
    let p := match path with
      | some path => p.string path.text
      | none => p
    p.closeForm
  | useFile path component =>
    let p := (p.openForm "use").string path.text
    let p := match component with
      | some name => p.leaf "alias" [name.text]
      | none => p
    p.closeForm
  | includeFile path => p.leaf "include" [path.text]
  | render name => p.leaf "render" [name.text]
  | renderBody => p.leaf "render_body" []
  | childContent => p.leaf "child_content" []
  | sectionBlock name body => (((p.openForm "section").string name.text).nodes body).closeForm
  | sectionValue name value => p.leaf "section_inline" [name.text, value.text]
  | raw body => p.leaf "raw" [body.text]
  | function name parameters body =>
    ((((p.openForm "fn").string name.text).string parameters.text).nodes body).closeForm

def ElseClause.print (clause : ElseClause Printing) (p : Printer) : Printer :=
  match clause with
  | chained node => (node (p.openForm "else")).closeForm
  | block body => p.block "else" body

def Arm.print (arm : Arm Printing) (p : Printer) : Printer :=
  let p := (p.openForm "arm").string arm.pattern.text
  let p := match arm.body with
    | .block body => p.block "block" body
    | .inline body => p.block "inline" body
  p.closeForm

def Statement.print (statement : Statement Printing) (p : Printer) : Printer :=
  match statement with
  | conditional condition body otherwise =>
    let p := p.openForm "if"
    let p := p.leaf "condition" [condition.text]
    let p := p.block "body" body
    let p := match otherwise with
      | some clause => clause.print p
      | none => p
    p.closeForm
  | forLoop header body => (((p.openForm "for").string header.text).block "body" body).closeForm
  | whileLoop header body => (((p.openForm "while").string header.text).block "body" body).closeForm
  | matchOn subject arms => (((p.openForm "match").string subject.text).each Arm.print arms).closeForm
  | continueLoop => p.leaf "continue" []
  | breakLoop => p.leaf "break" []

def Argument.print (argument : Argument Printing) (p : Printer) : Printer :=
  let p := (p.openForm "param").string argument.name.text
  let p := match argument.value with
    | .flag => p
    | .bool value => p.bare (if value then "true" else "false")
    | .number text => p.bare text
    | .string text => p.string text.text
    | .expression node => node p
    | .block body => p.block "block" body
    | .code text => p.leaf "rust" [text.text]
  p.closeForm

def Component.print (component : Component Printing) (p : Printer) : Printer :=
  let p := (p.openForm component.style.outlineName).string component.name.text
  let p := p.each Argument.print component.arguments
  let p := if component.selfClosing then p else p.block "body" component.body
  p.closeForm

def Form.print (form : Form Printing) (p : Printer) : Printer :=
  match form with
  | .text content => p.leaf "text" [content]
  | .comment content => p.leaf "comment" [content]
  | .expression e => p.leaf e.outlineName [e.code]
  | .codeBlock code => p.leaf "code" [code]
  | .parameters list =>
    let parameter (part : Parameter) : Printing := Printer.leaf "parameter" [part.name.text, part.type.text]
    ((p.openForm "parameters").each parameter list).closeForm
  | .directive d => d.print p
  | .statement s => s.print p
  | .component c => c.print p
  | .error cause nodes => (((p.openForm "ERROR").bare cause.kind.name).nodes nodes).closeForm

def Node.print : Node → Printing := Node.fold fun form _ => form.print

/-- What is printed of one node. -/
def Node.printed (node : Node) : String := String.ofList (node.print .start).out

/-- What is printed of all nodes, in a form of their own. -/
def Tree.printed (tree : Tree) : String :=
  String.ofList (Printer.start.block "template" (tree.nodes.map Node.print)).out

/-! ## What printing writes -/

open Outline

/-- Printing appends an outline, on a line of its own where that is needed, and leaves no form open. -/
def Printing.Writes (print : Printing) (outline : Outline) : Prop :=
  ∀ p : Printer, print p = ⟨p.out ++ p.lineBreak ++ outline.chars p.depth, p.depth⟩

/-- In a form, printing appends the lines of some outlines. -/
def Printing.WritesBelow (print : Printing) (below : List Outline) : Prop :=
  ∀ p : Printer, p.out ≠ [] → print p = ⟨p.out ++ charsBelow p.depth below, p.depth⟩

/-- Printing appends texts and a word to the line of a form. -/
def Printing.WritesLine (print : Printing) (texts : List String) (word : Option String) : Prop :=
  ∀ p : Printer, print p = ⟨p.out ++ (textChars texts ++ wordChars word), p.depth⟩

variable {α : Type} {print print' onLine inner : Printing} {outline : Outline} {below below' : List Outline}
variable {name : String} {texts : List String} {word : Option String}

theorem Printing.WritesBelow.nil : WritesBelow id [] := by
  intro p _
  simp [charsBelow]

theorem Printing.Writes.writesBelow (writes : Writes print outline) : WritesBelow print [outline] := by
  intro p started
  simp [writes p, Printer.lineBreak, started, charsBelow]

theorem charsBelow_append (depth : Nat) (below below' : List Outline) :
    charsBelow depth (below ++ below') = charsBelow depth below ++ charsBelow depth below' := by
  induction below with
  | nil => rfl
  | cons outline below ih => simp [charsBelow, ih]

theorem Printing.WritesBelow.append (first : WritesBelow print below) (second : WritesBelow print' below') :
    WritesBelow (fun p => print' (print p)) (below ++ below') := by
  intro p started
  have further := second ⟨p.out ++ charsBelow p.depth below, p.depth⟩ (by simp [started])
  simp only [first p started, further, charsBelow_append, List.append_assoc]

/-- One after the other, things are printed on lines of their own. -/
theorem Printing.WritesBelow.each {print : α → Printing} {shown : α → Outline} {list : List α}
    (writes : ∀ item ∈ list, Writes (print item) (shown item)) :
    WritesBelow (Printer.each print list) (list.map shown) := by
  induction list with
  | nil => exact .nil
  | cons item list ih =>
    have first := (writes item (by simp)).writesBelow
    exact first.append (ih fun other member => writes other (by simp [member]))

theorem Printer.each_map {β : Type} (print : β → Printing) (f : α → β) (list : List α) :
    each print (list.map f) = each (fun item => print (f item)) list := by
  funext p
  exact List.foldl_map

theorem Printing.WritesBelow.nodes {print : α → Printing} {shown : α → Outline} {list : List α}
    (writes : ∀ item ∈ list, Writes (print item) (shown item)) :
    WritesBelow (Printer.nodes (list.map print)) (list.map shown) := by
  rw [Printer.nodes, Printer.each_map]
  exact .each writes

/-- A form is opened, its line is written, and it is closed behind the lines of the forms below it. -/
theorem Printing.Writes.form (line : WritesLine onLine texts word) (inside : WritesBelow inner below) :
    Writes (fun p => (inner (onLine (p.openForm name))).closeForm) (.form name texts word below) := by
  intro p
  have started : (onLine (p.openForm name)).out ≠ [] := by
    rw [line]
    simp [Printer.openForm]
  have written := inside _ started
  rw [line] at written
  change (inner (onLine (p.openForm name))).closeForm = _
  rw [line, written]
  simp [Printer.closeForm, Printer.openForm, chars, line_eq]

theorem Printing.WritesLine.none : WritesLine id [] none := by
  intro p
  simp [textChars, wordChars]

theorem Printing.WritesLine.string (text : String) : WritesLine (Printer.string text) [text] Option.none := by
  intro p
  simp [Printer.string, textChars, wordChars]

theorem Printing.WritesLine.bare (line : WritesLine onLine texts Option.none) (text : String) :
    WritesLine (fun p => (onLine p).bare text) texts (some text) := by
  intro p
  simp [line p, Printer.bare, wordChars]

theorem Printing.WritesLine.append {texts' : List String} (first : WritesLine print texts Option.none)
    (second : WritesLine print' texts' word) : WritesLine (fun p => print' (print p)) (texts ++ texts') word := by
  intro p
  simp [first p, second _, textChars, wordChars]

theorem Printing.WritesLine.each (texts : List String) :
    WritesLine (Printer.each Printer.string texts) texts Option.none := by
  induction texts with
  | nil => exact .none
  | cons text texts ih => exact (WritesLine.string text).append ih

theorem Printing.Writes.leaf (name : String) (texts : List String) :
    Writes (Printer.leaf name texts) (Outline.leaf name texts) :=
  .form (.each texts) .nil

theorem Printing.Writes.block {print : α → Printing} {shown : α → Outline} {list : List α}
    (writes : ∀ item ∈ list, Writes (print item) (shown item)) :
    Writes (Printer.block name (list.map print)) (group name (list.map shown)) :=
  .form .none (.nodes writes)

theorem Directive.print_writes (f : α → Printing) (g : α → Outline) (directive : Directive α)
    (each : ∀ child ∈ directive.children, (f child).Writes (g child)) :
    Printing.Writes (directive.map f).print (directive.map g).outline := by
  cases directive with
  | layout path =>
    cases path with
    | none => exact .leaf "extends" []
    | some path => exact .leaf "extends" [path.text]
  | useFile path component =>
    cases component with
    | none => exact .form (.string path.text) .nil
    | some name => exact .form (.string path.text) (Printing.Writes.leaf "alias" [name.text]).writesBelow
  | sectionBlock name body => exact .form (.string name.text) (.nodes each)
  | function name parameters body =>
    have line := (Printing.WritesLine.string name.text).append (.string parameters.text)
    exact .form line (.nodes each)
  | _ => exact .leaf _ _

theorem Arm.print_writes (f : α → Printing) (g : α → Outline) (arm : Arm α)
    (each : ∀ child ∈ arm.body.nodes, (f child).Writes (g child)) :
    Printing.Writes (arm.map f).print (arm.map g).outline := by
  obtain ⟨pattern, body, span⟩ := arm
  cases body with
  | block nodes => exact .form (.string pattern.text) (Printing.Writes.block each).writesBelow
  | inline nodes => exact .form (.string pattern.text) (Printing.Writes.block each).writesBelow

theorem ElseClause.print_writes (f : α → Printing) (g : α → Outline) (clause : ElseClause α)
    (each : ∀ child ∈ clause.nodes, (f child).Writes (g child)) :
    Printing.Writes (clause.map f).print (clause.map g).outline := by
  cases clause with
  | chained node => exact .form .none (each node (by simp [nodes])).writesBelow
  | block body => exact .block each

theorem Statement.print_writes (f : α → Printing) (g : α → Outline) (statement : Statement α)
    (each : ∀ child ∈ statement.children, (f child).Writes (g child)) :
    Printing.Writes (statement.map f).print (statement.map g).outline := by
  cases statement with
  | conditional condition body otherwise =>
    have head := (Printing.Writes.leaf "condition" [condition.text]).writesBelow
    have own : Printing.Writes (Printer.block "body" (body.map f)) (group "body" (body.map g)) :=
      .block fun child member => each child (by simp [children, member])
    have both := head.append own.writesBelow
    cases otherwise with
    | none =>
      have whole : Printing.Writes _ (group "if" _) := .form .none both
      exact whole
    | some clause =>
      have other := clause.print_writes f g fun child member => each child (by simp [children, member])
      have whole : Printing.Writes _ (group "if" _) := .form .none (both.append other.writesBelow)
      exact whole
  | forLoop header body => exact .form (.string header.text) (Printing.Writes.block each).writesBelow
  | whileLoop header body => exact .form (.string header.text) (Printing.Writes.block each).writesBelow
  | matchOn subject arms =>
    have all : Printing.WritesBelow (Printer.each Arm.print (arms.map (Arm.map f)))
        ((arms.map (Arm.map g)).map Arm.outline) := by
      rw [Printer.each_map, List.map_map]
      exact .each fun arm member => arm.print_writes f g fun child inside =>
        each child (List.mem_flatMap.mpr ⟨arm, member, inside⟩)
    exact .form (.string subject.text) all
  | continueLoop => exact .leaf _ _
  | breakLoop => exact .leaf _ _

theorem Argument.print_writes (f : α → Printing) (g : α → Outline) (argument : Argument α)
    (each : ∀ child ∈ argument.value.nodes, (f child).Writes (g child)) :
    Printing.Writes (argument.map f).print (argument.map g).outline := by
  obtain ⟨name, value, span⟩ := argument
  have head := Printing.WritesLine.string name.text
  have alone {onLine : Printing} {texts : List String} {word : Option String} (line : onLine.WritesLine texts word) :
      Printing.Writes (fun p => (onLine (p.openForm "param")).closeForm) (.form "param" texts word []) :=
    .form line .nil
  cases value with
  | flag => exact alone head
  | bool value => exact alone (head.bare (if value then "true" else "false"))
  | number text => exact alone (head.bare text)
  | string text => exact alone (head.append (.string text.text))
  | expression node => exact .form head (each node (by simp [ArgumentValue.nodes])).writesBelow
  | block body => exact .form head (Printing.Writes.block each).writesBelow
  | code text => exact .form head (Printing.Writes.leaf "rust" [text.text]).writesBelow

theorem Component.print_writes (f : α → Printing) (g : α → Outline) (component : Component α)
    (each : ∀ child ∈ argumentNodes component.arguments ++ component.body, (f child).Writes (g child)) :
    Printing.Writes (component.map f).print (component.map g).outline := by
  obtain ⟨name, style, arguments, body, selfClosing⟩ := component
  have params : Printing.WritesBelow (Printer.each Argument.print (arguments.map (Argument.map f)))
      ((arguments.map (Argument.map g)).map Argument.outline) := by
    rw [Printer.each_map, List.map_map]
    exact .each fun argument member => argument.print_writes f g fun child inside =>
      each child (List.mem_append_left _ (List.mem_flatMap.mpr ⟨argument, member, inside⟩))
  have own : Printing.Writes (Printer.block "body" (body.map f)) (group "body" (body.map g)) :=
    .block fun child member => each child (List.mem_append_right _ member)
  cases selfClosing with
  | true => exact .form (.string name.text) (params.append .nil)
  | false => exact .form (.string name.text) (params.append own.writesBelow)

theorem Form.print_writes (f : α → Printing) (g : α → Outline) (form : Form α)
    (each : ∀ child ∈ form.children, (f child).Writes (g child)) :
    Printing.Writes (form.map f).print (form.map g).outline := by
  cases form with
  | parameters list =>
    have all : Printing.WritesBelow
        (Printer.each (fun part : Parameter => Printer.leaf "parameter" [part.name.text, part.type.text]) list)
        (list.map fun part => Outline.leaf "parameter" [part.name.text, part.type.text]) :=
      .each fun part _ => .leaf _ _
    exact .form .none all
  | directive d => exact d.print_writes f g each
  | statement s => exact s.print_writes f g each
  | component c => exact c.print_writes f g each
  | error cause nodes => exact .form (Printing.WritesLine.none.bare cause.kind.name) (.nodes each)
  | _ => exact .leaf _ _

/-- What is printed of a node is its outline. By induction on the tree. -/
theorem Node.print_writes (node : Node) : node.print.Writes node.outline := by
  induction node using Node.induct with
  | step node ih =>
    obtain ⟨form, span⟩ := node
    rw [print, outline, fold_mk, fold_mk]
    exact form.print_writes _ _ ih

theorem Node.printed_eq (node : Node) : node.printed = node.outlineText := by
  rw [printed, node.print_writes]
  rfl

theorem Tree.printed_eq (tree : Tree) : tree.printed = tree.outlineText := by
  have writes : Printing.Writes (Printer.block "template" (tree.nodes.map Node.print)) tree.outline :=
    .block fun node _ => node.print_writes
  rw [printed, writes]
  rfl

end SigilTemplate
