import SigilTemplate.Proofs.Tree.Offsets
import SigilTemplate.Reading.Argument
import SigilTemplate.Tree.Outline
import Mathlib.Data.List.TakeDrop

/-!
Trees without what an outline leaves out. All offsets are put to zero. A simple
expression loses the parse of its code, which the outline shows as text; an
`else if` becomes a block with one node in it; and of what is wrong with a
malformed construct only the kind is kept.

An outline would leave out more of a tree that no template is read as: the body
of a tag that closes itself, and whether a word is a number or a truth value.
A definite tree has nothing of that.
-/

namespace SigilTemplate

/-- One malformation of each kind. -/
def MalformationKind.representative : MalformationKind → Malformation
  | emptyCondition => .emptyHead .ifBlock
  | missingBlock => .missingBlock .ifBlock
  | malformedArm => .malformedArm
  | unmatchedTag => .strayClose ""
  | unclosedTag => .unclosedTag ""
  | malformedTag => .malformedHead ""
  | malformedDirective => .malformedDirective .raw
  | unbalancedDelimiter => .unbalanced ')' ']'
  | invalidSigil => .invalidSigil
  | unexpectedElse => .unexpectedElse

@[simp]
theorem MalformationKind.kind_representative (kind : MalformationKind) : kind.representative.kind = kind := by
  cases kind <;> rfl

def Expression.bare (e : Expression) : Expression :=
  match e.kind with
  | .simple _ _ => { e with kind := .simple 0 [] }
  | .paren => e

section

variable {α : Type}

def Statement.bare : Statement α → Statement α
  | conditional condition body otherwise =>
    .conditional condition body (otherwise.map fun clause => .block clause.nodes)
  | statement => statement

/-- A form without what its outline leaves out, but with its offsets. -/
def Form.bare : Form α → Form α
  | .expression e => .expression e.bare
  | .statement s => .statement s.bare
  | .error cause nodes => .error cause.kind.representative nodes
  | form => form

end

/-- A tree without what its outline leaves out. -/
def Node.bare : Node → Node :=
  Node.fold fun form span => ⟨form.bare.mapOffsets fun _ => 0, span.mapOffsets fun _ => 0⟩

theorem Node.bare_mk (form : Form Node) (span : Span) :
    Node.bare ⟨form, span⟩ = ⟨(form.map Node.bare).bare.mapOffsets fun _ => 0, span.mapOffsets fun _ => 0⟩ :=
  Node.fold_mk _ form span

/-! ## What the outline shows -/

theorem Form.map_bare {α β : Type} (f : α → β) (form : Form α) : form.bare.map f = (form.map f).bare := by
  cases form with
  | statement s =>
    cases s with
    | conditional condition body otherwise =>
      cases otherwise with
      | none => rfl
      | some clause => cases clause <;> rfl
    | _ => rfl
  | _ => rfl

theorem Form.outline_bare (form : Form Outline) : form.bare.outline = form.outline := by
  cases form with
  | expression e =>
    obtain ⟨kind, code, raw⟩ := e
    cases kind <;> cases raw <;> rfl
  | statement s =>
    cases s with
    | conditional condition body otherwise =>
      cases otherwise with
      | none => rfl
      | some clause => cases clause <;> rfl
    | _ => rfl
  | error cause nodes => simp [bare, outline]
  | _ => rfl

theorem Directive.outline_mapOffsets (f : Nat → Nat) (directive : Directive Outline) :
    (directive.mapOffsets f).outline = directive.outline := by
  cases directive with
  | layout path => cases path <;> rfl
  | useFile path component => cases component <;> rfl
  | _ => rfl

theorem Argument.outline_mapOffsets (f : Nat → Nat) (argument : Argument Outline) :
    (argument.mapOffsets f).outline = argument.outline := by
  obtain ⟨name, value, span⟩ := argument
  cases value <;> rfl

/-- Offsets are not shown. -/
theorem Form.outline_mapOffsets (f : Nat → Nat) (form : Form Outline) :
    (form.mapOffsets f).outline = form.outline := by
  cases form with
  | parameters list => simp [mapOffsets, outline, Parameter.mapOffsets, Fragment.mapOffsets, Function.comp_def]
  | directive d => exact d.outline_mapOffsets f
  | statement s =>
    cases s with
    | matchOn subject arms =>
      simp [mapOffsets, outline, Statement.mapOffsets, Statement.outline, Function.comp_def, Arm.mapOffsets,
        Arm.outline, Fragment.mapOffsets]
    | _ => rfl
  | component c =>
    simp [mapOffsets, outline, Component.mapOffsets, Component.outline, Function.comp_def,
      Argument.outline_mapOffsets, Fragment.mapOffsets]
  | _ => rfl

/-- The outline leaves out no less than is taken away. -/
theorem Node.outline_bare (node : Node) : node.bare.outline = node.outline := by
  induction node using Node.induct with
  | step node ih =>
    obtain ⟨form, span⟩ := node
    rw [bare_mk, outline, fold_mk, fold_mk, Form.map_mapOffsets, Form.outline_mapOffsets, Form.map_bare,
      Form.outline_bare, Form.map_map]
    exact congrArg Form.outline (Form.map_congr ih)

/-! ## Definite trees -/

/-- A number is written as one. -/
def ArgumentValue.Definite {α : Type} (value : ArgumentValue α) : Prop :=
  ∀ text, value = .number text → isNumber text.toList = true

structure Component.Definite {α : Type} (component : Component α) : Prop where
  values : ∀ argument ∈ component.arguments, argument.value.Definite
  /-- A tag that closes itself has no body. -/
  body : component.selfClosing = true → component.body = []

def Form.Definite {α : Type} (form : Form α) : Prop := ∀ c, form = .component c → c.Definite

/-- The node and all that is below it. -/
inductive Node.Definite : Node → Prop
  | mk {node : Node} (form : node.form.Definite) (below : ∀ child ∈ node.children, Definite child) : Definite node

/-- A digit, or a mark that a number can have in it. -/
def isNumeric (ch : Char) : Bool := ch.isDigit || ch == '-' || ch == '.'

theorem all_of_allDigits {digits : List Char} (all : allDigits digits = true) : digits.all isNumeric = true := by
  simp only [allDigits, Bool.and_eq_true, List.all_eq_true] at all ⊢
  intro ch member
  simp [isNumeric, all.2 ch member]

/-- Around the first point, if there is one, the parts are numeric. -/
theorem all_of_span {digits whole rest : List Char} (parts : digits.span (· != '.') = (whole, rest))
    (first : whole.all isNumeric = true) (second : rest.tail.all isNumeric = true) : digits.all isNumeric = true := by
  rw [List.span_eq_takeWhile_dropWhile] at parts
  obtain ⟨rfl, rfl⟩ := Prod.mk.inj parts
  have point := List.head?_dropWhile_not (· != '.') digits
  rw [← List.takeWhile_append_dropWhile (p := (· != '.')) (l := digits), List.all_append, first]
  cases rest : digits.dropWhile (· != '.') with
  | nil => rfl
  | cons mark fraction =>
    rw [rest] at point second
    obtain rfl : mark = '.' := by simpa using point
    exact second

theorem all_of_isUnsigned {digits : List Char} (unsigned : isUnsigned digits = true) :
    digits.all isNumeric = true := by
  unfold isUnsigned at unsigned
  split at unsigned
  · next parts => exact all_of_span parts (all_of_allDigits unsigned) rfl
  · next parts =>
    obtain ⟨whole, fraction⟩ := (Bool.and_eq_true _ _).mp unsigned
    exact all_of_span parts (all_of_allDigits whole) (all_of_allDigits fraction)

/-- A number has digits, points and minus signs in it, and nothing else. -/
theorem all_of_isNumber {text : List Char} (number : isNumber text = true) : text.all isNumeric = true := by
  unfold isNumber at number
  split at number
  · rw [List.all_cons, all_of_isUnsigned number]
    rfl
  · exact all_of_isUnsigned number

end SigilTemplate
