import SigilTemplate.Proofs.Outline.Bare
import SigilTemplate.Proofs.Outline.Written

/-!
Outlines of definite trees are legible. The names of forms are known, and the
words among them are truth values, numbers and the names of malformations.
-/

namespace SigilTemplate
open Outline

namespace Outline

variable {name : String} {texts : List String} {below : List Outline}

theorem Legible.leaf (isName : IsWord name) : (leaf name texts).Legible := .form isName (by simp) (by simp)

theorem Legible.plain (isName : IsWord name) (inside : ∀ outline ∈ below, outline.Legible) :
    (Outline.form name texts none below).Legible :=
  .form isName (by simp) inside

theorem Legible.group (isName : IsWord name) (inside : ∀ outline ∈ below, outline.Legible) :
    (group name below).Legible :=
  .plain isName inside

end Outline

theorem isWordChar_of_isNumeric {ch : Char} (numeric : isNumeric ch = true) : isWordChar ch = true := by
  have other {mark : Char} (plain : isNumeric mark = false) : ch ≠ mark := by
    rintro rfl
    simp [plain] at numeric
  have blank : ch ≠ ' ' := other (by decide)
  have quote : ch ≠ '"' := other (by decide)
  have line : ch ≠ '\n' := other (by decide)
  have begins : ch ≠ '(' := other (by decide)
  have close : ch ≠ ')' := other (by decide)
  simp [isWordChar, blank, quote, line, begins, close]

theorem isWord_of_isNumber {text : String} (number : isNumber text.toList = true) : IsWord text := by
  have numeric := List.all_eq_true.mp (all_of_isNumber number)
  exact List.all_eq_true.mpr fun ch member => isWordChar_of_isNumeric (numeric ch member)

theorem MalformationKind.isWord_name (kind : MalformationKind) : IsWord kind.name := by
  cases kind <;> decide

theorem ComponentStyle.isWord_outlineName (style : ComponentStyle) : IsWord style.outlineName := by
  cases style <;> decide

theorem Expression.isWord_outlineName (e : Expression) : IsWord e.outlineName := by
  unfold outlineName
  split <;> decide

theorem Directive.legible {directive : Directive Outline} (below : ∀ child ∈ directive.children, child.Legible) :
    directive.outline.Legible := by
  cases directive with
  | useFile path component =>
    apply Legible.plain (by decide)
    intro outline member
    obtain ⟨name, _, rfl⟩ := List.mem_map.mp member
    exact .leaf (by decide)
  | sectionBlock name body => exact .plain (by decide) below
  | function name parameters body => exact .plain (by decide) below
  | _ => exact .leaf (by decide)

theorem ElseClause.legible {clause : ElseClause Outline} (below : ∀ child ∈ clause.nodes, child.Legible) :
    clause.outline.Legible := by
  cases clause with
  | chained node => exact .group (by decide) below
  | block body => exact .group (by decide) below

theorem Arm.legible {arm : Arm Outline} (below : ∀ child ∈ arm.body.nodes, child.Legible) : arm.outline.Legible := by
  obtain ⟨pattern, body, span⟩ := arm
  apply Legible.plain (by decide)
  intro outline member
  obtain rfl := List.mem_singleton.mp member
  cases body with
  | block nodes => exact .group (by decide) below
  | inline nodes => exact .group (by decide) below

theorem Statement.legible {statement : Statement Outline} (below : ∀ child ∈ statement.children, child.Legible) :
    statement.outline.Legible := by
  cases statement with
  | conditional condition body otherwise =>
    have head : (leaf "condition" [condition.text]).Legible := .leaf (by decide)
    have own : (group "body" body).Legible :=
      .group (by decide) fun child member => below child (by simp [children, member])
    apply Legible.group (by decide)
    cases otherwise with
    | none => simp [head, own]
    | some clause =>
      have other := clause.legible fun child member => below child (by simp [children, member])
      simp [head, own, other]
  | forLoop header body => exact .plain (by decide) (by simpa using .group (by decide) below)
  | whileLoop header body => exact .plain (by decide) (by simpa using .group (by decide) below)
  | matchOn subject arms =>
    apply Legible.plain (by decide)
    intro outline member
    obtain ⟨arm, among, rfl⟩ := List.mem_map.mp member
    exact arm.legible fun child inside => below child (List.mem_flatMap.mpr ⟨arm, among, inside⟩)
  | _ => exact .leaf (by decide)

theorem Argument.legible {argument : Argument Outline} (definite : argument.value.Definite)
    (below : ∀ child ∈ argument.value.nodes, child.Legible) : argument.outline.Legible := by
  obtain ⟨name, value, span⟩ := argument
  cases value with
  | bool value => exact .form (by decide) (by cases value <;> simp <;> decide) (by simp)
  | number text =>
    exact .form (by decide) (by simpa using isWord_of_isNumber (definite text rfl)) (by simp)
  | expression node => exact .plain (by decide) below
  | block body => exact .plain (by decide) (by simpa using .group (by decide) below)
  | code text => exact .plain (by decide) (by simpa using .leaf (by decide))
  | _ => exact .leaf (by decide)

theorem Component.legible {component : Component Outline} (definite : component.Definite)
    (below : ∀ child ∈ argumentNodes component.arguments ++ component.body, child.Legible) :
    component.outline.Legible := by
  obtain ⟨name, style, arguments, body, selfClosing⟩ := component
  have params : ∀ outline ∈ arguments.map Argument.outline, outline.Legible := by
    intro outline member
    obtain ⟨argument, among, rfl⟩ := List.mem_map.mp member
    apply argument.legible (definite.values argument among)
    intro child inside
    exact below child (List.mem_append_left _ (List.mem_flatMap.mpr ⟨argument, among, inside⟩))
  have own : (group "body" body).Legible :=
    .group (by decide) fun child member => below child (List.mem_append_right _ member)
  apply Legible.plain style.isWord_outlineName
  cases selfClosing with
  | true => simpa using params
  | false => simpa [or_imp, forall_and, own] using params

theorem Form.legible {form : Form Outline} (definite : form.Definite)
    (below : ∀ child ∈ form.children, child.Legible) : form.outline.Legible := by
  cases form with
  | expression e => exact .leaf e.isWord_outlineName
  | parameters list =>
    apply Legible.group (by decide)
    intro outline member
    obtain ⟨parameter, _, rfl⟩ := List.mem_map.mp member
    exact .leaf (by decide)
  | directive d => exact d.legible below
  | statement s => exact s.legible below
  | component c => exact c.legible (definite c rfl) below
  | error cause nodes => exact .form (by decide) (by simpa using cause.kind.isWord_name) below
  | _ => exact .leaf (by decide)

/-! ## Nodes -/

theorem Form.Definite.map {α β : Type} {form : Form α} (definite : form.Definite) (f : α → β) :
    (form.map f).Definite := by
  cases form with
  | component c =>
    obtain ⟨values, body⟩ := definite c rfl
    rintro _ ⟨⟩
    constructor
    · intro argument member text number
      obtain ⟨before, among, rfl⟩ := List.mem_map.mp member
      obtain ⟨name, value, span⟩ := before
      cases value with
      | number text' =>
        obtain rfl := ArgumentValue.number.inj number
        exact values _ among text' rfl
      | _ => simp [Argument.map, ArgumentValue.map] at number
    · intro closing
      rw [Component.map, body closing]
      rfl
  | _ => rintro c ⟨⟩

/-- By induction on the tree. -/
theorem Node.Definite.legible {node : Node} (definite : node.Definite) : node.outline.Legible := by
  induction definite with
  | @mk node definite below ih =>
    obtain ⟨form, span⟩ := node
    rw [outline, fold_mk]
    apply Form.legible (definite.map _)
    rw [Form.children_map]
    intro outline member
    obtain ⟨child, among, rfl⟩ := List.mem_map.mp member
    exact ih child among

end SigilTemplate
