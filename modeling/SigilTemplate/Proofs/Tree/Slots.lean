import Mathlib.Logic.ExistsUnique
import SigilTemplate.Tree.Fold

/-!
The children of a form are all that it holds, each of them once. A form with
its children taken out is a shape with a slot for each; whatever nodes are put
into the slots, in order, there is one form with that shape and those children.
A slot that the children leave out, or give twice, would break this.
-/

namespace SigilTemplate

variable {α β σ τ : Type}

/-- A form with its children taken out. -/
def Form.shape (form : Form α) : Form Unit := form.map fun _ => ()

/-! ## Lists of slots -/

theorem length_eq_of_map_unit {xs : List α} {ys : List β} (same : xs.map (fun _ => ()) = ys.map fun _ => ()) :
    xs.length = ys.length := by
  simpa using congrArg List.length same

theorem map_unit_eq {xs : List α} {ys : List β} (same : xs.length = ys.length) :
    xs.map (fun _ => ()) = ys.map fun _ => () := by
  simp [List.map_const', same]

/-- Parts that are determined by shape and nodes are so in a row too, if the shape tells how many nodes each has. -/
theorem eq_of_map_of_flatMap {shape : σ → τ} {nodes : σ → List β}
    (size : ∀ x y, shape x = shape y → (nodes x).length = (nodes y).length)
    (each : ∀ x y, shape x = shape y → nodes x = nodes y → x = y) {xs ys : List σ} (shapes : xs.map shape = ys.map shape)
    (all : xs.flatMap nodes = ys.flatMap nodes) : xs = ys := by
  induction xs generalizing ys with
  | nil => exact (List.map_eq_nil_iff.mp shapes.symm).symm
  | cons x xs ih =>
    obtain ⟨y, ys, rfl, first, others⟩ := List.map_eq_cons_iff.mp shapes.symm
    rw [List.flatMap_cons, List.flatMap_cons] at all
    obtain ⟨here, later⟩ := List.append_inj all (size x y first.symm)
    rw [each x y first.symm here, ih others.symm later]

/-- Nodes for a row of parts are dealt out to them in order. -/
theorem exists_of_length_flatMap {shape : σ → τ} {nodes : σ → List α}
    (each : ∀ x values, values.length = (nodes x).length → ∃ y, shape y = shape x ∧ nodes y = values) (xs : List σ)
    (values : List α) (size : values.length = (xs.flatMap nodes).length) :
    ∃ ys : List σ, ys.map shape = xs.map shape ∧ ys.flatMap nodes = values := by
  induction xs generalizing values with
  | nil => exact ⟨[], rfl, (List.length_eq_zero_iff.mp size).symm⟩
  | cons x xs ih =>
    rw [List.flatMap_cons, List.length_append] at size
    obtain ⟨y, first, here⟩ := each x (values.take (nodes x).length) (by rw [List.length_take]; omega)
    obtain ⟨ys, others, later⟩ := ih (values.drop (nodes x).length) (by rw [List.length_drop]; omega)
    refine ⟨y :: ys, by rw [List.map_cons, List.map_cons, first, others], ?_⟩
    rw [List.flatMap_cons, here, later, List.take_append_drop]

/-! ## The parts of a form -/

theorem ElseClause.eq_of_shape {x y : ElseClause α} (same : x.map (fun _ => ()) = y.map fun _ => ())
    (nodes : x.nodes = y.nodes) : x = y := by
  cases x <;> cases y <;> simp_all [map, ElseClause.nodes]

theorem ElseClause.exists_refill (clause : ElseClause α) (values : List α)
    (size : values.length = clause.nodes.length) :
    ∃ y : ElseClause α, y.map (fun _ => ()) = clause.map (fun _ => ()) ∧ y.nodes = values := by
  cases clause with
  | chained node =>
    obtain ⟨value, rfl⟩ := List.length_eq_one_iff.mp size
    exact ⟨.chained value, rfl, rfl⟩
  | block body => exact ⟨.block values, congrArg ElseClause.block (map_unit_eq size), rfl⟩

theorem Arm.eq_of_shape (x y : Arm α) (same : x.map (fun _ => ()) = y.map fun _ => ())
    (nodes : x.body.nodes = y.body.nodes) : x = y := by
  obtain ⟨_, body, _⟩ := x
  obtain ⟨_, body', _⟩ := y
  cases body <;> cases body' <;> simp_all [map, ArmBody.map, ArmBody.nodes]

theorem Arm.exists_refill (arm : Arm α) (values : List α) (size : values.length = arm.body.nodes.length) :
    ∃ y : Arm α, y.map (fun _ => ()) = arm.map (fun _ => ()) ∧ y.body.nodes = values := by
  obtain ⟨pattern, body, span⟩ := arm
  cases body with
  | block nodes =>
    exact ⟨⟨pattern, .block values, span⟩, congrArg (fun slots => Arm.mk pattern (.block slots) span) (map_unit_eq size), rfl⟩
  | inline nodes =>
    exact ⟨⟨pattern, .inline values, span⟩, congrArg (fun slots => Arm.mk pattern (.inline slots) span) (map_unit_eq size), rfl⟩

theorem Argument.eq_of_shape (x y : Argument α) (same : x.map (fun _ => ()) = y.map fun _ => ())
    (nodes : x.value.nodes = y.value.nodes) : x = y := by
  obtain ⟨_, value, _⟩ := x
  obtain ⟨_, value', _⟩ := y
  cases value <;> cases value' <;> simp_all [map, ArgumentValue.map, ArgumentValue.nodes]

theorem Argument.exists_refill (argument : Argument α) (values : List α)
    (size : values.length = argument.value.nodes.length) :
    ∃ y : Argument α, y.map (fun _ => ()) = argument.map (fun _ => ()) ∧ y.value.nodes = values := by
  obtain ⟨name, value, span⟩ := argument
  cases value with
  | expression node =>
    obtain ⟨value, rfl⟩ := List.length_eq_one_iff.mp size
    exact ⟨⟨name, .expression value, span⟩, rfl, rfl⟩
  | block body =>
    exact ⟨⟨name, .block values, span⟩, congrArg (fun slots => Argument.mk name (.block slots) span) (map_unit_eq size), rfl⟩
  | _ => exact ⟨_, rfl, (List.length_eq_zero_iff.mp size).symm⟩

theorem Arm.length_nodes (x y : Arm α) (same : x.map (fun _ => ()) = y.map fun _ => ()) :
    x.body.nodes.length = y.body.nodes.length := by
  have bodies := congrArg (fun arm => arm.body.nodes.length) same
  simpa [map, ArmBody.nodes_map] using bodies

theorem Argument.length_nodes (x y : Argument α) (same : x.map (fun _ => ()) = y.map fun _ => ()) :
    x.value.nodes.length = y.value.nodes.length := by
  have values := congrArg (fun argument => argument.value.nodes.length) same
  simpa [map, ArgumentValue.nodes_map] using values

/-! ## Forms -/

theorem Directive.eq_of_shape {x y : Directive α} (same : x.map (fun _ => ()) = y.map fun _ => ())
    (children : x.children = y.children) : x = y := by
  cases x <;> cases y <;> simp_all [map, Directive.children]

theorem Directive.exists_refill (directive : Directive α) (values : List α)
    (size : values.length = directive.children.length) :
    ∃ y : Directive α, y.map (fun _ => ()) = directive.map (fun _ => ()) ∧ y.children = values := by
  cases directive with
  | sectionBlock name body =>
    exact ⟨.sectionBlock name values, congrArg (Directive.sectionBlock name) (map_unit_eq size), rfl⟩
  | function name parameters body =>
    exact ⟨.function name parameters values, congrArg (Directive.function name parameters) (map_unit_eq size), rfl⟩
  | _ => exact ⟨_, rfl, (List.length_eq_zero_iff.mp size).symm⟩

theorem Statement.eq_of_shape {x y : Statement α} (same : x.map (fun _ => ()) = y.map fun _ => ())
    (children : x.children = y.children) : x = y := by
  cases x with
  | conditional condition body otherwise =>
    cases y with
    | conditional condition' body' otherwise' =>
      simp only [map, Statement.conditional.injEq] at same
      obtain ⟨rfl, bodies, others⟩ := same
      obtain ⟨rfl, rest⟩ := List.append_inj children (length_eq_of_map_unit bodies)
      cases otherwise <;> cases otherwise' <;> simp at others rest ⊢
      exact ElseClause.eq_of_shape others rest
    | _ => simp [map] at same
  | matchOn subject arms =>
    cases y with
    | matchOn subject' arms' =>
      simp only [map, Statement.matchOn.injEq] at same
      obtain ⟨rfl, shapes⟩ := same
      rw [eq_of_map_of_flatMap Arm.length_nodes Arm.eq_of_shape shapes children]
    | _ => simp [map] at same
  | _ => cases y <;> simp_all [map, Statement.children]

theorem Statement.exists_refill (statement : Statement α) (values : List α)
    (size : values.length = statement.children.length) :
    ∃ y : Statement α, y.map (fun _ => ()) = statement.map (fun _ => ()) ∧ y.children = values := by
  cases statement with
  | conditional condition body otherwise =>
    cases otherwise with
    | none =>
      have inBody : values.length = body.length := by simpa [Statement.children] using size
      refine ⟨.conditional condition values none, ?_, by simp [Statement.children]⟩
      rw [map, map, map_unit_eq inBody]
    | some clause =>
      rw [Statement.children, List.length_append] at size
      obtain ⟨other, shape, nodes⟩ := clause.exists_refill (values.drop body.length) (by
        rw [List.length_drop]
        exact Nat.sub_eq_of_eq_add' size)
      have inBody : (values.take body.length).length = body.length := by
        rw [List.length_take]
        omega
      refine ⟨.conditional condition (values.take body.length) (some other), ?_, ?_⟩
      · rw [map, map, map_unit_eq inBody, Option.map_some, Option.map_some, shape]
      · simp [Statement.children, nodes]
  | forLoop header body =>
    exact ⟨.forLoop header values, congrArg (Statement.forLoop header) (map_unit_eq size), rfl⟩
  | whileLoop header body =>
    exact ⟨.whileLoop header values, congrArg (Statement.whileLoop header) (map_unit_eq size), rfl⟩
  | matchOn subject arms =>
    obtain ⟨others, shapes, nodes⟩ := exists_of_length_flatMap Arm.exists_refill arms values size
    exact ⟨.matchOn subject others, congrArg (Statement.matchOn subject) shapes, nodes⟩
  | _ => exact ⟨_, rfl, (List.length_eq_zero_iff.mp size).symm⟩

/-- A form is determined by its shape and its children. -/
theorem Form.eq_of_shape {x y : Form α} (same : x.shape = y.shape) (children : x.children = y.children) : x = y := by
  cases x with
  | directive d =>
    cases y with
    | directive d' => exact congrArg Form.directive (Directive.eq_of_shape (Form.directive.inj same) children)
    | _ => simp [shape, map] at same
  | statement s =>
    cases y with
    | statement s' => exact congrArg Form.statement (Statement.eq_of_shape (Form.statement.inj same) children)
    | _ => simp [shape, map] at same
  | component c =>
    cases y with
    | component c' =>
      obtain ⟨name, style, arguments, body, closing⟩ := c
      obtain ⟨name', style', arguments', body', closing'⟩ := c'
      simp only [shape, map, Component.map, Form.component.injEq, Component.mk.injEq] at same
      obtain ⟨rfl, rfl, shapes, bodies, rfl⟩ := same
      obtain ⟨inArguments, rfl⟩ := List.append_inj' children (length_eq_of_map_unit bodies)
      rw [eq_of_map_of_flatMap Argument.length_nodes Argument.eq_of_shape shapes inArguments]
    | _ => simp [shape, map] at same
  | error cause nodes =>
    cases y <;> simp_all [shape, map, Form.children]
  | _ => cases y <;> simp_all [shape, map]

/-- A form of the same shape has whatever children there are slots for. -/
theorem Form.exists_refill (form : Form α) (values : List α) (size : values.length = form.children.length) :
    ∃ y : Form α, y.shape = form.shape ∧ y.children = values := by
  cases form with
  | directive d =>
    obtain ⟨y, shape, children⟩ := d.exists_refill values size
    exact ⟨.directive y, congrArg Form.directive shape, children⟩
  | statement s =>
    obtain ⟨y, shape, children⟩ := s.exists_refill values size
    exact ⟨.statement y, congrArg Form.statement shape, children⟩
  | component c =>
    rw [Form.children, List.length_append] at size
    have front : (values.take (argumentNodes c.arguments).length).length = (argumentNodes c.arguments).length := by
      rw [List.length_take]
      omega
    have inBody : (values.drop (argumentNodes c.arguments).length).length = c.body.length := by
      rw [List.length_drop]
      omega
    obtain ⟨others, shapes, nodes⟩ := exists_of_length_flatMap Argument.exists_refill c.arguments _ front
    refine ⟨.component ⟨c.name, c.style, others, values.drop (argumentNodes c.arguments).length, c.selfClosing⟩, ?_, ?_⟩
    · rw [shape, shape, map, map, Component.map, Component.map, shapes, map_unit_eq inBody]
    · rw [Form.children, argumentNodes, nodes, List.take_append_drop]
  | error cause nodes => exact ⟨.error cause values, congrArg (Form.error cause) (map_unit_eq size), rfl⟩
  | _ => exact ⟨_, rfl, (List.length_eq_zero_iff.mp size).symm⟩

/-- The children of a form stand in all of its slots, and in each slot one of them: any nodes of that number are the
children of exactly one form of the shape. -/
theorem Form.existsUnique_refill (form : Form α) (values : List α) (size : values.length = form.children.length) :
    ∃! y : Form α, y.shape = form.shape ∧ y.children = values := by
  obtain ⟨y, shape, children⟩ := form.exists_refill values size
  refine ⟨y, ⟨shape, children⟩, fun z other => ?_⟩
  exact Form.eq_of_shape (other.1.trans shape.symm) (other.2.trans children.symm)

end SigilTemplate
