import SigilTemplate.Proofs.Reading.Sequence
import SigilTemplate.Proofs.Tree.Postorder

/-!
Readings and what they record. The nodes that have been read so far account for
the recoveries so far, each of them once and in order, and they have no more
layers than the level allows; a construct is never a header. A reading is looked
at together with the recoveries before it, so that one statement covers all that
has been recorded.
-/

namespace SigilTemplate

/-- Neither the node nor any node below it is a header. -/
def Node.Headerless (node : Node) : Prop := ∀ inner ∈ node.preorder, ∀ list, inner.form ≠ .parameters list

theorem Node.headerless_iff {node : Node} :
    node.Headerless ↔ (∀ list, node.form ≠ .parameters list) ∧ ∀ child ∈ node.children, child.Headerless := by
  unfold Headerless
  rw [Node.preorder_eq, List.forall_mem_cons, List.forall_mem_flatMap]

/-- The recoveries are those of the nodes, from the leaves up, and the nodes have at most so many layers. -/
structure Accounted (bound : Nat) (recoveries : List Recovery) (nodes : List Node) : Prop where
  recoveries_eq : recoveries = nodes.flatMap Node.recoveries
  layers : ∀ node ∈ nodes, node.Layers bound

theorem Accounted.append {bound : Nat} {recoveries more : List Recovery} {nodes others : List Node}
    (first : Accounted bound recoveries nodes) (second : Accounted bound more others) :
    Accounted bound (recoveries ++ more) (nodes ++ others) := by
  constructor
  · rw [List.flatMap_append, ← first.recoveries_eq, ← second.recoveries_eq]
  · exact List.forall_mem_append.mpr ⟨first.layers, second.layers⟩

/-- A node without children that is no error node accounts for nothing. -/
theorem Accounted.leaf {bound : Nat} {form : Form Node} {span : Span} (childless : form.children = [])
    (whole : ∀ cause children, form ≠ .error cause children) : Accounted (bound + 1) [] [⟨form, span⟩] := by
  have none : (Node.mk form span).recovery? = Option.none := by
    cases form with
    | error cause children => exact absurd rfl (whole cause children)
    | _ => rfl
  have leafNode : (Node.mk form span).children = [] := childless
  constructor
  · rw [List.flatMap_singleton, Node.recoveries_eq, none, leafNode]
    rfl
  · intro node among
    obtain rfl := List.mem_singleton.mp among
    exact .node (by simp [leafNode])

/-- Nodes as a level reads them: they account for the recoveries, and no header is among them. -/
structure Recorded (bound : Nat) (recoveries : List Recovery) (nodes : List Node) : Prop
    extends Accounted bound recoveries nodes where
  headerless : ∀ node ∈ nodes, node.Headerless

namespace Recorded

variable {bound : Nat} {recoveries more : List Recovery} {nodes others : List Node}

theorem nil : Recorded bound [] [] := ⟨⟨rfl, by simp⟩, by simp⟩

theorem append (first : Recorded bound recoveries nodes) (second : Recorded bound more others) :
    Recorded bound (recoveries ++ more) (nodes ++ others) :=
  ⟨first.toAccounted.append second.toAccounted, List.forall_mem_append.mpr ⟨first.headerless, second.headerless⟩⟩

theorem mono {high : Nat} (recorded : Recorded bound recoveries nodes) (le : bound ≤ high) :
    Recorded high recoveries nodes :=
  ⟨⟨recorded.recoveries_eq, fun node among => (recorded.layers node among).mono le⟩, recorded.headerless⟩

/-- A construct records what its children record. -/
theorem construct {form : Form Node} {span : Span} (recorded : Recorded bound recoveries form.children)
    (whole : (∀ cause children, form ≠ .error cause children) ∧ ∀ list, form ≠ .parameters list) :
    Recorded (bound + 1) recoveries [⟨form, span⟩] := by
  have none : (Node.mk form span).recovery? = Option.none := by
    cases form with
    | error cause children => exact absurd rfl (whole.1 cause children)
    | _ => rfl
  refine ⟨⟨?_, ?_⟩, ?_⟩
  · rw [recorded.recoveries_eq, List.flatMap_singleton, Node.recoveries_eq, none, Option.toList_none, List.append_nil]
    rfl
  · intro node among
    obtain rfl := List.mem_singleton.mp among
    exact .node recorded.layers
  · intro node among
    obtain rfl := List.mem_singleton.mp among
    exact Node.headerless_iff.mpr ⟨whole.2, recorded.headerless⟩

/-- An error node records its own recovery after those of its children. -/
theorem giveUp {cause : Malformation} {span : Span} (recorded : Recorded bound recoveries nodes) :
    Recorded (bound + 1) (recoveries ++ [⟨cause.kind, span⟩]) [⟨.error cause nodes, span⟩] := by
  refine ⟨⟨?_, ?_⟩, ?_⟩
  · rw [recorded.recoveries_eq, List.flatMap_singleton, Node.recoveries_eq]
    rfl
  · intro node among
    obtain rfl := List.mem_singleton.mp among
    exact .node recorded.layers
  · intro node among
    obtain rfl := List.mem_singleton.mp among
    exact Node.headerless_iff.mpr ⟨by simp [Node.form], recorded.headerless⟩

/-- A node without children that is neither an error node nor a header records nothing. -/
theorem leaf {form : Form Node} {span : Span} (childless : form.children = [])
    (whole : (∀ cause children, form ≠ .error cause children) ∧ ∀ list, form ≠ .parameters list) :
    Recorded (bound + 1) [] [⟨form, span⟩] :=
  construct (childless ▸ nil) whole

/-- A text at the end records nothing, so that it can be cut or left out. -/
theorem trimTail (recorded : Recorded bound recoveries nodes) : Recorded bound recoveries (trimTail nodes) := by
  unfold SigilTemplate.trimTail
  split
  · next content span last =>
    obtain ⟨init, rfl⟩ := List.getLast?_eq_some_iff.mp last
    obtain ⟨bound, rfl⟩ : ∃ rest, bound = rest + 1 := by
      cases recorded.layers _ (List.mem_append_right init (List.mem_singleton_self _))
      exact ⟨_, rfl⟩
    have nothing : Node.recoveries ⟨.text content, span⟩ = [] := by rw [Node.recoveries_eq]; rfl
    have earlier : Recorded (bound + 1) recoveries init := by
      refine ⟨⟨?_, ?_⟩, ?_⟩
      · simpa [nothing] using recorded.recoveries_eq
      · exact fun node among => recorded.layers node (List.mem_append_left _ among)
      · exact fun node among => recorded.headerless node (List.mem_append_left _ among)
    rw [List.dropLast_concat]
    dsimp only
    split
    · exact earlier
    · simpa using earlier.append (leaf rfl (by simp))
  · exact recorded

end Recorded

namespace Traced

variable {α β σ ρ : Type} {before : List Recovery}

/-- The answer has the property together with all recoveries so far. -/
structure Records (before : List Recovery) (x : Traced α) (post : List Recovery → α → Prop) : Prop where
  of_outcome : ∀ answer, x.outcome = .ok answer → post (before ++ x.recoveries) answer

theorem Records.pure {post : List Recovery → α → Prop} {answer : α} (holds : post before answer) :
    (Pure.pure answer : Traced α).Records before post := by
  constructor
  rintro _ ⟨⟩
  change post (before ++ []) answer
  rw [List.append_nil]
  exact holds

theorem Records.fail {post : List Recovery → α → Prop} {fault : Fault} :
    (Traced.fail fault : Traced α).Records before post := by
  constructor
  rintro _ ⟨⟩

theorem Records.imp {x : Traced α} {post weaker : List Recovery → α → Prop} (records : x.Records before post)
    (implies : ∀ all answer, post all answer → weaker all answer) : x.Records before weaker :=
  ⟨fun answer outcome => implies _ answer (records.of_outcome answer outcome)⟩

theorem Records.bind {x : Traced α} {f : α → Traced β} {between : List Recovery → α → Prop}
    {post : List Recovery → β → Prop} (first : x.Records before between)
    (second : ∀ all answer, between all answer → (f answer).Records all post) : (x >>= f).Records before post := by
  constructor
  intro answer outcome
  cases here : x.outcome with
  | ok value =>
    rw [bind_ok here] at outcome ⊢
    rw [← List.append_assoc]
    exact (second _ value (first.of_outcome value here)).of_outcome answer outcome
  | error fault =>
    rw [bind_error here] at outcome
    cases outcome

/-- What a reading records by itself comes after what was recorded before it. -/
theorem Records.after {x : Traced α} {post : List Recovery → α → Prop} (alone : x.Records [] post)
    (before : List Recovery) : x.Records before fun all answer => ∃ own, all = before ++ own ∧ post own answer :=
  ⟨fun answer outcome => ⟨x.recoveries, rfl, alone.of_outcome answer outcome⟩⟩

theorem Records.iterate_go {limit : Nat} {pos : σ → Nat} {inv : List Recovery → σ → Prop}
    {post : List Recovery → ρ → Prop} {step : σ → Traced (σ ⊕ ρ)} {stuck : σ → ρ}
    (steps : ∀ all state, inv all state → (step state).Records all fun all => Sum.elim (inv all) (post all))
    (ends : ∀ all state, inv all state → post all (stuck state)) (done : List Recovery) (state : σ)
    (start : inv (before ++ done.reverse) state) : (iterate.go limit pos step stuck done state).Records before post := by
  fun_induction iterate.go limit pos step stuck done state with
  | case1 => exact ⟨by rintro _ ⟨⟩⟩
  | case2 done state more answer outcome =>
    refine ⟨?_⟩
    rintro _ ⟨⟩
    have holds := (steps _ state start).of_outcome _ (by rw [outcome])
    simpa [outcome] using holds
  | case3 done state more next outcome onward ih =>
    apply ih
    have holds := (steps _ state start).of_outcome _ (by rw [outcome])
    simpa [outcome] using holds
  | case4 done state more next outcome stays =>
    refine ⟨?_⟩
    rintro _ ⟨⟩
    have holds := (steps _ state start).of_outcome _ (by rw [outcome])
    simpa [outcome] using ends _ next holds

/-- A loop records what its rounds record, whether or not its guard stops it. -/
theorem Records.iterate {limit : Nat} {pos : σ → Nat} {inv : List Recovery → σ → Prop}
    {post : List Recovery → ρ → Prop} {step : σ → Traced (σ ⊕ ρ)} {stuck : σ → ρ} {state : σ}
    (steps : ∀ all state, inv all state → (step state).Records all fun all => Sum.elim (inv all) (post all))
    (ends : ∀ all state, inv all state → post all (stuck state)) (start : inv before state) :
    (Traced.iterate limit pos step stuck state).Records before post :=
  .iterate_go steps ends [] state (by simpa using start)

/-! ## Nodes -/

/-- A node that is read accounts for all recoveries so far. -/
abbrev RecordsNode (bound : Nat) (before : List Recovery) (x : Traced ReadNode) : Prop :=
  x.Records before fun all read => Recorded bound all [read.1]

variable {bound : Nat} {cause : Malformation} {span : Span} {children : List Node}

theorem Records.whole {form : Form Node} {after : Cursor} (recorded : Recorded bound before form.children)
    (whole : (∀ cause children, form ≠ .error cause children) ∧ ∀ list, form ≠ .parameters list) :
    (Pure.pure (⟨form, span⟩, after) : Traced ReadNode).RecordsNode (bound + 1) before :=
  .pure (recorded.construct whole)

theorem Records.recover (recorded : Recorded bound before children) :
    (Traced.recover cause span children).Records before fun all node => Recorded (bound + 1) all [node] := by
  constructor
  rintro _ ⟨⟩
  exact recorded.giveUp

theorem Records.giveUp {stop : Cursor} (recorded : Recorded bound before children) :
    (Traced.recover cause span children >>= fun node => Pure.pure (node, stop)).RecordsNode (bound + 1) before :=
  .bind (.recover recorded) fun _ _ holds => .pure holds

end Traced

end SigilTemplate
