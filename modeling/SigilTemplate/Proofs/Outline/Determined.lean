import SigilTemplate.Proofs.Outline.Legible
import SigilTemplate.Proofs.Outline.Recovered
import SigilTemplate.Proofs.Reading.Soundness

/-!
The outline of a template determines its tree, up to what the outline leaves
out. What is read of a template is definite by the rules it is written by, so
its outline can be read back: first the forms from the characters, then the
tree from the forms.
-/

namespace SigilTemplate
open Text

/-! ## What is read is definite -/

section

variable {c d : Cursor}

theorem constantValue?_definite {word : List Char} {value : ArgumentValue Node}
    (found : constantValue? word = some value) : value.Definite := by
  rintro text rfl
  simp only [constantValue?] at found
  split at found
  · simp at found
  · split at found
    · simp at found
    · split at found
      · next number =>
        obtain rfl := ArgumentValue.number.inj (Option.some.inj found)
        simpa using number
      · simp at found

theorem codeValue_definite (value : Fragment) : (codeValue value).Definite := by
  intro text found
  simp only [codeValue] at found
  split at found
  · simp at found
  · split at found
    · simp at found
    · split at found
      · next number =>
        obtain rfl := ArgumentValue.number.inj found
        exact number
      · split at found <;> simp at found

theorem ValueFrom.definite {value : ArgumentValue Node} (reads : ValueFrom c value d) : value.Definite := by
  cases reads with
  | constant word => exact constantValue?_definite word
  | _ => rintro text ⟨⟩

theorem AttributeFrom.definite {argument : Argument Node} (reads : AttributeFrom c argument d) :
    argument.value.Definite := by
  cases reads with
  | flag => rintro text ⟨⟩
  | valued _ reads => exact reads.definite

theorem Attributes.definite {arguments : List (Argument Node)} (reads : Attributes c arguments d) :
    ∀ argument ∈ arguments, argument.value.Definite := by
  induction reads with
  | start => simp
  | more _ _ _ next ih =>
    intro argument member
    rcases List.mem_append.mp member with among | last
    · exact ih argument among
    · obtain rfl := List.mem_singleton.mp last
      exact next.definite

theorem callArguments?_definite {part : Cursor} {arguments : List (Argument Node)}
    (found : callArguments? part = some arguments) : ∀ argument ∈ arguments, argument.value.Definite := by
  intro argument member
  obtain ⟨entries, _, rest⟩ := Option.bind_eq_some_iff.mp found
  obtain rfl := Option.some.inj rest
  obtain ⟨⟨name, value⟩, _, rfl⟩ := List.mem_map.mp member
  exact codeValue_definite value

theorem Spells.definite {node : Node} (spells : Spells c node d) : node.form.Definite := by
  cases spells with
  | selfClosing _ attributes =>
    rintro _ ⟨⟩
    exact ⟨attributes.definite, fun _ => rfl⟩
  | tag _ attributes =>
    rintro _ ⟨⟩
    exact ⟨attributes.definite, by simp⟩
  | call _ _ _ entries =>
    rintro _ ⟨⟩
    exact ⟨callArguments?_definite entries, by simp⟩
  | _ => rintro component ⟨⟩

end

theorem Grown.definite {source : List Char} {node : Node} (grown : Grown source node) : node.Definite := by
  induction grown with
  | text => exact .mk (by rintro c ⟨⟩) (by simp [Node.children, Node.form, Form.children])
  | construct _ spells _ ih => exact .mk spells.definite ih

/-! ## Trees -/

theorem Tree.read_definite {options : ReadOptions} {source : List Char} {tree : Tree}
    (read : Tree.read options source = .ok tree) : ∀ node ∈ tree.nodes, node.Definite :=
  fun node member => ((Tree.read_grown read).grown node member).definite

theorem Tree.legible_outline {tree : Tree} (definite : ∀ node ∈ tree.nodes, node.Definite) :
    tree.outline.Legible := by
  apply Outline.Legible.group (by decide)
  intro outline member
  obtain ⟨node, among, rfl⟩ := List.mem_map.mp member
  exact (definite node among).legible

/-- The nodes of a tree are read back from its outline. -/
theorem Tree.nodes_recover {tree : Tree} (definite : ∀ node ∈ tree.nodes, node.Definite) :
    tree.outline.recover.nodes = tree.nodes.map Node.bare :=
  nodes_recover_group _ _ fun node member => (definite node member).recovers

theorem Tree.outline_congr {tree tree' : Tree} (same : tree.nodes.map Node.bare = tree'.nodes.map Node.bare) :
    tree.outline = tree'.outline := by
  have shown (nodes : List Node) : nodes.map Node.outline = (nodes.map Node.bare).map Node.outline := by
    rw [List.map_map]
    exact List.map_congr_left fun node _ => node.outline_bare.symm
  rw [outline, outline, shown, same, ← shown]

/-- Two templates have one outline just if they have one tree, without what outlines leave out: offsets, the parse of
simple expressions, whether an `else` is followed by an `if` or by a block with only that in it, and everything about
a malformation but its kind. -/
theorem Tree.outlineText_eq_iff {options options' : ReadOptions} {source source' : List Char} {tree tree' : Tree}
    (read : Tree.read options source = .ok tree) (read' : Tree.read options' source' = .ok tree') :
    tree.outlineText = tree'.outlineText ↔ tree.nodes.map Node.bare = tree'.nodes.map Node.bare := by
  have definite := Tree.read_definite read
  have definite' := Tree.read_definite read'
  constructor
  · intro same
    have chars : tree.outline.chars 0 ++ [] = tree'.outline.chars 0 ++ [] := by
      simpa [outlineText] using congrArg String.toList same
    obtain ⟨forms, _⟩ := (legible_outline definite).chars_append_inj (legible_outline definite') chars
    rw [← nodes_recover definite, ← nodes_recover definite', forms]
  · intro same
    exact congrArg (fun outline => String.ofList (outline.chars 0)) (outline_congr same)

/-- An `else if`. -/
def chainedSample : List Char := "@if x \x7b@y\x7d else if z \x7b<A n=1/>\x7d".toList

/-- The same with a block, and with other blanks. -/
def blockSample : List Char := "@if  x\x7b@y\x7delse\x7b@if z \x7b<A  n=1 />\x7d\x7d".toList

theorem Tree.outlineText_eq_iff_sample :
    ∃ tree tree', Tree.read {} chainedSample = .ok tree ∧ Tree.read {} blockSample = .ok tree' ∧
      tree.outlineText = tree'.outlineText ∧ tree.nodes.map Node.bare = tree'.nodes.map Node.bare := by
  have same : (Tree.read {} chainedSample).toOption.map (·.outline.chars 0) =
      (Tree.read {} blockSample).toOption.map (·.outline.chars 0) := by decide +kernel
  have ok : (Tree.read {} chainedSample).isOk = true := by decide +kernel
  cases read : Tree.read {} chainedSample with
  | error fault => simp [read, Except.isOk, Except.toBool] at ok
  | ok tree =>
    cases read' : Tree.read {} blockSample with
    | error fault => simp [read, read', Except.toOption] at same
    | ok tree' =>
      have chars : tree.outline.chars 0 = tree'.outline.chars 0 := by simpa [read, read', Except.toOption] using same
      have text : tree.outlineText = tree'.outlineText := congrArg String.ofList chars
      exact ⟨tree, tree', rfl, rfl, text, (Tree.outlineText_eq_iff read read').mp text⟩

end SigilTemplate
