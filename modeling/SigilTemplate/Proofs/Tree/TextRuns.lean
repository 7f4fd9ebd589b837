import Mathlib
import SigilTemplate.Proofs.Tree.Braces
import SigilTemplate.Proofs.Tree.Header

/-!
Text is read in runs as long as they can be. A run ends only where a construct
starts or its region ends, so in the nodes of a region no text stands next to
another text. The white space that is cut off at the end of an arm, and that
which stands before a header, change nothing of this, and no text is empty.
-/

namespace SigilTemplate
open Text

/-! ## Regions -/

section

variable {α : Type}

def Form.isText : Form α → Bool
  | .text _ => true
  | .comment _ | .expression _ | .codeBlock _ | .parameters _ | .directive _ | .statement _ | .component _
  | .error _ _ => false

theorem Form.isText_eq_true {form : Form α} : form.isText = true ↔ ∃ content, form = .text content := by
  cases form <;> simp [Form.isText]

def ArmBody.inlines : ArmBody α → List (List α)
  | block _ => []
  | inline body => [body]

/-- The bodies of a form that are read as regions, but not between braces: those of inline arms, and that of a tag. -/
def Form.openRegions : Form α → List (List α)
  | .statement (.matchOn _ arms) => arms.flatMap fun arm => arm.body.inlines
  | .component ⟨_, .tag, _, body, _⟩ => [body]
  | _ => []

/-- All bodies of a form, each of them the nodes of one region. -/
def Form.regions (form : Form α) : List (List α) := form.blocks ++ form.openRegions

end

/-- No text stands right behind another text. -/
def TextsApart (nodes : List Node) : Prop :=
  nodes.IsChain fun first second => ¬(first.form.isText = true ∧ second.form.isText = true)

instance (nodes : List Node) : Decidable (TextsApart nodes) := by
  unfold TextsApart
  infer_instance

theorem Node.isText_eq_false {node : Node} (other : ∀ content, node.form ≠ .text content) :
    node.form.isText = false := by
  rw [← Bool.not_eq_true, Form.isText_eq_true]
  rintro ⟨content, same⟩
  exact other content same

theorem TextsApart.append_other {nodes : List Node} {node : Node} (apart : TextsApart nodes)
    (other : ∀ content, node.form ≠ .text content) : TextsApart (nodes ++ [node]) := by
  refine List.IsChain.append apart (.singleton node) ?_
  rintro last _ next same ⟨_, text⟩
  obtain rfl : node = next := by simpa using same
  rw [Node.isText_eq_false other] at text
  simp at text

/-! ## Runs in a region -/

/-- Text goes on for as long as it can, so what comes behind a text is none. -/
theorem Items.textsApart {mode : TextMode} {c d : Cursor} {nodes : List Node} {state : TextState}
    (items : Items mode c nodes state d) : TextsApart nodes := by
  induction items with
  | start => exact .nil
  | @text nodes state d items atText ih =>
    refine List.IsChain.append ih (.singleton _) ?_
    rintro ⟨form, span⟩ last next _ ⟨text, _⟩
    obtain ⟨content, rfl⟩ := Form.isText_eq_true.mp text
    exact items.not_atText last atText
  | construct _ _ _ _ other ih => exact ih.append_other other

theorem Block.textsApart {brace after : Cursor} {body : List Node} (block : Block brace body after) : TextsApart body := by
  cases block with
  | closed _ items _ _ => exact items.textsApart

/-- Cutting off the white space at the end shortens the last text or leaves it out. -/
theorem TextsApart.trimTail {nodes : List Node} (apart : TextsApart nodes) : TextsApart (trimTail nodes) := by
  induction nodes using List.reverseRecOn with
  | nil => exact apart
  | append_singleton rest node _ =>
    obtain ⟨form, span⟩ := node
    cases form with
    | text content =>
      rw [trimTail_append_text]
      obtain ⟨before, _, between⟩ := List.isChain_append.mp apart
      split
      · exact before
      · refine List.IsChain.append before (.singleton _) ?_
        rintro last here _ _ ⟨text, _⟩
        exact between last here _ rfl ⟨text, rfl⟩
    | _ => rwa [trimTail_append_other _ (by simp [Node.form])]

theorem Arms.textsApart {brace place : Cursor} {arms : List (Arm Node)} (between : Arms brace arms place) :
    ∀ arm ∈ arms, ∀ body ∈ arm.body.inlines, TextsApart body := by
  induction between with
  | start => simp
  | more _ next ih =>
    intro other member body among
    rcases List.mem_append.mp member with before | last
    · exact ih other before body among
    · obtain rfl := List.mem_singleton.mp last
      cases next with
      | block => simp [ArmBody.inlines] at among
      | inline _ items =>
        obtain rfl := List.mem_singleton.mp among
        exact items.textsApart.trimTail
      | unbalanced =>
        obtain rfl := List.mem_singleton.mp among
        exact .singleton _

/-- In every body of a construct the texts are apart. -/
theorem Spells.textsApart {c d : Cursor} {node : Node} (spells : Spells c node d) :
    ∀ region ∈ node.form.regions, TextsApart region := by
  intro region member
  rcases List.mem_append.mp member with braced | unbraced
  · obtain ⟨brace, after, _, block⟩ := spells.blocks region braced
    exact block.textsApart
  · cases spells with
    | statement _ read =>
      cases read with
      | matchOn _ between =>
        obtain ⟨arm, among, inside⟩ := List.mem_flatMap.mp unbraced
        exact between.textsApart arm among region inside
      | _ => simp [Node.form, Form.openRegions] at unbraced
    | selfClosing =>
      obtain rfl := List.mem_singleton.mp unbraced
      exact .nil
    | tag _ _ _ items =>
      obtain rfl := List.mem_singleton.mp unbraced
      exact items.textsApart
    | _ => simp [Node.form, Form.openRegions] at unbraced

/-! ## The template -/

theorem TextsApart.parameters_cons {list : List Parameter} {span : Span} {nodes : List Node} (apart : TextsApart nodes) :
    TextsApart (⟨.parameters list, span⟩ :: nodes) :=
  List.IsChain.cons apart fun _ _ => by simp [Node.form, Form.isText]

/-- The parameters of a header keep the white space before it apart from what follows. -/
theorem IsHeader.textsApart_append {front rest : List Node} (header : IsHeader front) (apart : TextsApart rest) :
    TextsApart (front ++ rest) := by
  cases header with
  | nothing => exact apart
  | first => exact apart.parameters_cons
  | afterBlank => exact apart.parameters_cons.cons_cons (by simp [Node.form, Form.isText])

theorem Grown.text_ne_empty {source : List Char} {node : Node} (grown : Grown source node) {content : String}
    (text : node.form = .text content) : content ≠ "" := by
  cases grown with
  | @text c d written place lt reads =>
    obtain rfl : written = content := by simpa [Node.form] using text
    rintro rfl
    obtain rfl := Cursor.reads_nil reads
    exact lt_irrefl _ lt
  | construct _ spells _ => exact absurd text (spells.form_ne_text content)

/-- The texts of a template are maximal runs: neither at the top of a tree that has been read nor in any body at any
depth in it does a text stand right behind another one, and no text of the tree is empty. -/
theorem Tree.read_text_runs {options : ReadOptions} {source : List Char} {tree : Tree}
    (read : Tree.read options source = .ok tree) :
    TextsApart tree.nodes ∧ ∀ node ∈ tree.preorder, (∀ region ∈ node.form.regions, TextsApart region) ∧
      ∀ content, node.form = .text content → content ≠ "" := by
  have grown := Tree.read_grown read
  constructor
  · obtain ⟨leading, nodes, c, state, d, same, before, items, _⟩ := grown.nodes_eq
    rw [same]
    exact before.isHeader.textsApart_append items.textsApart
  · intro node member
    have written := grown.of_mem_preorder node member
    refine ⟨?_, fun content text => written.text_ne_empty text⟩
    cases written with
    | text => simp [Node.form, Form.regions, Form.blocks, Form.openRegions]
    | construct _ spells _ => exact spells.textsApart

/-- An escape does not end a run, and neither does a comma in a string or a pair of braces. -/
theorem Tree.read_text_runs_sample :
    ∃ tree, Tree.read {} "@match n \x7b 1 => \"x,\" @@y , _ => \x7b\x7bz\x7d@v w\x7d \x7da@@b@* c *@ d".toList = .ok tree ∧
      tree.nodes.map (·.form.isText) = [false, true, false, true] ∧ TextsApart tree.nodes ∧
      ∃ node ∈ tree.preorder, node.form.regions.map (·.map (·.form.isText)) = [[true, false, true], [true]] ∧
        ∀ region ∈ node.form.regions, TextsApart region := by
  have read : Tree.read {} "@match n \x7b 1 => \"x,\" @@y , _ => \x7b\x7bz\x7d@v w\x7d \x7da@@b@* c *@ d".toList =
      .ok ⟨[⟨.statement (.matchOn ⟨"n", ⟨7, 8⟩⟩
          [⟨⟨"1", ⟨11, 12⟩⟩, .inline [⟨.text "\"x,\" @y", ⟨16, 24⟩⟩], ⟨11, 24⟩⟩,
            ⟨⟨"_", ⟨27, 28⟩⟩, .block [⟨.text "\x7bz\x7d", ⟨33, 36⟩⟩,
              ⟨.expression ⟨.simple 0 [.ident "v"], "v", false⟩, ⟨36, 38⟩⟩, ⟨.text " w", ⟨38, 40⟩⟩], ⟨27, 41⟩⟩]), ⟨0, 43⟩⟩,
        ⟨.text "a@b", ⟨43, 47⟩⟩, ⟨.comment " c ", ⟨47, 54⟩⟩, ⟨.text " d", ⟨54, 56⟩⟩],
        "@match n \x7b 1 => \"x,\" @@y , _ => \x7b\x7bz\x7d@v w\x7d \x7da@@b@* c *@ d".toList, 0⟩ := by cbv
  obtain ⟨apart, below⟩ := Tree.read_text_runs read
  exact ⟨_, read, rfl, apart, _, Tree.mem_preorder_of_mem_nodes List.mem_cons_self, rfl,
    (below _ (Tree.mem_preorder_of_mem_nodes List.mem_cons_self)).1⟩

end SigilTemplate
