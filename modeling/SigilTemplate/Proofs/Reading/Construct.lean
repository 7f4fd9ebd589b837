import SigilTemplate.Proofs.Reading.Sequence
import SigilTemplate.Reading.Region

/-!
What is read as one construct. The constructs without a region in them are
settled here, and what stands in the place of one that is given up; for those
with regions, what must be known of the levels below is named.
-/

namespace SigilTemplate
open Text

/-- A construct that has been read from `c`: the rules spell it and all that is below it. -/
def GrownFrom (source : List Char) (c : Cursor) (read : ReadNode) : Prop :=
  Spells c read.1 read.2 ∧ ∀ child ∈ read.1.children, Grown source child

theorem GrownFrom.lt {source : List Char} {c : Cursor} {read : ReadNode} (grown : GrownFrom source c read) :
    c < read.2 :=
  grown.1.inOrder.1

theorem GrownFrom.grown {source : List Char} {c : Cursor} {read : ReadNode} (grown : GrownFrom source c read)
    (place : Cursor.ofText source ≤ c) : Grown source read.1 :=
  .construct place grown.1 grown.2

section

variable {source : List Char} {context : Context} {start : Cursor}

/-- A construct without children needs its rule only. -/
theorem Traced.Yields.leaf {node : Node} {after : Cursor} (spells : Spells start node after)
    (leaf : node.children = []) :
    (Pure.pure (node, after) : Traced ReadNode).Yields source (GrownFrom source start) :=
  .pure ⟨spells, by simp [leaf]⟩

/-- What is given up has taken at least a character, and what was read inside it stays in order. -/
theorem Traced.Yields.giveUp {stop : Cursor} {cause : Malformation} {children : List Node} (lt : start < stop)
    (order : InOrder start children stop) (grown : ∀ child ∈ children, Grown source child) :
    (Traced.recover cause (start.spanTo stop) children >>= fun node => Pure.pure (node, stop)).Yields source
      (GrownFrom source start) :=
  .recover (.pure ⟨.error lt order, grown⟩)

theorem invalidSigil_yields {stop : Cursor} (lt : start < stop) :
    (invalidSigil start stop).Yields source (GrownFrom source start) :=
  .giveUp lt (.nil lt.le) (by simp)

theorem utf8Size_of_isOpener {ch : Char} (opens : Code.isOpener ch = true) : ch.utf8Size = 1 := by
  simp only [Code.isOpener, Bool.or_eq_true, beq_iff_eq] at opens
  rcases opens with (rfl | rfl) | rfl <;> decide

/-- The span of one character of one byte. -/
theorem spanTo_next {c : Cursor} {ch : Char} (head : c.peek = some ch) (byte : ch.utf8Size = 1) :
    (⟨c.pos, c.pos + 1⟩ : Span) = c.spanTo c.next := by
  have moved := (Cursor.reads_next_of_peek head).pos_eq
  simp only [byteLength_cons, byteLength_nil, byte] at moved
  rw [Cursor.spanTo, moved]

theorem refusedFragment_yields {c : Cursor} {refusal : Code.Refusal} (size : context.size = byteLength source)
    (place : Cursor.ofText source ≤ start) (lt : start < c) (refused : Code.RefusedFrom c refusal) :
    (refusedFragment context start refusal).Yields source (GrownFrom source start) := by
  obtain ⟨opener, ch, later, head, opens, encloses⟩ := refused
  have reached : start < opener.next := (lt.trans_le later).trans_le (Cursor.le_next opener)
  cases encloses with
  | mismatched after head closer other stands =>
    have stop := reached.trans_le after
    exact .giveUp stop (.nil stop.le) (by simp)
  | unterminated =>
    have span := spanTo_next head (utf8Size_of_isOpener opens)
    simp only [refusedFragment, span, size]
    exact .fail (.delimiter (place.trans (lt.le.trans later)) (Cursor.reads_next_of_peek head) opens)
  | tooDeep after => exact .fail (.depth (place.trans (reached.le.trans after)))

/-! ## Comments, code and expressions -/

theorem readComment_yields (size : context.size = byteLength source) (place : Cursor.ofText source ≤ start)
    (sigil : start.peek = some '@') (star : start.next.peek = some '*') :
    (readComment context start).Yields source (GrownFrom source start) := by
  have opens : start.Reads ['@', '*'] (start.skip 2) :=
    (Cursor.reads_next_of_peek sigil).trans (Cursor.reads_next_of_peek star)
  simp only [readComment]
  split
  · next close closes => exact .leaf (.comment opens closes) rfl
  · next unclosed =>
    have span : (⟨start.pos, start.pos + 2⟩ : Span) = start.spanTo (start.skip 2) := by
      rw [Cursor.spanTo, opens.pos_eq]
      rfl
    rw [span, size]
    exact .fail (.comment place opens unclosed)

theorem refusedFrom_of_enclosed {limit : Nat} {c : Cursor} {ch : Char} {refusal : Code.Refusal}
    (head : c.peek = some ch) (opens : Code.isOpener ch = true) (refused : Code.enclosed limit c = .error refusal) :
    Code.RefusedFrom c refusal := by
  have spec := Code.enclosed_spec limit head opens
  rw [refused] at spec
  exact ⟨c, ch, le_refl c, head, opens, spec⟩

theorem readEnclosed_yields {room : Nat} {form : String → Form Node} {opener : Cursor} {ch : Char}
    (size : context.size = byteLength source) (place : Cursor.ofText source ≤ start) (lt : start < opener)
    (head : opener.peek = some ch) (opens : Code.isOpener ch = true) (leaf : ∀ code, (form code).children = [])
    (spells : ∀ fragment, Code.enclosed room opener = .ok fragment →
      Spells start ⟨form (String.ofList fragment.inner.rest), start.spanTo fragment.after⟩ fragment.after) :
    (readEnclosed room context form start opener).Yields source (GrownFrom source start) := by
  unfold readEnclosed
  split
  · next fragment ok => exact .leaf (spells fragment ok) (leaf _)
  · next refusal refused => exact refusedFragment_yields size place lt (refusedFrom_of_enclosed head opens refused)

theorem readSimpleExpression_yields {room : Nat} {raw : Bool} {name : Cursor}
    (size : context.size = byteLength source) (place : Cursor.ofText source ≤ start) (sigil : SigilTo raw start name) :
    (readSimpleExpression room context raw start name).Yields source (GrownFrom source start) := by
  unfold readSimpleExpression
  split
  · next chain ok => exact .leaf (.simple sigil ok) rfl
  · exact invalidSigil_yields sigil.lt
  · next refusal refused => exact refusedFragment_yields size place sigil.lt (Code.chain?_error refused)

theorem readParenExpression_yields {room : Nat} {raw : Bool} {opener : Cursor}
    (size : context.size = byteLength source) (place : Cursor.ofText source ≤ start) (sigil : SigilTo raw start opener)
    (head : opener.peek = some '(') :
    (readParenExpression room context raw start opener).Yields source (GrownFrom source start) :=
  readEnclosed_yields size place sigil.lt head rfl (fun _ => rfl) fun _ ok => .paren sigil head ok

theorem readRawOutput_yields {room : Nat} (size : context.size = byteLength source)
    (place : Cursor.ofText source ≤ start) (sigil : start.peek = some '@') (mark : start.next.peek = some '#') :
    (readRawOutput room context start).Yields source (GrownFrom source start) := by
  have raw : SigilTo true start (start.skip 2) :=
    (Cursor.reads_next_of_peek sigil).trans (Cursor.reads_next_of_peek mark)
  simp only [readRawOutput]
  split
  · next ch head =>
    split
    · next paren =>
      subst paren
      exact readParenExpression_yields size place raw head
    · split
      · exact readSimpleExpression_yields size place raw
      · exact invalidSigil_yields raw.lt
  · exact invalidSigil_yields raw.lt

/-! ## Directives -/

theorem malformedDirective_yields {keyword : Keyword} {stop : Cursor} (sigil : start.peek = some '@')
    (lt : start < stop) : (malformedDirective keyword start stop).Yields source (GrownFrom source start) := by
  have kept := lt_trimmedEnd sigil (by decide) lt
  exact .giveUp kept (.nil kept.le) (by simp)

/-- A directive without a block by its rule, or what stands in its place. -/
theorem settleDirective_yields {keyword : Keyword} {c : Cursor} {attempt : Except Cursor (Directive Node × Cursor)}
    (sigil : start.peek = some '@') (opens : Opens keyword start c) (onward : Onward c (Directive.Flat keyword c) attempt)
    (rule : ∀ directive after, attempt = .ok (directive, after) → DirectiveFrom c directive after) :
    (settleDirective keyword start attempt).Yields source (GrownFrom source start) := by
  match attempt, onward, rule with
  | .ok (directive, after), ⟨_, flat⟩, rule =>
    rw [← flat.keyword_eq] at opens
    exact .leaf (.directive opens (rule directive after rfl)) flat.leaf
  | .error stop, later, _ => exact malformedDirective_yields sigil (opens.lt.trans_le later)

end

end SigilTemplate
