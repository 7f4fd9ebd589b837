import SigilTemplate.Proofs.Ledger.Reading
import SigilTemplate.Proofs.Reading.Recoveries

/-!
The books balance. Every reader leaves the ledger as it found it and never goes
above the limit, and what it reads is what the levels read from the context that
the ledger shows. So the two ways of keeping track of what is open agree on
every template.
-/

namespace SigilTemplate

/-- Where it answers, the reading with books leaves the ledger as it was, and reads what the one without reads. -/
abbrev Booked.Keeps {α : Type} (bounds : Bounds) (ledger : Ledger) (booked : Booked α) (plain : Traced α) : Prop :=
  booked.Reads bounds.maxDepth ledger plain ledger

/-- From this depth on, the readers read what the levels read. -/
structure Readers.Keep (bounds : Bounds) (depth : Nat) (readers : Readers) : Prop where
  region : ∀ ledger : Ledger, depth ≤ ledger.depth → ledger.depth ≤ bounds.maxDepth → ∀ kind c,
    (readers.region kind c).Keeps bounds ledger ((ledger.level bounds).region (ledger.context bounds) kind c)
  sigil : ∀ ledger : Ledger, depth ≤ ledger.depth → ledger.depth ≤ bounds.maxDepth → ∀ c,
    (readers.sigil c).Keeps bounds ledger ((ledger.level bounds).sigil (ledger.context bounds) c)
  conditional : ∀ ledger : Ledger, depth ≤ ledger.depth → ledger.depth ≤ bounds.maxDepth → ∀ start c,
    (readers.conditional start c).Keeps bounds ledger
      ((ledger.level bounds).conditional (ledger.context bounds) start c)

theorem Readers.Keep.deeper {bounds : Bounds} {depth inside : Nat} {readers : Readers} (keep : readers.Keep bounds depth)
    (le : depth ≤ inside) : readers.Keep bounds inside where
  region ledger deep := keep.region ledger (Nat.le_trans le deep)
  sigil ledger deep := keep.sigil ledger (Nat.le_trans le deep)
  conditional ledger deep := keep.conditional ledger (Nat.le_trans le deep)

theorem Readers.Keep.later {bounds : Bounds} {depth : Nat} {readers : Readers} (keep : readers.Keep bounds depth) :
    readers.Keep bounds (depth + 1) :=
  keep.deeper (Nat.le_succ depth)

namespace Booked
open Text

section

variable {bounds : Bounds} {ledger : Ledger} {inner : Readers}

/-! ## Blocks and statements -/

theorem readBlock_keeps (ledger : Ledger) {role : BlockRole} {brace : Cursor}
    (keep : inner.Keep bounds (ledger.depth + 1)) (within : ledger.depth ≤ bounds.maxDepth) :
    (readBlock bounds inner role brace).Keeps bounds ledger
      (SigilTemplate.readBlock (ledger.below bounds).nested (ledger.context bounds) role brace) := by
  rw [SigilTemplate.readBlock, Below.nested, Traced.bind_assoc]
  apply Reads.enter rfl
  intro room
  have inside := keep.region ledger.entered.insideBraces (Nat.le_refl _) room .braced brace.next
  rw [Ledger.insideBraces_context] at inside
  apply Reads.insideBraces room inside
  intro region
  apply Reads.change within
  cases region.stop with
  | closeBrace => exact .pure _
  | _ => exact .ledger (.traced _)

theorem readElse_keeps (ledger : Ledger) {c : Cursor} (keep : inner.Keep bounds ledger.depth)
    (within : ledger.depth ≤ bounds.maxDepth) :
    (readElse bounds inner c).Keeps bounds ledger
      (SigilTemplate.readElse (ledger.level bounds) (ledger.context bounds) c) := by
  unfold readElse SigilTemplate.readElse
  cases c.skipBlank.eatText? ['e', 'l', 's', 'e'] with
  | none => exact .pure _
  | some afterElse =>
    simp only
    split
    · rw [Ledger.level_nested]
      exact .bind (readBlock_keeps ledger keep.later within) fun _ => .pure _
    · split
      · exact .bind (keep.conditional ledger (Nat.le_refl _) within _ _) fun _ => .pure _
      · exact .pure _

theorem readConditional_keeps {start c : Cursor} (keep : inner.Keep bounds (ledger.depth + 1))
    (within : ledger.depth ≤ bounds.maxDepth) :
    (readConditional bounds inner start c).Keeps bounds ledger
      (SigilTemplate.readConditional (ledger.below bounds) (ledger.context bounds) start c) := by
  apply Reads.enter rfl
  intro room
  apply Reads.leaving within
  cases statementHead c with
  | missing stop => exact .traced _
  | ready condition brace =>
    simp only
    rw [Ledger.level_nested]
    apply Reads.bind (readBlock_keeps ledger.entered keep.later room)
    rintro ⟨body, middle⟩
    apply Reads.bind (readElse_keeps ledger.entered keep room)
    rintro ⟨otherwise, after⟩
    exact .traced _

theorem readLoop_keeps {keyword : Keyword} {start c : Cursor} (keep : inner.Keep bounds (ledger.depth + 1))
    (within : ledger.depth ≤ bounds.maxDepth) :
    (readLoop bounds inner keyword start c).Keeps bounds ledger
      (SigilTemplate.readLoop (ledger.below bounds) (ledger.context bounds) keyword start c) := by
  apply Reads.enter rfl
  intro room
  apply Reads.leaving within
  cases statementHead c with
  | missing stop => exact .traced _
  | ready header brace =>
    simp only
    rw [Ledger.level_nested]
    apply Reads.bind (readBlock_keeps ledger.entered keep.later room)
    rintro ⟨body, after⟩
    exact .traced _

theorem readStrayElse_keeps {start c : Cursor} (keep : inner.Keep bounds (ledger.depth + 1))
    (within : ledger.depth ≤ bounds.maxDepth) :
    (readStrayElse bounds inner start c).Keeps bounds ledger
      (SigilTemplate.readStrayElse (ledger.below bounds) (ledger.context bounds) start c) := by
  have gives (read : List Node × Cursor) : Keeps bounds ledger
      (do
        let node ← traced (.recover .unexpectedElse (start.spanTo read.2) read.1)
        pure (node, read.2))
      (do
        let node ← .recover .unexpectedElse (start.spanTo read.2) read.1
        pure (node, read.2)) :=
    .bind (.traced _) fun _ => .pure _
  simp only [readStrayElse, SigilTemplate.readStrayElse]
  split
  · exact .bind (readBlock_keeps ledger keep within) gives
  · split
    · apply Reads.bind (readConditional_keeps keep within)
      intro read
      exact .bind (.pure _) gives
    · exact .bind (.pure _) gives

/-! ## Matches -/

theorem readInlineArm_keeps {brace c : Cursor} {arrowEnd : Nat} (keep : inner.Keep bounds (ledger.depth + 1))
    (within : ledger.depth ≤ bounds.maxDepth) :
    (readInlineArm bounds inner brace arrowEnd c).Keeps bounds ledger
      (SigilTemplate.readInlineArm (ledger.level bounds) (ledger.context bounds) brace arrowEnd c) := by
  rw [SigilTemplate.readInlineArm, Ledger.level_nested, Below.nested, Traced.bind_assoc]
  apply Reads.enter rfl
  intro room
  apply Reads.bind (keep.region ledger.entered (Nat.le_refl _) room .arm c)
  intro region
  apply Reads.change within
  cases region.stop with
  | textEnd => exact .ledger (.traced _)
  | unbalanced expected => exact .bind (.traced _) fun _ => .pure _
  | _ => exact .pure _

theorem readArm_keeps {brace c arrow : Cursor} (keep : inner.Keep bounds (ledger.depth + 1))
    (within : ledger.depth ≤ bounds.maxDepth) :
    (readArm bounds inner brace c arrow).Keeps bounds ledger
      (SigilTemplate.readArm (ledger.level bounds) (ledger.context bounds) brace c arrow) := by
  simp only [readArm, SigilTemplate.readArm]
  split
  · rw [Ledger.level_nested]
    exact .bind (readBlock_keeps ledger keep within) fun _ => .pure _
  · exact .bind (readInlineArm_keeps keep within) fun _ => .pure _

theorem skipArms_keeps {brace c : Cursor} {arms : List (Arm Node)} :
    (skipArms bounds brace c arms).Keeps bounds ledger
      (match Code.unmatchedBrace? c with
        | some close => pure (.inr (.malformed (armNodes arms) close.next))
        | none => .fail (unterminatedBlock (ledger.context bounds) (.body .matchOn) brace)) := by
  unfold skipArms
  cases Code.unmatchedBrace? c with
  | some close => exact .pure _
  | none => exact .ledger (.traced _)

theorem armsStep_keeps (ledger : Ledger) {brace : Cursor} (keep : inner.Keep bounds (ledger.depth + 1))
    (within : ledger.depth ≤ bounds.maxDepth) (state : ArmsState) :
    (armsStep bounds inner brace state).Keeps bounds ledger
      (SigilTemplate.armsStep (ledger.level bounds) (ledger.context bounds) brace state) := by
  simp only [armsStep, SigilTemplate.armsStep]
  cases state.place.skipBlank.peek with
  | none => exact .ledger (.traced _)
  | some ch =>
    simp only
    by_cases closes : ch = '}'
    · rw [if_pos closes, if_pos closes]
      exact .pure _
    rw [if_neg closes, if_neg closes]
    cases Code.patternEnd state.place.skipBlank with
    | stopped stop => exact skipArms_keeps
    | arrow arrow =>
      simp only
      by_cases blank : (state.place.skipBlank.textTo arrow).all isBlank = true
      · rw [if_pos blank, if_pos blank]
        exact skipArms_keeps
      · rw [if_neg blank, if_neg blank]
        exact .bind (readArm_keeps keep within) fun _ => .pure _

theorem readMatch_keeps {start c : Cursor} (keep : inner.Keep bounds (ledger.depth + 1))
    (within : ledger.depth ≤ bounds.maxDepth) :
    (readMatch bounds inner start c).Keeps bounds ledger
      (SigilTemplate.readMatch (ledger.below bounds) (ledger.context bounds) start c) := by
  apply Reads.enter rfl
  intro room
  apply Reads.leaving within
  cases statementHead c with
  | missing stop => exact .traced _
  | ready subject brace =>
    have arms : (readArms bounds inner brace).Keeps bounds ledger.entered.insideBraces
        (SigilTemplate.readArms (ledger.entered.level bounds) (ledger.entered.context bounds) brace) := by
      apply Reads.iterate
      intro state
      rw [← Ledger.insideBraces_context]
      exact armsStep_keeps ledger.entered.insideBraces keep.later room state
    apply Reads.insideBraces room arms
    intro ends
    cases ends with
    | closed arms after => exact .traced _
    | malformed nodes after => exact .bind (.traced _) fun _ => .pure _

/-! ## Tags -/

theorem readAttributeValue_keeps {c : Cursor} (keep : inner.Keep bounds ledger.depth)
    (within : ledger.depth ≤ bounds.maxDepth) :
    (readAttributeValue bounds inner c).Keeps bounds ledger
      (SigilTemplate.readAttributeValue (ledger.level bounds) (ledger.context bounds) c) := by
  unfold readAttributeValue SigilTemplate.readAttributeValue
  cases c.peek with
  | none => exact .pure _
  | some ch =>
    simp only
    split
    · exact .pure _
    · split
      · rw [Ledger.level_nested]
        exact .bind (readBlock_keeps ledger keep.later within) fun _ => .pure _
      · split
        · exact .bind (keep.sigil ledger (Nat.le_refl _) within c) fun _ => .pure _
        · cases constantValue? (c.textTo (c.skipWhile isWordPart)) with
          | some value => exact .pure _
          | none => exact .pure _

theorem readAttribute_keeps {c : Cursor} (keep : inner.Keep bounds ledger.depth)
    (within : ledger.depth ≤ bounds.maxDepth) :
    (readAttribute bounds inner c).Keeps bounds ledger
      (SigilTemplate.readAttribute (ledger.level bounds) (ledger.context bounds) c) := by
  simp only [readAttribute, SigilTemplate.readAttribute]
  cases (c.skipWhile isAttributePart).skipBlank.eat? '=' with
  | none => exact .pure _
  | some equals => exact .bind (readAttributeValue_keeps keep within) fun _ => .pure _

theorem tagHeadStep_keeps (ledger : Ledger) (keep : inner.Keep bounds ledger.depth)
    (within : ledger.depth ≤ bounds.maxDepth) (state : TagHeadState) :
    (tagHeadStep bounds inner state).Keeps bounds ledger
      (SigilTemplate.tagHeadStep (ledger.level bounds) (ledger.context bounds) state) := by
  unfold tagHeadStep SigilTemplate.tagHeadStep
  simp only
  cases state.place.skipBlank.eat? '>' with
  | some after => exact .pure _
  | none =>
    cases state.place.skipBlank.eatText? ['/', '>'] with
    | some after => exact .pure _
    | none =>
      simp only
      split
      · apply Reads.bind (readAttribute_keeps keep within)
        intro answer
        cases answer with
        | ok read => exact .pure _
        | error stop => exact .pure _
      · exact .pure _

theorem readTag_keeps {start : Cursor} (keep : inner.Keep bounds (ledger.depth + 1))
    (within : ledger.depth ≤ bounds.maxDepth) :
    (readTag bounds inner start).Keeps bounds ledger
      (SigilTemplate.readTag (ledger.below bounds) (ledger.context bounds) start) := by
  apply Reads.enter rfl
  intro room
  apply Reads.bind (Reads.iterate (tagHeadStep_keeps ledger.entered keep room) _)
  intro head
  cases head with
  | malformed nodes stop => exact .change within (.traced _)
  | closed arguments selfClosing after =>
    cases selfClosing with
    | true => exact .change within (.pure _)
    | false =>
      apply Reads.change room
      apply Reads.ledger
      apply Reads.bind (keep.region (ledger.entered.insideTag _) (Nat.le_refl _) room _ after)
      intro body
      apply Reads.change room
      apply Reads.change within
      cases body.stop with
      | closeTag => exact .ledger (.traced _)
      | _ => exact .traced _

/-! ## What an `@` starts -/

theorem readCall_keeps {start arguments brace : Cursor} {name : Fragment} (keep : inner.Keep bounds (ledger.depth + 1))
    (within : ledger.depth ≤ bounds.maxDepth) :
    (readCall bounds inner start name arguments brace).Keeps bounds ledger
      (SigilTemplate.readCall (ledger.below bounds) (ledger.context bounds) start name arguments brace) := by
  apply Reads.enter rfl
  intro room
  rw [Ledger.level_nested]
  apply Reads.bind (readBlock_keeps ledger.entered keep.later room)
  rintro ⟨body, after⟩
  apply Reads.change within
  cases callArguments? arguments with
  | none => exact .bind (.traced _) fun _ => .pure _
  | some arguments => exact .pure _

theorem readFunction_keeps {start c : Cursor} (keep : inner.Keep bounds (ledger.depth + 1))
    (within : ledger.depth ≤ bounds.maxDepth) :
    (readFunction bounds inner start c).Keeps bounds ledger
      (SigilTemplate.readFunction (ledger.below bounds) (ledger.context bounds) start c) := by
  apply Reads.ledger
  rw [SigilTemplate.readFunction, Ledger.below_room]
  cases functionHead (ledger.room bounds) c with
  | ok head => exact .bind (readBlock_keeps ledger keep within) fun _ => .traced _
  | error stop => exact .traced _

theorem readSection_keeps {start c : Cursor} (keep : inner.Keep bounds (ledger.depth + 1))
    (within : ledger.depth ≤ bounds.maxDepth) :
    (readSection bounds inner start c).Keeps bounds ledger
      (SigilTemplate.readSection (ledger.below bounds) (ledger.context bounds) start c) := by
  apply Reads.ledger
  rw [SigilTemplate.readSection, Ledger.below_room]
  split
  · exact .traced _
  · cases sectionHead c with
    | ok head => exact .bind (readBlock_keeps ledger keep within) fun _ => .traced _
    | error stop => exact .traced _

theorem readKeyword_keeps {keyword : Keyword} {start c : Cursor} (keep : inner.Keep bounds (ledger.depth + 1))
    (within : ledger.depth ≤ bounds.maxDepth) :
    (readKeyword bounds inner keyword start c).Keeps bounds ledger
      (SigilTemplate.readKeyword (ledger.below bounds) (ledger.context bounds) keyword start c) := by
  apply Reads.ledger
  cases keyword with
  | ifBlock => exact readConditional_keeps keep within
  | elseBlock => exact readStrayElse_keeps keep within
  | forLoop | whileLoop => exact readLoop_keeps keep within
  | matchOn => exact readMatch_keeps keep within
  | sectionBlock => exact readSection_keeps keep within
  | function => exact readFunction_keeps keep within
  | continueLoop | breakLoop => exact .pure _
  | layout | useFile | includeFile | render | renderBody | childContent | raw => exact .traced _

theorem readNamed_keeps {start : Cursor} {capital : Bool} (keep : inner.Keep bounds (ledger.depth + 1))
    (within : ledger.depth ≤ bounds.maxDepth) :
    (readNamed bounds inner start capital).Keeps bounds ledger
      (SigilTemplate.readNamed (ledger.below bounds) (ledger.context bounds) start capital) := by
  apply Reads.ledger
  rw [SigilTemplate.readNamed, Ledger.below_room]
  cases Keyword.recognize? start.next.rest with
  | some keyword => exact readKeyword_keeps keep within
  | none =>
    simp only
    cases if capital then callHead? (ledger.room bounds) start else none with
    | some head => exact readCall_keeps keep within
    | none => exact .traced _

theorem readSigil_keeps {start : Cursor} (keep : inner.Keep bounds (ledger.depth + 1))
    (within : ledger.depth ≤ bounds.maxDepth) :
    (readSigil bounds inner start).Keeps bounds ledger
      (SigilTemplate.readSigil (ledger.below bounds) (ledger.context bounds) start) := by
  apply Reads.ledger
  rw [SigilTemplate.readSigil, Ledger.below_room]
  cases start.next.peek with
  | none => exact .traced _
  | some ch =>
    simp only
    split
    · exact .traced _
    · split
      · exact .traced _
      · split
        · exact .traced _
        · split
          · exact .traced _
          · split
            · exact readNamed_keeps keep within
            · split
              · exact .traced _
              · exact .traced _

/-! ## Regions -/

theorem readItem_keeps {mode : TextMode} (keep : inner.Keep bounds (ledger.depth + 1))
    (within : ledger.depth ≤ bounds.maxDepth) (state : RegionState) :
    (readItem bounds inner mode state).Keeps bounds ledger
      (SigilTemplate.readItem (ledger.below bounds) (ledger.context bounds) mode state) := by
  unfold readItem SigilTemplate.readItem
  simp only
  split
  · exact .bind (.traced _) fun _ => .pure _
  · split
    · exact .bind (readTag_keeps keep within) fun _ => .pure _
    · split
      · exact .bind (readSigil_keeps keep within) fun _ => .pure _
      · exact .pure _

theorem regionStep_keeps {kind : RegionKind} (keep : inner.Keep bounds (ledger.depth + 1))
    (within : ledger.depth ≤ bounds.maxDepth) (state : RegionState) :
    (regionStep bounds inner kind state).Keeps bounds ledger
      (SigilTemplate.regionStep (ledger.below bounds) (ledger.context bounds) kind state) := by
  unfold regionStep SigilTemplate.regionStep
  cases state.place.peek with
  | none => exact .pure _
  | some ch =>
    simp only
    cases endAt? kind.mode state.text ch with
    | some stop => exact .pure _
    | none =>
      simp only
      split
      · exact .pure _
      · exact .bind (readItem_keeps keep within state) fun _ => .pure _

theorem readRegion_keeps {kind : RegionKind} {c : Cursor} (keep : inner.Keep bounds (ledger.depth + 1))
    (within : ledger.depth ≤ bounds.maxDepth) :
    (readRegion bounds inner kind c).Keeps bounds ledger
      (SigilTemplate.readRegion (ledger.below bounds) (ledger.context bounds) kind c) :=
  .iterate (regionStep_keeps keep within) _

end

end Booked

/-! ## The recursion -/

/-- Readers do what the levels do if those that they stand on do so one level further in. -/
theorem Readers.Keep.above {bounds : Bounds} {depth : Nat} {inner : Readers} (keep : inner.Keep bounds (depth + 1)) :
    (Readers.above bounds inner).Keep bounds depth where
  region ledger deep within kind c := by
    rw [Ledger.level_eq]
    exact Booked.readRegion_keeps (keep.deeper (Nat.succ_le_succ deep)) within
  sigil ledger deep within c := by
    rw [Ledger.level_eq]
    exact Booked.readSigil_keeps (keep.deeper (Nat.succ_le_succ deep)) within
  conditional ledger deep within start c := by
    rw [Ledger.level_eq]
    exact Booked.readConditional_keeps (keep.deeper (Nat.succ_le_succ deep)) within

/-- Readers on enough others never reach the lowest ones: the limit is met before. -/
theorem Readers.stacked_keep {bounds : Bounds} (base : Readers) (layers depth : Nat)
    (enough : bounds.maxDepth < depth + layers) : (base.stacked bounds layers).Keep bounds depth := by
  -- A layer further down starts one level further in, so below the last one no ledger is within the limit.
  induction layers generalizing depth with
  | zero =>
    have nowhere (ledger : Ledger) (deep : depth ≤ ledger.depth) : ¬ledger.depth ≤ bounds.maxDepth := by omega
    exact ⟨fun ledger deep within => absurd within (nowhere ledger deep),
      fun ledger deep within => absurd within (nowhere ledger deep),
      fun ledger deep within => absurd within (nowhere ledger deep)⟩
  | succ layers ih => exact .above (ih (depth + 1) (by omega))

/-! ## Templates -/

/-- Whatever is read from a ledger, the ledger is the same after it. -/
structure Readers.Balanced (bounds : Bounds) (inner : Readers) (ledger : Ledger) : Prop where
  region (kind : RegionKind) (c : Cursor) : (Booked.readRegion bounds inner kind c).Keeps bounds ledger
    (readRegion (ledger.below bounds) (ledger.context bounds) kind c)
  block (role : BlockRole) (brace : Cursor) : (Booked.readBlock bounds inner role brace).Keeps bounds ledger
    (readBlock (ledger.below bounds).nested (ledger.context bounds) role brace)
  sigil (start : Cursor) : (Booked.readSigil bounds inner start).Keeps bounds ledger
    (readSigil (ledger.below bounds) (ledger.context bounds) start)
  tag (start : Cursor) : (Booked.readTag bounds inner start).Keeps bounds ledger
    (readTag (ledger.below bounds) (ledger.context bounds) start)
  conditional (start c : Cursor) : (Booked.readConditional bounds inner start c).Keeps bounds ledger
    (readConditional (ledger.below bounds) (ledger.context bounds) start c)
  loop (keyword : Keyword) (start c : Cursor) : (Booked.readLoop bounds inner keyword start c).Keeps bounds ledger
    (readLoop (ledger.below bounds) (ledger.context bounds) keyword start c)
  matchOn (start c : Cursor) : (Booked.readMatch bounds inner start c).Keeps bounds ledger
    (readMatch (ledger.below bounds) (ledger.context bounds) start c)

theorem Readers.Keep.balanced {bounds : Bounds} {ledger : Ledger} {inner : Readers}
    (keep : inner.Keep bounds (ledger.depth + 1)) (within : ledger.depth ≤ bounds.maxDepth) :
    inner.Balanced bounds ledger where
  region _ _ := Booked.readRegion_keeps keep within
  block _ _ := Booked.readBlock_keeps ledger keep within
  sigil _ := Booked.readSigil_keeps keep within
  tag _ := Booked.readTag_keeps keep within
  conditional _ _ := Booked.readConditional_keeps keep within
  loop _ _ _ := Booked.readLoop_keeps keep within
  matchOn _ _ := Booked.readMatch_keeps keep within

theorem Booked.trace_keeps {options : ReadOptions} {source : List Char} {inner : Readers}
    (keep : inner.Keep (.ofSource options source) 1) :
    (Booked.trace options source inner).Keeps (.ofSource options source) .outermost (Tree.trace options source) := by
  unfold Booked.trace Tree.trace
  rw [Level.withRoom_eq]
  exact .bind (readRegion_keeps keep (Nat.zero_le _)) fun _ => .pure _

/-- The books of a reading balance: from every ledger within the limit each reader comes back to that ledger, with no
depth above the limit on the way, and reads what the levels read. What lies below the layers that the limit allows is
never read. A node of a tree has no more nodes above it than there may be levels. -/
theorem Tree.trace_balanced (options : ReadOptions) (source : List Char) :
    (∀ (base : Readers) (layers : Nat) (ledger : Ledger),
      ledger.depth ≤ options.maxDepth → options.maxDepth ≤ ledger.depth + layers →
        (base.stacked (.ofSource options source) layers).Balanced (.ofSource options source) ledger) ∧
    (∀ (base : Readers) (layers : Nat), options.maxDepth ≤ layers →
      (Booked.trace options source (base.stacked (.ofSource options source) layers)).Keeps (.ofSource options source)
        .outermost (Tree.trace options source)) ∧
    ∀ (tree : Tree) (above : Nat) (node : Node), Tree.read options source = .ok tree → tree.Lies above node →
      above ≤ options.maxDepth := by
  refine ⟨?_, ?_, ?_⟩
  · intro base layers ledger within enough
    have keep : (base.stacked (.ofSource options source) layers).Keep (.ofSource options source) (ledger.depth + 1) :=
      Readers.stacked_keep base layers (ledger.depth + 1) (by simp only [Bounds.ofSource]; omega)
    exact keep.balanced within
  · intro base layers enough
    exact Booked.trace_keeps (Readers.stacked_keep base layers 1 (by simp only [Bounds.ofSource]; omega))
  · intro tree above node read lies
    have recorded := (Tree.trace_records options source).of_outcome tree read
    exact Nat.le_of_lt_succ (lies.lt recorded.layers)

/-- Readers that read nothing. -/
def Readers.refusing : Readers :=
  let refuse : Traced ReadNode := invalidSigil ⟨0, []⟩ ⟨0, []⟩
  ⟨fun _ c => pure ⟨[], .textEnd, c⟩, fun _ => .traced refuse, fun _ _ => .traced refuse⟩

set_option maxRecDepth 4000 in
theorem Tree.trace_balanced_sample :
    let bounds := Bounds.ofSource {} sampleTemplate
    (Readers.refusing.stacked bounds 126).Balanced bounds ⟨2, 1, ["Card"]⟩ ∧
      ∃ tree last, Tree.read {} sampleTemplate = .ok tree ∧ last ≤ 128 ∧
        (Booked.trace {} sampleTemplate (Readers.refusing.stacked bounds 128) ⟨.outermost, 0⟩).outcome =
          .ok (tree, ⟨.outermost, last⟩) ∧
        ∃ node, tree.Lies 1 node ∧ 1 ≤ 128 := by
  obtain ⟨balanced, books, nested⟩ := Tree.trace_balanced {} sampleTemplate
  refine ⟨balanced _ 126 _ (by decide) (by decide), ?_⟩
  have inside : ((Tree.read {} sampleTemplate).toOption.any fun tree => tree.nodes.any fun root => !root.children.isEmpty) =
      true := by decide +kernel
  obtain ⟨tree, read⟩ := Tree.exists_read_sample
  obtain ⟨last, least, run⟩ := (books Readers.refusing 128 (Nat.le_refl _)).run 0 (Nat.zero_le _)
  rw [read] at inside
  obtain ⟨root, among, has⟩ := List.any_eq_true.mp inside
  obtain ⟨child, own⟩ := List.exists_mem_of_ne_nil root.children (by simpa using has)
  have lies : tree.Lies 1 child := .child (.root among) own
  refine ⟨tree, last, read, least, ?_, child, lies, nested tree 1 child read lies⟩
  have outcome : (Tree.trace {} sampleTemplate).outcome = .ok tree := read
  rw [run, outcome]
  rfl

end SigilTemplate
