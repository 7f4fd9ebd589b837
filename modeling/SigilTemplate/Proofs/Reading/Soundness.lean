import SigilTemplate.Proofs.Reading.Tags
import SigilTemplate.Reading.Template

/-!
All that is read is written by the rules. Constructs are read by their first
characters and regions as sequences of constructs and text; each level reads by
the rules as the one below it does, so by induction over the levels all of them
do. What is left is the start of a template, with its header.
-/

namespace SigilTemplate
open Text

section

variable {source : List Char} {context : Context} {below : Below}

/-! ## Constructs by their first characters -/

theorem callHead?_spec {room : Nat} {start arguments brace : Cursor} {name : Fragment}
    (found : callHead? room start = some (name, arguments, brace)) :
    ∃ fragment, start.next.skipIdent.peek = some '(' ∧ Code.enclosed room start.next.skipIdent = .ok fragment ∧
      name = .between start.next start.next.skipIdent ∧ arguments = fragment.inner ∧
      brace = fragment.after.skipBlank ∧ brace.peek = some '{' := by
  simp only [callHead?] at found
  split at found
  · next opens =>
    split at found
    · next fragment ok =>
      split at found
      · next brace_ =>
        simp only [Option.some.injEq, Prod.mk.injEq] at found
        obtain ⟨rfl, rfl, rfl⟩ := found
        exact ⟨fragment, opens, ok, rfl, rfl, rfl, brace_⟩
      · simp at found
    · simp at found
  · simp at found

/-- The block of a call comes behind its name and its arguments. -/
theorem lt_of_callHead? {room : Nat} {start arguments brace : Cursor} {name : Fragment}
    (found : callHead? room start = some (name, arguments, brace)) : start.next < brace := by
  obtain ⟨fragment, opens, ok, _, _, rfl, _⟩ := callHead?_spec found
  calc
    start.next ≤ start.next.skipIdent := Cursor.le_skipIdent _
    _ < fragment.after := Code.lt_of_enclosed opens rfl ok
    _ ≤ fragment.after.skipBlank := Cursor.le_skipBlank _

theorem peek_of_callHead? {room : Nat} {start arguments brace : Cursor} {name : Fragment}
    (found : callHead? room start = some (name, arguments, brace)) : brace.peek = some '{' := by
  obtain ⟨_, _, _, _, _, _, opens⟩ := callHead?_spec found
  exact opens

theorem readCall_yields {start arguments brace : Cursor} {name : Fragment} (sound : below.Sound source)
    (size : context.size = byteLength source) (place : Cursor.ofText source ≤ start) (sigil : start.atSigil = true)
    (found : callHead? below.room start = some (name, arguments, brace)) :
    (readCall below context start name arguments brace).Yields source (GrownFrom source start) := by
  obtain ⟨fragment, opens, ok, rfl, rfl, rfl, brace⟩ := callHead?_spec found
  have reached := (Cursor.le_next start).trans_lt (lt_of_callHead? found)
  have here := place.trans reached.le
  apply Traced.Yields.bind (sound.enter here)
  intro level holds
  apply Traced.Yields.bind (readBlock_yields holds.nested size here brace)
  rintro ⟨body, after⟩ ⟨block, grown⟩
  obtain ⟨lt, order⟩ := block.inOrder
  dsimp only
  split
  · next arguments entries =>
    refine .pure ⟨.call sigil opens ok entries block, ?_⟩
    simpa [Node.children, Node.form, Form.children, callArguments?_nodes entries] using grown
  · exact .giveUp (reached.trans lt) (order.widen reached.le (le_refl after)) grown

theorem readRaw_yields {start c : Cursor} (size : context.size = byteLength source)
    (place : Cursor.ofText source ≤ start) (sigil : start.peek = some '@') (opens : Opens .raw start c) :
    (readRaw context start c).Yields source (GrownFrom source start) := by
  have reached : start < c.skipBlank := opens.lt.trans_le (Cursor.le_skipBlank c)
  simp only [readRaw]
  split
  · next brace =>
    split
    · next close closes =>
      exact .leaf (.directive opens (.raw brace closes)) rfl
    · next unclosed =>
      simp only [spanTo_next brace (by decide), size]
      exact .fail (.rawBlock (place.trans reached.le) (Cursor.reads_next_of_peek brace) unclosed)
  · exact malformedDirective_yields sigil reached

theorem readFunction_yields {start c : Cursor} (sound : below.Sound source) (size : context.size = byteLength source)
    (place : Cursor.ofText source ≤ start) (sigil : start.peek = some '@') (opens : Opens .function start c) :
    (readFunction below context start c).Yields source (GrownFrom source start) := by
  have onward := onward_functionHead below.room c
  unfold readFunction
  split
  · next name parameters brace head =>
    obtain ⟨later, _, brace_⟩ := onward.of_ok head
    apply Traced.Yields.bind (readBlock_yields sound.nested size (place.trans (opens.lt.le.trans later)) brace_)
    rintro ⟨body, after⟩ ⟨block, grown⟩
    exact .pure ⟨.directive opens (.function head block), grown⟩
  · next stop head =>
    rw [head] at onward
    exact malformedDirective_yields sigil (opens.lt.trans_le onward)

theorem readSection_yields {start c : Cursor} (sound : below.Sound source) (size : context.size = byteLength source)
    (place : Cursor.ofText source ≤ start) (sigil : start.peek = some '@') (opens : Opens .sectionBlock start c) :
    (readSection below context start c).Yields source (GrownFrom source start) := by
  unfold readSection
  split
  · next paren =>
    unfold readSectionValue
    split
    · next arguments ok =>
      split
      · next directive value =>
        have flat := sectionValue?_flat (Code.enclosed_inner_partOf paren rfl ok) value
        rw [← flat.keyword_eq] at opens
        exact .leaf (.directive opens (.sectionValue paren ok value)) flat.leaf
      · exact malformedDirective_yields sigil (opens.lt.trans (Code.lt_of_enclosed paren rfl ok))
    · next refusal refused =>
      exact refusedFragment_yields size place opens.lt (refusedFrom_of_enclosed paren rfl refused)
  · have onward := onward_sectionHead c
    split
    · next name brace head =>
      obtain ⟨later, _, brace_⟩ := onward.of_ok head
      apply Traced.Yields.bind (readBlock_yields sound.nested size (place.trans (opens.lt.le.trans later)) brace_)
      rintro ⟨body, after⟩ ⟨block, grown⟩
      exact .pure ⟨.directive opens (.sectionBlock head block), grown⟩
    · next stop head =>
      rw [head] at onward
      exact malformedDirective_yields sigil (opens.lt.trans_le onward)

theorem readKeyword_yields {keyword : Keyword} {start c : Cursor} (sound : below.Sound source)
    (size : context.size = byteLength source) (place : Cursor.ofText source ≤ start) (sigil : start.peek = some '@')
    (opens : Opens keyword start c) :
    (readKeyword below context keyword start c).Yields source (GrownFrom source start) := by
  cases keyword with
  | ifBlock => exact readConditional_yields sound size place opens
  | elseBlock => exact readStrayElse_yields sound size place opens.lt
  | forLoop => exact readLoop_yields sound size place opens (.inl rfl)
  | whileLoop => exact readLoop_yields sound size place opens (.inr rfl)
  | matchOn => exact readMatch_yields sound size place opens
  | continueLoop => exact .leaf (.statement opens .continueLoop) rfl
  | breakLoop => exact .leaf (.statement opens .breakLoop) rfl
  | layout => exact settleDirective_yields sigil opens (onward_layoutDirective c) fun _ _ => .layout
  | useFile => exact settleDirective_yields sigil opens (onward_useDirective c) fun _ _ => .useFile
  | includeFile => exact settleDirective_yields sigil opens (onward_includeFile c) fun _ _ => .includeFile
  | render => exact settleDirective_yields sigil opens (onward_render c) fun _ _ => .render
  | renderBody => exact settleDirective_yields sigil opens (onward_renderBody c) fun _ _ => .renderBody
  | childContent => exact settleDirective_yields sigil opens (onward_childContent c) fun _ _ => .childContent
  | sectionBlock => exact readSection_yields sound size place sigil opens
  | raw => exact readRaw_yields size place sigil opens
  | function => exact readFunction_yields sound size place sigil opens

theorem readNamed_yields {start : Cursor} {capital : Bool} (sound : below.Sound source)
    (size : context.size = byteLength source) (place : Cursor.ofText source ≤ start) (sigil : start.atSigil = true) :
    (readNamed below context start capital).Yields source (GrownFrom source start) := by
  have head := Cursor.peek_of_atSigil sigil
  unfold readNamed
  split
  · next keyword word => exact readKeyword_yields sound size place head (.sigil sigil word)
  · split
    · next name arguments brace found =>
      split at found
      · exact readCall_yields sound size place sigil found
      · simp at found
    · exact readSimpleExpression_yields size place (Cursor.reads_next_of_peek head)

theorem readSigil_yields {start : Cursor} (sound : below.Sound source) (size : context.size = byteLength source)
    (place : Cursor.ofText source ≤ start) (sigil : start.atSigil = true) :
    (readSigil below context start).Yields source (GrownFrom source start) := by
  have head := Cursor.peek_of_atSigil sigil
  have single : SigilTo false start start.next := Cursor.reads_next_of_peek head
  unfold readSigil
  split
  · exact invalidSigil_yields single.lt
  · next ch mark =>
    by_cases star : ch = '*'
    · rw [if_pos star]
      exact readComment_yields size place head (star ▸ mark)
    rw [if_neg star]
    by_cases brace : ch = '{'
    · rw [if_pos brace]
      subst brace
      exact readEnclosed_yields size place single.lt mark rfl (fun _ => rfl) fun _ ok => .codeBlock single mark ok
    rw [if_neg brace]
    by_cases paren : ch = '('
    · rw [if_pos paren]
      exact readParenExpression_yields size place single (paren ▸ mark)
    rw [if_neg paren]
    by_cases hash : ch = '#'
    · rw [if_pos hash]
      exact readRawOutput_yields size place head (hash ▸ mark)
    rw [if_neg hash]
    split
    · exact readNamed_yields sound size place sigil
    · split
      · exact readSimpleExpression_yields size place single
      · exact invalidSigil_yields single.lt

/-! ## Regions -/

theorem readStrayClose_yields {c : Cursor} (closes : c.atTagClose = true) :
    (readStrayClose c).Yields source (GrownFrom source c) :=
  .giveUp (lt_readCloseTag closes) (.nil (lt_readCloseTag closes).le) (by simp)

/-- The nodes of a region before a place have been read by the rules. -/
def RegionState.Grown (source : List Char) (mode : TextMode) (c : Cursor) (state : RegionState) : Prop :=
  Items mode c state.nodes.reverse state.text state.place ∧ ∀ node ∈ state.nodes, SigilTemplate.Grown source node

/-- After a construct, the region before it has one more node. -/
theorem RegionState.Grown.push {mode : TextMode} {c : Cursor} {state : RegionState} {read : ReadNode}
    (grown : state.Grown source mode c) (place : Cursor.ofText source ≤ c) (atConstruct : state.place.AtConstruct)
    (node : GrownFrom source state.place read) :
    (state.push read).Grown source mode c ∧ state.place < (state.push read).place := by
  have more : Items mode c (state.nodes.reverse ++ [read.1]) state.text read.2 :=
    .construct grown.1 atConstruct node.lt node.1.inOrder.2.1 node.1.form_ne_text
  refine ⟨⟨by simpa [RegionState.push] using more, ?_⟩, node.lt⟩
  simp only [RegionState.push, List.forall_mem_cons]
  exact ⟨node.grown (place.trans grown.1.inOrder.le), grown.2⟩

/-- After a run of text, the region before it has one more node. -/
theorem RegionState.Grown.text {mode : TextMode} {c : Cursor} {state : RegionState} (grown : state.Grown source mode c)
    (place : Cursor.ofText source ≤ c) (atText : AtText mode state.text state.place) :
    let run := textRun mode state.text state.place
    RegionState.Grown source mode c
        ⟨⟨.text (String.ofList run.content), state.place.spanTo run.after⟩ :: state.nodes, run.state, run.after⟩ ∧
      state.place < run.after := by
  have lt := lt_textRun_of_atText atText
  have reads := reads_textRun mode state.text state.place
  refine ⟨⟨by simpa using grown.1.text atText, ?_⟩, lt⟩
  simp only [List.forall_mem_cons]
  exact ⟨.text (place.trans grown.1.inOrder.le) lt (by simpa using reads), grown.2⟩

theorem readItem_yields {mode : TextMode} {c : Cursor} {state : RegionState} (sound : below.Sound source)
    (size : context.size = byteLength source) (place : Cursor.ofText source ≤ c) (grown : state.Grown source mode c)
    (goesOn : ∃ ch, state.place.peek = some ch ∧ endAt? mode state.text ch = none) :
    (readItem below context mode state).Yields source
      fun next => next.Grown source mode c ∧ state.place < next.place := by
  have here := place.trans grown.1.inOrder.le
  simp only [readItem]
  by_cases closes : state.place.atTagClose = true
  · rw [if_pos closes]
    exact .bind (readStrayClose_yields closes) fun read node => .pure (grown.push place (.inl closes) node)
  rw [if_neg closes]
  by_cases opens : state.place.atTagOpen = true
  · rw [if_pos opens]
    exact .bind (readTag_yields sound size here opens) fun read node =>
      .pure (grown.push place (.inr (.inl opens)) node)
  rw [if_neg opens]
  by_cases sigil : state.place.atSigil = true
  · rw [if_pos sigil]
    exact .bind (readSigil_yields sound size here sigil) fun read node =>
      .pure (grown.push place (.inr (.inr sigil)) node)
  rw [if_neg sigil]
  have atText : AtText mode state.text state.place := ⟨by simp [Cursor.AtConstruct, closes, opens, sigil], goesOn⟩
  exact .pure (grown.text place atText)

theorem regionStep_advances {kind : RegionKind} {c : Cursor} (sound : below.Sound source)
    (size : context.size = byteLength source) (place : Cursor.ofText source ≤ c) :
    Traced.Advances source context.size (·.place.pos) (RegionState.Grown source kind.mode c)
      (Region.GrownFrom source kind c) (regionStep below context kind) := by
  intro state grown
  have all : ∀ node ∈ state.nodes.reverse, Grown source node := fun node member =>
    grown.2 node (List.mem_reverse.mp member)
  unfold regionStep
  split
  · next ends => exact .pure ⟨⟨state.text, grown.1, .textEnd (Cursor.peek_eq_none.mp ends)⟩, all⟩
  · next ch head =>
    split
    · next stop ends => exact .pure ⟨⟨state.text, grown.1, .marked head ends⟩, all⟩
    · next goesOn =>
      by_cases closes : state.place.atTagClose = true ∧ kind.isTagBody = true
      · rw [if_pos (by simp [closes])]
        exact .pure ⟨⟨state.text, grown.1, .closeTag closes.1 closes.2⟩, all⟩
      · rw [if_neg (by simpa using closes)]
        apply Traced.Yields.bind (readItem_yields sound size place grown ⟨ch, head, goesOn⟩)
        rintro next ⟨further, lt⟩
        have within := Cursor.pos_le_size (place.trans further.1.inOrder.le)
        exact .pure ⟨further, Cursor.pos_lt lt, size ▸ within⟩

theorem regionStep_movesOn {kind : RegionKind} {c : Cursor} (sound : below.Sound source)
    (size : context.size = byteLength source) (place : Cursor.ofText source ≤ c) :
    Traced.MovesOn context.size (·.place.pos) (regionStep below context kind) ⟨[], {}, c⟩ :=
  (regionStep_advances sound size place).movesOn ⟨.start, by simp⟩

theorem readRegion_yields (sound : below.Sound source) : ReadsRegions source (readRegion below) :=
  fun _ _ _ size place => .iterate (regionStep_advances sound size place) ⟨.start, by simp⟩

/-! ## Levels and whole templates -/

theorem Below.Sound.above (sound : below.Sound source) : (Level.above below).Sound source where
  region := readRegion_yields sound
  nested := sound.nested
  sigil _ _ size place sigil := readSigil_yields sound size place sigil
  conditional _ _ _ size place opens := readConditional_yields sound size place opens

theorem Level.withRoom_sound (source : List Char) (room : Nat) : (Level.withRoom room).Sound source := by
  induction room with
  | zero => exact Below.Sound.above (by simp [Below.Sound])
  | succ room ih =>
    apply Below.Sound.above
    rintro level ⟨⟩
    exact ih

end

/-- What stands before the region of a template: nothing, or a header after white space. -/
inductive Leading (c : Cursor) : List Node → Cursor → Prop
  | nothing : Leading c [] c
  | header {list : List Parameter} {span : Span} {after : Cursor}
      (spells : Spells c.skipBlank ⟨.parameters list, span⟩ after) :
      Leading c (leadingText c c.skipBlank ++ [⟨.parameters list, span⟩]) after

/-- A tree that has been read of a source: from the place where its content starts to the end. -/
structure Tree.Grown (source : List Char) (tree : Tree) : Prop where
  source_eq : tree.source = source
  contentStart_eq : tree.contentStart = (contentCursor source).pos
  nodes_eq : ∃ leading nodes c state d, tree.nodes = leading ++ nodes ∧ Leading (contentCursor source) leading c ∧
    Items .free c nodes state d ∧ d.rest = []
  grown : ∀ node ∈ tree.nodes, SigilTemplate.Grown source node

theorem ofText_le_contentCursor (source : List Char) : Cursor.ofText source ≤ contentCursor source :=
  Cursor.le_getD_eat? byteOrderMark _

/-- White space before a header is read as it is written. -/
theorem leadingText_grown {source : List Char} {c : Cursor} (place : Cursor.ofText source ≤ c) :
    ∀ node ∈ leadingText c c.skipBlank, Grown source node := by
  intro node member
  unfold leadingText at member
  split at member
  · next gap =>
    obtain rfl := List.mem_singleton.mp member
    have reads := Cursor.reads_skipWhile isBlank c
    have plain : escape (c.rest.takeWhile isBlank) = c.rest.takeWhile isBlank :=
      escape_eq_self fun ch among => ne_sigil_of_isBlank (List.all_eq_true.mp List.all_takeWhile ch among)
    refine .text place (Cursor.lt_of_pos_lt (Cursor.le_skipBlank c) gap) ?_
    rw [String.toList_ofList]
    have content : c.textTo c.skipBlank = c.rest.takeWhile isBlank := reads.textTo_eq
    rw [content, plain]
    exact reads
  · simp at member

theorem readHeader?_spec {maxDepth : Nat} {c after : Cursor} {nodes : List Node}
    (found : readHeader? maxDepth c = some (nodes, after)) : Leading c nodes after := by
  unfold readHeader? at found
  obtain ⟨sigil, here, rest⟩ := Option.bind_eq_some_iff.mp found
  split at rest
  · simp at rest
  · next opens =>
    split at rest
    · simp at rest
    · next fragment ok =>
      obtain ⟨list, entries, rest⟩ := Option.bind_eq_some_iff.mp rest
      obtain ⟨last, ends, rest⟩ := Option.bind_eq_some_iff.mp rest
      obtain ⟨rfl, rfl⟩ := Prod.mk.inj (Option.some.inj rest)
      exact .header (.parameters (Cursor.reads_eat? here) (Decidable.not_not.mp opens) ok entries ends)

theorem Leading.grown {source : List Char} {c d : Cursor} {nodes : List Node} (leading : Leading c nodes d)
    (place : Cursor.ofText source ≤ c) : c ≤ d ∧ ∀ node ∈ nodes, Grown source node := by
  cases leading with
  | nothing => exact ⟨le_refl c, by simp⟩
  | header spells =>
    refine ⟨(Cursor.le_skipBlank c).trans spells.inOrder.1.le, ?_⟩
    refine List.forall_mem_append.mpr ⟨leadingText_grown place, ?_⟩
    intro node member
    obtain rfl := List.mem_singleton.mp member
    exact .construct (place.trans (Cursor.le_skipBlank c)) spells (by simp [Node.children, Node.form, Form.children])

/-- The region around everything ends with the text. -/
theorem EndsAt.topLevel {state : TextState} {c : Cursor} {stop : RegionEnd} (ends : EndsAt .topLevel state c stop) :
    c.rest = [] := by
  cases ends with
  | textEnd empty => exact empty
  | marked _ ends => simp [endAt?, RegionKind.mode] at ends
  | closeTag _ tag => simp [RegionKind.isTagBody] at tag

/-- What surrounds a whole template. -/
def Context.outermost (options : ReadOptions) (source : List Char) : Context :=
  { size := byteLength source, maxDepth := options.maxDepth, openTags := [], braced := false }

theorem leading_getD (options : ReadOptions) (c : Cursor) :
    let read := (if options.header then readHeader? options.maxDepth c else none).getD ([], c)
    Leading c read.1 read.2 := by
  cases found : if options.header then readHeader? options.maxDepth c else none with
  | none =>
    simp only [Option.getD_none]
    exact .nothing
  | some header =>
    simp only [Option.getD_some]
    split at found
    · exact readHeader?_spec found
    · simp at found

/-- Reading a template is reading what stands before its region, and then the region. -/
theorem Tree.exists_trace_eq (options : ReadOptions) (source : List Char) :
    ∃ leading c, Leading (contentCursor source) leading c ∧
      Tree.trace options source =
        (Level.withRoom options.maxDepth).region (.outermost options source) .topLevel c >>= fun region =>
          pure ⟨leading ++ region.nodes, source, (contentCursor source).pos⟩ :=
  ⟨_, _, leading_getD options (contentCursor source), rfl⟩

theorem Tree.trace_yields (options : ReadOptions) (source : List Char) :
    (Tree.trace options source).Yields source (Tree.Grown source) := by
  obtain ⟨nodes, c, leading, same⟩ := Tree.exists_trace_eq options source
  have start := ofText_le_contentCursor source
  obtain ⟨later, header⟩ := leading.grown start
  rw [same]
  apply Traced.Yields.bind ((Level.withRoom_sound source options.maxDepth).region _ .topLevel c rfl (start.trans later))
  rintro region ⟨⟨state, items, ends⟩, below⟩
  exact .pure ⟨rfl, rfl, ⟨nodes, region.nodes, c, state, region.after, rfl, leading, items, ends.topLevel⟩,
    List.forall_mem_append.mpr ⟨header, below⟩⟩

/-- The tree that is read of a source is written by the rules. -/
theorem Tree.read_grown {options : ReadOptions} {source : List Char} {tree : Tree}
    (read : Tree.read options source = .ok tree) : tree.Grown source :=
  (Tree.trace_yields options source).of_outcome read

/-- The fault that ends a reading names spans of the source. -/
theorem Tree.read_fault_within {options : ReadOptions} {source : List Char} {fault : Fault}
    (read : Tree.read options source = .error fault) : fault.Within source :=
  ((Tree.trace_yields options source).of_fault read).within

/-- A template with a byte order mark, a header, nested constructs, text beyond ASCII and three malformed constructs. -/
def sampleTemplate : List Char :=
  ("\ufeff@(n: u8);<ul>@for i in 0..n { <li>@i</li> }</ul>@* c *@<Card a=\"1\">@@é</Crad>" ++
    "@match n { 1 => @@a , _ => { t } }@if { x } else @ y").toList

set_option maxRecDepth 4000 in
theorem Tree.exists_read_sample : ∃ tree, Tree.read {} sampleTemplate = .ok tree := by
  have ok : (Tree.read {} sampleTemplate).isOk = true := by decide +kernel
  cases read : Tree.read {} sampleTemplate with
  | ok tree => exact ⟨tree, rfl⟩
  | error fault => simp [read, Except.isOk, Except.toBool] at ok

end SigilTemplate
