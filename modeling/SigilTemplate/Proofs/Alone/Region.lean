import SigilTemplate.Proofs.Alone.Run
import SigilTemplate.Proofs.Alone.Sigil
import SigilTemplate.Proofs.Reading.Progress
import SigilTemplate.Proofs.Reading.Round

/-!
Regions of a stretch, read alone. The two readings go round by round. A run of
text could go on differently alone in two ways. Where a tag follows it in the
larger text, that tag is a construct of the region or ends it, and so belongs to
the stretch. And where a string is still open when the stretch is over, nothing
ends the region any more: such a region does not end inside the stretch.
-/

namespace SigilTemplate
open Text

variable {source part : List Char} {s : Surroundings} {context : Context} {below : Below} {kind : RegionKind}
  {c d e : Cursor} {region : Region} {state next : RegionState} {node : Node}

/-! ## Rounds that give nothing up -/

/-- A construct is read at a place, and nothing is given up in it. -/
inductive ReadsConstruct (below : Below) (context : Context) (c : Cursor) (read : ReadNode) : Prop
  | tag (opens : c.atTagOpen = true) (reads : readTag below context c = pure read)
  | sigil (sigil : c.atSigil = true) (reads : readSigil below context c = pure read)

/-- A closing tag without an open one is always given up. -/
theorem readStrayClose_ne_pure {read : ReadNode} : readStrayClose c ≠ pure read := Traced.recover_bind_ne_pure

/-- A round goes on with a run of text or with a construct. -/
theorem regionStep_eq_next_iff : regionStep below context kind state = pure (.inl next) ↔
    (AtText kind.mode state.text state.place ∧ next = state.afterText kind.mode) ∨
      ∃ read, ReadsConstruct below context state.place read ∧ next = state.push read := by
  have pushes {x : Traced ReadNode} (clean : (x >>= fun read => pure (Sum.inl (state.push read))) =
      (pure (.inl next) : Traced (RegionState ⊕ Region))) : ∃ read, x = pure read ∧ next = state.push read := by
    obtain ⟨read, reads, rest⟩ := Traced.exists_of_bind_eq_pure clean
    exact ⟨read, reads, (Sum.inl.inj (Traced.pure_inj.mp rest)).symm⟩
  constructor
  · intro goesOn
    rcases state.round kind with ⟨stop, ends⟩ | ⟨closes, body⟩ | opens | sigil | atText
    · rw [regionStep_of_endsAt ends] at goesOn
      exact absurd (Traced.pure_inj.mp goesOn) (by simp)
    · rw [regionStep_strayClose closes body] at goesOn
      obtain ⟨read, reads, _⟩ := pushes goesOn
      exact absurd reads readStrayClose_ne_pure
    · rw [regionStep_tagOpen opens] at goesOn
      obtain ⟨read, reads, same⟩ := pushes goesOn
      exact .inr ⟨read, .tag opens reads, same⟩
    · rw [regionStep_sigil sigil] at goesOn
      obtain ⟨read, reads, same⟩ := pushes goesOn
      exact .inr ⟨read, .sigil sigil reads, same⟩
    · rw [regionStep_text atText] at goesOn
      exact .inl ⟨atText, (Sum.inl.inj (Traced.pure_inj.mp goesOn)).symm⟩
  · rintro (⟨atText, rfl⟩ | ⟨read, ⟨opens, reads⟩ | ⟨sigil, reads⟩, rfl⟩)
    · exact regionStep_text atText
    · rw [regionStep_tagOpen opens, reads, Traced.pure_bind]
    · rw [regionStep_sigil sigil, reads, Traced.pure_bind]

/-- A round ends the region where that ends. -/
theorem regionStep_eq_stop_iff : regionStep below context kind state = pure (.inr region) ↔
    ∃ stop, EndsAt kind state.text state.place stop ∧ region = state.stop stop := by
  have goesOn {x : Traced ReadNode} : (x >>= fun read => pure (Sum.inl (state.push read))) ≠
      (pure (.inr region) : Traced (RegionState ⊕ Region)) := by
    intro clean
    obtain ⟨read, _, rest⟩ := Traced.exists_of_bind_eq_pure clean
    exact absurd (Traced.pure_inj.mp rest) (by simp)
  constructor
  · intro clean
    rcases state.round kind with ⟨stop, ends⟩ | ⟨closes, body⟩ | opens | sigil | atText
    · rw [regionStep_of_endsAt ends] at clean
      exact ⟨stop, ends, (Sum.inr.inj (Traced.pure_inj.mp clean)).symm⟩
    · rw [regionStep_strayClose closes body] at clean
      exact absurd clean goesOn
    · rw [regionStep_tagOpen opens] at clean
      exact absurd clean goesOn
    · rw [regionStep_sigil sigil] at clean
      exact absurd clean goesOn
    · rw [regionStep_text atText] at clean
      exact absurd (Traced.pure_inj.mp clean) (by simp)
  · rintro ⟨stop, ends, rfl⟩
    exact regionStep_of_endsAt ends

/-! ## Constructs -/

theorem ReadsConstruct.solid {read : ReadNode} (reads : ReadsConstruct below context c read) (sound : below.Sound source)
    (recording : below.Recording) (size : context.size = byteLength source) (place : Cursor.ofText source ≤ c) :
    Solid c read.2 := by
  cases reads with
  | tag opens reads => exact readTag_solid sound recording size place opens reads
  | sigil sigil reads => exact readSigil_solid sound recording size place sigil reads

theorem Solid.lt (solid : Solid c d) : c < d := (Cursor.le_next c).trans_lt solid.next_lt

theorem ReadsConstruct.alone (stands : StandsIn part source s) (alone : below.ReadsAlone source part s)
    (recording : below.Recording) (size : context.size = byteLength source) (place : Cursor.ofText part ≤ c)
    (reads : ReadsConstruct below context (c.amid s) (node, e.amid s)) :
    ∃ own, node = own.mapOffsets (s.before + ·) ∧ ReadsConstruct below (context.sized (byteLength part)) c (own, e) := by
  have solid := reads.solid alone.amid recording size (stands.place place)
  have lt := Cursor.amid_lt_amid.mp solid.lt
  have further := solid.next_lt
  rw [Cursor.next_amid (Cursor.ne_nil_of_lt lt), Cursor.amid_lt_amid] at further
  cases reads with
  | tag opens reads =>
    obtain ⟨own, same, readsAlone⟩ := readTag_alone stands alone size place opens _ _ reads
    exact ⟨own, same, .tag (Cursor.atTagOpen_of_amid lt further opens) readsAlone⟩
  | sigil sigil reads =>
    obtain ⟨own, same, readsAlone⟩ := readSigil_alone stands alone recording size place sigil _ _ reads
    exact ⟨own, same, .sigil (Cursor.atSigil_of_amid lt sigil) readsAlone⟩

/-! ## All rounds -/

theorem readRegion_eq_pure_iff (sound : below.Sound source) (size : context.size = byteLength source)
    (place : Cursor.ofText source ≤ c) :
    readRegion below context kind c = pure region ↔
      Traced.Answers (regionStep below context kind) region ⟨[], {}, c⟩ :=
  (regionStep_movesOn sound size place).iterate_eq_pure_iff _

section

variable (sound : below.Sound source) (recording : below.Recording) (size : context.size = byteLength source)

include sound recording size

theorem lt_of_regionStep (place : Cursor.ofText source ≤ state.place)
    (goesOn : regionStep below context kind state = pure (.inl next)) : state.place < next.place := by
  rcases regionStep_eq_next_iff.mp goesOn with ⟨atText, rfl⟩ | ⟨read, reads, rfl⟩
  · exact lt_textRun_of_atText atText
  · exact (reads.solid sound recording size place).lt

theorem le_of_regionAnswers (answers : Traced.Answers (regionStep below context kind) region state)
    (place : Cursor.ofText source ≤ state.place) : state.place ≤ region.after := by
  induction answers with
  | last ends =>
    obtain ⟨stop, _, rfl⟩ := regionStep_eq_stop_iff.mp ends
    exact le_refl _
  | next goesOn _ ih =>
    have lt := lt_of_regionStep sound recording size place goesOn
    exact lt.le.trans (ih (place.trans lt.le))

end

theorem EndsInside.rest_ne_nil {stop : RegionEnd} (inside : EndsInside stop c) : c.rest ≠ [] := by
  cases stop with
  | closeBrace | comma => exact inside
  | closeTag =>
    obtain ⟨rest, starts⟩ := Cursor.peek_eq_some.mp (Cursor.peek_of_atTagClose inside)
    simp [starts]
  | textEnd | unbalanced => exact inside.elim

theorem EndsAt.of_amid {text : TextState} {stop : RegionEnd} (ends : EndsAt kind text (c.amid s) stop)
    (inside : EndsInside stop c) : EndsAt kind text c stop := by
  cases ends with
  | textEnd => exact inside.elim
  | marked head ends => exact .marked (by rwa [Cursor.peek_amid inside.rest_ne_nil] at head) ends
  | closeTag _ tag => exact .closeTag inside tag

/-- A tag after a run is one alone: it is read, or it ends the region. -/
theorem atTag_of_regionAnswers (sound : below.Sound source) (recording : below.Recording)
    (size : context.size = byteLength source) (place : Cursor.ofText source ≤ state.place)
    (answers : Traced.Answers (regionStep below context kind) region state) (after : region.after = e.amid s)
    (inside : EndsInside region.stop e) (same : state.place = c.amid s) (tag : state.place.AtTag) : c.AtTag := by
  cases answers with
  | last ends =>
    obtain ⟨stop, stops, rfl⟩ := regionStep_eq_stop_iff.mp ends
    obtain rfl := Cursor.amid_inj.mp (same.symm.trans after)
    cases stops with
    | textEnd => exact inside.elim
    | closeTag => exact .inr inside
    | marked head ends =>
      have angle : state.place.peek = some '<' := tag.elim Cursor.peek_of_atTagOpen Cursor.peek_of_atTagClose
      obtain rfl := Option.some.inj (head.symm.trans angle)
      rw [endAt?_eq_none (by decide) (by decide)] at ends
      simp at ends
  | next goesOn onward =>
    rcases regionStep_eq_next_iff.mp goesOn with ⟨atText, _⟩ | ⟨read, reads, rfl⟩
    · exact absurd (tag.elim (fun opens => .inr (.inl opens)) .inl) atText.1
    · have solid := reads.solid sound recording size place
      have before := le_of_regionAnswers sound recording size onward (place.trans solid.lt.le)
      have further := solid.next_lt.trans_le (before.trans (le_of_eq after))
      have lt := (Cursor.le_next _).trans_lt further
      rw [same] at further lt
      have more := Cursor.ne_nil_of_lt (Cursor.amid_lt_amid.mp lt)
      rw [Cursor.next_amid more, Cursor.amid_lt_amid] at further
      cases reads with
      | tag opens reads => exact .inl (Cursor.atTagOpen_of_amid (Cursor.amid_lt_amid.mp lt) further (same ▸ opens))
      | sigil sigil reads =>
        have angle : state.place.peek = some '<' := tag.elim Cursor.peek_of_atTagOpen Cursor.peek_of_atTagClose
        have at_ := Cursor.peek_of_atSigil sigil
        simp [angle] at at_

/-- A region in which a string is open when the stretch is over does not end inside. -/
theorem not_endsInside_of_lost (sound : below.Sound source) (recording : below.Recording)
    (size : context.size = byteLength source) (answers : Traced.Answers (regionStep below context kind) region state)
    (place : Cursor.ofText source ≤ state.place) (lost : Lost kind.mode s state.text state.place)
    (after : region.after = e.amid s) : ¬EndsInside region.stop e := by
  induction answers with
  | @last state ends =>
    obtain ⟨stop, stops, rfl⟩ := regionStep_eq_stop_iff.mp ends
    obtain ⟨arm, inString, _⟩ := lost
    cases stops with
    | textEnd => exact fun inside => inside
    | marked _ ends => simp [endAt?, inString] at ends
    | closeTag _ tag =>
      cases kind with
      | tagBody inBraces => cases inBraces <;> simp [RegionKind.mode] at arm
      | topLevel | braced | arm => simp [RegionKind.isTagBody] at tag
  | @next state next goesOn onward ih =>
    have lt := lt_of_regionStep sound recording size place goesOn
    have further := place.trans lt.le
    have within : s.after.length ≤ next.place.rest.length := by
      have short := Cursor.length_le (le_of_regionAnswers sound recording size onward further)
      rw [after, Cursor.amid_rest, List.length_append] at short
      omega
    apply ih further
    obtain ⟨arm, inString, rest, starts, quiet⟩ := lost
    rcases regionStep_eq_next_iff.mp goesOn with ⟨_, rfl⟩ | ⟨read, reads, rfl⟩
    · simp only [RegionState.afterText, textRun, starts] at within ⊢
      obtain ⟨stays, onward⟩ := quiet.of_textRunFrom inString within
      exact ⟨arm, by rw [stays, inString], onward⟩
    · refine ⟨arm, inString, ?_⟩
      obtain ⟨text, between, plain⟩ := (reads.solid sound recording size place).plain
      obtain ⟨more, split, same⟩ := Code.exists_append_of_length_le text (between.rest_eq.symm.trans starts).symm within
      exact ⟨more, same, Quiet.of_append (split ▸ quiet) plain⟩

/-! ## Regions -/

/-- A region has been read so far as the stretch alone would have been, with other offsets. -/
structure RegionState.AsAlone (part : List Char) (s : Surroundings) (state own : RegionState) : Prop where
  nodes : state.nodes = own.nodes.map (Node.mapOffsets (s.before + ·))
  text : state.text = own.text
  place : state.place = own.place.amid s
  inside : Cursor.ofText part ≤ own.place

section

variable {own : RegionState} (alike : state.AsAlone part s own) (after : region.after = e.amid s)
  (inside : EndsInside region.stop e)

include alike after inside

/-- A run of text that a region goes on from is the run of the stretch alone. -/
theorem textRun_amid (sound : below.Sound source) (recording : below.Recording)
    (size : context.size = byteLength source) (place : Cursor.ofText source ≤ (state.afterText kind.mode).place)
    (answers : Traced.Answers (regionStep below context kind) region (state.afterText kind.mode)) :
    textRun kind.mode state.text state.place =
      ⟨(textRun kind.mode own.text own.place).content, (textRun kind.mode own.text own.place).state,
        (textRun kind.mode own.text own.place).after.amid s⟩ := by
  obtain ⟨_, text, same, _⟩ := alike
  have within : s.after.length ≤ (textRun kind.mode own.text (own.place.amid s)).after.rest.length := by
    have short := Cursor.length_le (le_of_regionAnswers sound recording size answers place)
    rw [after, Cursor.amid_rest, List.length_append] at short
    simp only [RegionState.afterText, text, same] at short
    omega
  have marks (d : Cursor) (here : (textRun kind.mode own.text (own.place.amid s)).after = d.amid s)
      (tag : (d.amid s).AtTag) : d.AtTag := by
    have at_ : (state.afterText kind.mode).place = d.amid s := by rw [← here, ← text, ← same]; rfl
    exact atTag_of_regionAnswers sound recording size place answers after inside at_ (at_ ▸ tag)
  rcases textRunFrom_amid within marks with alone | lost
  · rw [text, same]
    exact alone
  · rw [RegionState.afterText, text, same] at answers place
    exact absurd inside (not_endsInside_of_lost sound recording size answers place lost after)

theorem afterText_alone (sound : below.Sound source) (recording : below.Recording)
    (size : context.size = byteLength source) (place : Cursor.ofText source ≤ (state.afterText kind.mode).place)
    (answers : Traced.Answers (regionStep below context kind) region (state.afterText kind.mode))
    (atText : AtText kind.mode state.text state.place) :
    AtText kind.mode own.text own.place ∧ (state.afterText kind.mode).AsAlone part s (own.afterText kind.mode) := by
  have run := textRun_amid alike after inside sound recording size place answers
  obtain ⟨nodes, _, same, ownPlace⟩ := alike
  have ownLt : own.place < (textRun kind.mode own.text own.place).after := by
    have larger := lt_textRun_of_atText atText
    rwa [run, same, Cursor.amid_lt_amid] at larger
  have larger : state.afterText kind.mode =
      ⟨Node.mapOffsets (s.before + ·) ⟨.text (String.ofList (textRun kind.mode own.text own.place).content),
          own.place.spanTo (textRun kind.mode own.text own.place).after⟩ :: state.nodes,
        (own.afterText kind.mode).text, (own.afterText kind.mode).place.amid s⟩ := by
    rw [RegionState.afterText, run, same, Node.mapOffsets_mk]
    rfl
  rw [larger, nodes]
  exact ⟨lt_textRun_iff.mp ownLt, rfl, rfl, rfl, ownPlace.trans ownLt.le⟩

/-- A round of a region that ends inside the stretch is a round over the stretch alone. -/
theorem regionStep_next_alone (stands : StandsIn part source s) (alone : below.ReadsAlone source part s)
    (recording : below.Recording) (size : context.size = byteLength source)
    (goesOn : regionStep below context kind state = pure (.inl next))
    (onward : Traced.Answers (regionStep below context kind) region next) :
    ∃ ownNext, regionStep below (context.sized (byteLength part)) kind own = pure (.inl ownNext) ∧
      next.AsAlone part s ownNext := by
  have here : Cursor.ofText source ≤ state.place := alike.place ▸ stands.place alike.inside
  have lt := lt_of_regionStep alone.amid recording size here goesOn
  have further := here.trans lt.le
  rcases regionStep_eq_next_iff.mp goesOn with ⟨atText, rfl⟩ | ⟨⟨node, last⟩, reads, rfl⟩
  · obtain ⟨ownText, ownAlike⟩ := afterText_alone alike after inside alone.amid recording size further onward atText
    exact ⟨own.afterText kind.mode, regionStep_eq_next_iff.mpr (.inl ⟨ownText, rfl⟩), ownAlike⟩
  · have before := le_of_regionAnswers alone.amid recording size onward further
    obtain ⟨nodes, text, same, ownPlace⟩ := alike
    obtain ⟨last, rfl, _, _⟩ := Cursor.exists_amid (same ▸ lt.le) (before.trans (le_of_eq after))
    rw [same] at reads lt
    obtain ⟨ownNode, rfl, readsAlone⟩ := reads.alone stands alone recording size ownPlace
    refine ⟨own.push (ownNode, last), regionStep_eq_next_iff.mpr (.inr ⟨_, readsAlone, rfl⟩), ?_⟩
    exact ⟨by simp [RegionState.push, nodes], text, rfl, ownPlace.trans (Cursor.amid_lt_amid.mp lt).le⟩

/-- A region that ends inside the stretch ends there alone. -/
theorem regionStep_stop_alone (ends : regionStep below context kind state = pure (.inr region)) (other : Context) :
    ∃ nodes, region.nodes = nodes.map (Node.mapOffsets (s.before + ·)) ∧
      regionStep below other kind own = pure (.inr ⟨nodes, region.stop, e⟩) := by
  obtain ⟨nodes, text, same, _⟩ := alike
  obtain ⟨stop, stops, rfl⟩ := regionStep_eq_stop_iff.mp ends
  obtain rfl := Cursor.amid_inj.mp (same.symm.trans after)
  rw [text, same] at stops
  refine ⟨own.nodes.reverse, by simp [RegionState.stop, nodes], ?_⟩
  exact regionStep_eq_stop_iff.mpr ⟨stop, stops.of_amid inside, rfl⟩

end

theorem readRegion_alone (stands : StandsIn part source s) (alone : below.ReadsAlone source part s)
    (recording : below.Recording) : RegionsAlone source part s (readRegion below) := by
  intro context kind c region e size place clean after inside
  have answers := (readRegion_eq_pure_iff alone.amid size (stands.place place)).mp clean
  have start : RegionState.AsAlone part s ⟨[], {}, c.amid s⟩ ⟨[], {}, c⟩ := ⟨rfl, rfl, rfl, place⟩
  obtain ⟨_, ownAnswers, own, nodes, rfl⟩ :
      ∃ answer, Traced.Answers (regionStep below (context.sized (byteLength part)) kind) answer ⟨[], {}, c⟩ ∧
        ∃ own, region.nodes = own.map (Node.mapOffsets (s.before + ·)) ∧ answer = ⟨own, region.stop, e⟩ := by
    refine answers.transfer start ?_ ?_
    · intro state next own alike goesOn onward
      exact regionStep_next_alone alike after inside stands alone recording size goesOn onward
    · intro state own alike ends
      obtain ⟨nodes, same, ownEnds⟩ := regionStep_stop_alone alike after inside ends (context.sized (byteLength part))
      exact ⟨⟨nodes, region.stop, e⟩, ownEnds, nodes, same, rfl⟩
  exact ⟨own, nodes, (readRegion_eq_pure_iff alone.sound rfl place).mpr ownAnswers⟩

/-! ## Levels -/

theorem Below.ReadsAlone.above (stands : StandsIn part source s) (alone : below.ReadsAlone source part s)
    (recording : below.Recording) : (Level.above below).ReadsAlone source part s where
  amid := alone.amid.above
  sound := alone.sound.above
  region := readRegion_alone stands alone recording
  nested := alone.nested
  sigil _ _ size place sigil := readSigil_alone stands alone recording size place sigil
  conditional _ _ _ size place opens :=
    readConditional_alone stands alone size (place.trans (Cursor.amid_lt_amid.mp opens.lt).le)
  goesOn _ _ _ _ _ size place opens clean := lt_of_readConditional alone.amid size (place.trans opens.lt.le) clean

theorem Below.ofRoom_alone (stands : StandsIn part source s) (room : Nat) : (Below.ofRoom room).ReadsAlone source part s := by
  induction room with
  | zero => simp [Below.ReadsAlone, Below.ofRoom]
  | succ room ih =>
    rintro level ⟨⟩
    rw [Level.withRoom_eq]
    exact ih.above stands (Below.ofRoom_recording room)

end SigilTemplate
