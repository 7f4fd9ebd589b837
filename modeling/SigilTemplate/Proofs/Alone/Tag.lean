import SigilTemplate.Proofs.Alone.Construct
import SigilTemplate.Proofs.Markup.TagName
import SigilTemplate.Proofs.Reading.Tags

/-!
Component tags of a stretch, read alone. The attributes are read one by one as
in the larger text, and the body ends in front of a closing tag that belongs to
the stretch as a whole.
-/

namespace SigilTemplate
open Text

variable {source part : List Char} {s : Surroundings} {context : Context} {below : Below} {level : Level}
  {c d e : Cursor}

/-! ## Attributes -/

/-- A constant has a character at least. -/
theorem lt_of_constantValue? {value : ArgumentValue Node}
    (word : constantValue? (c.textTo (c.skipWhile isWordPart)) = some value) : c < c.skipWhile isWordPart := by
  apply Cursor.lt_of_reads (Cursor.reads_textTo (Cursor.le_skipWhile isWordPart c))
  intro empty
  have nothing : (constantValue? [] : Option (ArgumentValue Node)) = none := by decide
  rw [empty, nothing] at word
  simp at word

/-- A constant starts with a character of a word. -/
theorem exists_wordPart_of_constantValue? {value : ArgumentValue Node}
    (word : constantValue? (c.textTo (c.skipWhile isWordPart)) = some value) : ∃ ch, c.peek = some ch ∧ isWordPart ch = true := by
  by_contra none
  have stays : c.skipWhile isWordPart = c := by
    refine Cursor.skipWhile_eq_iff.mpr ⟨[], .refl c, rfl, fun ch head => ?_⟩
    exact Bool.eq_false_iff.mpr fun part => none ⟨ch, head, part⟩
  exact (lt_of_constantValue? word).ne' stays

/-- How the value of an attribute is read: in quotes, as a block, from a sigil, or as a constant without quotes. -/
inductive ValueRead (level : Level) (context : Context) (c : Cursor) : ArgumentValue Node → Cursor → Prop
  | quoted {ch : Char} {text : Fragment} {after : Cursor} (head : c.peek = some ch) (quote : ch = '"' ∨ ch = '\x27')
      (literal : stringLiteral c = .ok (text, after)) : ValueRead level context c (.string text) after
  | block {body : List Node} {after : Cursor} (head : c.peek = some '{')
      (reads : readBlock level.nested context .argument c = pure (body, after)) :
      ValueRead level context c (.block body) after
  | expression {node : Node} {after : Cursor} (sigil : c.atSigil = true)
      (reads : level.sigil context c = pure (node, after)) : ValueRead level context c (.expression node) after
  | constant {value : ArgumentValue Node}
      (word : constantValue? (c.textTo (c.skipWhile isWordPart)) = some value) :
      ValueRead level context c value (c.skipWhile isWordPart)

theorem ValueRead.of_eq_ok {value : ArgumentValue Node}
    (clean : readAttributeValue level context c = pure (.ok (value, d))) : ValueRead level context c value d := by
  unfold readAttributeValue at clean
  split at clean
  · exact absurd (Traced.pure_inj.mp clean) (by simp)
  · next ch head =>
    split at clean
    · next quote =>
      cases literal : stringLiteral c with
      | error stop =>
        rw [literal] at clean
        exact absurd (Traced.pure_inj.mp clean) (by simp [Except.map])
      | ok found =>
        rw [literal] at clean
        obtain ⟨rfl, rfl⟩ := Prod.mk.inj (Except.ok.inj (Traced.pure_inj.mp clean))
        exact .quoted head quote literal
    · split at clean
      · next brace =>
        obtain ⟨⟨body, after⟩, reads, rest⟩ := Traced.exists_of_bind_eq_pure clean
        obtain ⟨rfl, rfl⟩ := Prod.mk.inj (Except.ok.inj (Traced.pure_inj.mp rest))
        exact .block (brace ▸ head) reads
      · split at clean
        · next sigil =>
          obtain ⟨⟨node, after⟩, reads, rest⟩ := Traced.exists_of_bind_eq_pure clean
          obtain ⟨rfl, rfl⟩ := Prod.mk.inj (Except.ok.inj (Traced.pure_inj.mp rest))
          exact .expression sigil reads
        · simp only at clean
          split at clean
          · next constant word =>
            obtain ⟨rfl, rfl⟩ := Prod.mk.inj (Except.ok.inj (Traced.pure_inj.mp clean))
            exact .constant word
          · exact absurd (Traced.pure_inj.mp clean) (by simp)

/-- A constant is read as such, since no other value starts with a character of a word. -/
theorem readAttributeValue_of_constantValue? {value : ArgumentValue Node}
    (word : constantValue? (c.textTo (c.skipWhile isWordPart)) = some value) :
    readAttributeValue level context c = pure (.ok (value, c.skipWhile isWordPart)) := by
  obtain ⟨ch, head, part⟩ := exists_wordPart_of_constantValue? word
  have noSigil : ¬c.atSigil = true := by
    intro sigil
    obtain rfl := Option.some.inj (head.symm.trans (Cursor.peek_of_atSigil sigil))
    exact absurd part (by decide)
  have noQuote : ¬(ch = '"' ∨ ch = '\x27') := by
    rintro (rfl | rfl) <;> exact absurd part (by decide)
  have noBrace : ch ≠ '{' := by
    rintro rfl
    exact absurd part (by decide)
  simp only [readAttributeValue, head, if_neg noQuote, if_neg noBrace, if_neg noSigil, word]

theorem readAttributeValue_eq_ok_iff {value : ArgumentValue Node} :
    readAttributeValue level context c = pure (.ok (value, d)) ↔ ValueRead level context c value d := by
  refine ⟨ValueRead.of_eq_ok, fun read => ?_⟩
  cases read with
  | quoted head quote literal => simp only [readAttributeValue, head, if_pos quote, literal, Except.map]
  | block head reads => simp [readAttributeValue, head, reads, Traced.pure_bind]
  | expression sigil reads =>
    simp [readAttributeValue, Cursor.peek_of_atSigil sigil, sigil, reads, Traced.pure_bind]
  | constant word => exact readAttributeValue_of_constantValue? word

theorem readAttributeValue_alone {value : ArgumentValue Node} (stands : StandsIn part source s)
    (alone : level.ReadsAlone source part s) (size : context.size = byteLength source) (place : Cursor.ofText part ≤ c)
    (clean : readAttributeValue level context (c.amid s) = pure (.ok (value, e.amid s))) :
    ∃ own, value = own.mapAllOffsets (s.before + ·) ∧
      readAttributeValue level (context.sized (byteLength part)) c = pure (.ok (own, e)) := by
  have here := stands.place place
  simp only [readAttributeValue_eq_ok_iff] at clean ⊢
  generalize ends : e.amid s = after at clean
  cases clean with
  | quoted head quote literal =>
    subst ends
    have ownHead := Cursor.peek_of_amid (Cursor.amid_lt_amid.mp (lt_of_stringLiteral literal)) head
    obtain ⟨own, rfl, readsAlone⟩ := stringLiteral_alone c _ _ literal
    exact ⟨.string own, rfl, .quoted ownHead quote readsAlone⟩
  | block head reads =>
    subst ends
    have lt := ((readBlock_yields alone.amid.nested size here head).of_clean reads).1.inOrder.1
    have ownHead := Cursor.peek_of_amid (Cursor.amid_lt_amid.mp lt) head
    obtain ⟨own, rfl, readsAlone⟩ := readBlock_alone stands alone.amid.nested alone.nested size place head _ _ reads
    exact ⟨.block own, rfl, .block ownHead readsAlone⟩
  | expression sigil reads =>
    subst ends
    have lt := Cursor.amid_lt_amid.mp ((alone.amid.sigil context _ size here sigil).of_clean reads).lt
    obtain ⟨own, rfl, readsAlone⟩ := alone.sigil context c size place sigil _ _ reads
    exact ⟨.expression own, rfl, .expression (Cursor.atSigil_of_amid lt sigil) readsAlone⟩
  | constant word =>
    have ownEnds := Cursor.skipWhile_of_amid ends.symm
    have lt := lt_of_constantValue? word
    rw [← ends] at lt word
    rw [Cursor.textTo_amid (Cursor.amid_lt_amid.mp lt).le] at word
    have same : value = value.mapAllOffsets (s.before + ·) := by
      rcases constantValue?_eq word with rfl | rfl | ⟨text, rfl⟩ <;> rfl
    subst ownEnds
    exact ⟨value, same, .constant word⟩

theorem readAttribute_alone {argument : Argument Node} (stands : StandsIn part source s)
    (alone : level.ReadsAlone source part s) (size : context.size = byteLength source) (place : Cursor.ofText part ≤ c)
    (clean : readAttribute level context (c.amid s) = pure (.ok (argument, e.amid s))) :
    ∃ own, argument = own.mapAllOffsets (s.before + ·) ∧
      readAttribute level (context.sized (byteLength part)) c = pure (.ok (own, e)) := by
  simp only [readAttribute] at clean
  split at clean
  · next missing =>
    obtain ⟨rfl, ends⟩ := Prod.mk.inj (Except.ok.inj (Traced.pure_inj.mp clean))
    have ownEnds := Cursor.skipWhile_of_amid ends
    have le : c ≤ e := ownEnds ▸ Cursor.le_skipWhile _ c
    rw [ends] at missing ⊢
    have ownMissing : e.skipBlank.eat? '=' = none :=
      Cursor.eq_none_of_amid (fun _ => Cursor.skipWhile_eat?_amid_of_some) missing
    refine ⟨⟨.between c e, .flag, c.spanTo e⟩, ?_, ?_⟩
    · rw [Fragment.between_amid le]
      rfl
    · simp only [readAttribute, ownEnds, ownMissing]
  · next equals sign =>
    obtain ⟨value, reads, rest⟩ := Traced.exists_of_bind_eq_pure clean
    cases value with
    | error stop => exact absurd (Traced.pure_inj.mp rest) (by simp [Except.map])
    | ok read =>
      obtain ⟨value, after⟩ := read
      obtain ⟨rfl, rfl⟩ := Prod.mk.inj (Except.ok.inj (Traced.pure_inj.mp rest))
      have name := Cursor.le_skipWhile isAttributePart (c.amid s)
      have before := (Cursor.le_skipBlank _).trans (Cursor.lt_of_eat? sign).le
      have here := (stands.place place).trans (name.trans (before.trans (Cursor.le_skipBlank equals)))
      have onward : equals.skipBlank ≤ e.amid s :=
        ((readAttributeValue_yields alone.amid size here).of_clean reads).1.inOrder.le
      have within := (Cursor.le_skipBlank equals).trans onward
      rw [Cursor.skipWhile_amid_of_le (before.trans within)] at sign ⊢
      obtain ⟨equals, rfl, ownSign⟩ := Cursor.skipWhile_eat?_amid sign within
      rw [Cursor.skipBlank_amid_of_le onward] at reads
      have ownBefore : c.skipWhile isAttributePart ≤ equals := (Cursor.le_skipBlank _).trans (Cursor.lt_of_eat? ownSign).le
      have further := place.trans ((Cursor.le_skipWhile isAttributePart c).trans
        (ownBefore.trans (Cursor.le_skipBlank equals)))
      obtain ⟨own, rfl, readsAlone⟩ := readAttributeValue_alone stands alone size further reads
      have sign' : (c.skipWhile isAttributePart).skipBlank.eat? '=' = some equals := ownSign
      refine ⟨⟨.between c (c.skipWhile isAttributePart), own, c.spanTo e⟩, ?_, ?_⟩
      · rw [Fragment.between_amid (Cursor.le_skipWhile isAttributePart c)]
        rfl
      · simp only [readAttribute, sign', readsAlone, Traced.pure_bind, Except.map]

/-! ## Opening tags -/

/-- A round over an opening tag reads an attribute after white space. -/
theorem tagHeadStep_eq_next_iff {state next : TagHeadState} :
    tagHeadStep level context state = pure (.inl next) ↔
      state.place.skipBlank.eat? '>' = none ∧ state.place.skipBlank.eatText? ['/', '>'] = none ∧
        (state.place.pos < state.place.skipBlank.pos ∧ state.place.skipBlank.peek.any isIdentStart = true) ∧
        ∃ argument after, readAttribute level context state.place.skipBlank = pure (.ok (argument, after)) ∧
          next = ⟨argument :: state.arguments, after⟩ := by
  simp only [tagHeadStep]
  constructor
  · intro goesOn
    split at goesOn
    · exact absurd (Traced.pure_inj.mp goesOn) (by simp)
    · next noBracket =>
      split at goesOn
      · exact absurd (Traced.pure_inj.mp goesOn) (by simp)
      · next noSlash =>
        split at goesOn
        · next starts =>
          obtain ⟨read, reads, rest⟩ := Traced.exists_of_bind_eq_pure goesOn
          cases read with
          | error stop => exact absurd (Traced.pure_inj.mp rest) (by simp)
          | ok read => exact ⟨noBracket, noSlash, starts, read.1, read.2, reads, (Sum.inl.inj (Traced.pure_inj.mp rest)).symm⟩
        · exact absurd (Traced.pure_inj.mp goesOn) (by simp)
  · rintro ⟨noBracket, noSlash, starts, argument, after, reads, rfl⟩
    simp only [noBracket, noSlash]
    rw [if_pos starts, reads, Traced.pure_bind]

/-- A round over an opening tag ends it at its bracket, perhaps with a slash in front. -/
theorem tagHeadStep_eq_closed_iff {state : TagHeadState} {arguments : List (Argument Node)} {selfClosing : Bool}
    {after : Cursor} :
    tagHeadStep level context state = pure (.inr (.closed arguments selfClosing after)) ↔
      arguments = state.arguments.reverse ∧
        if selfClosing then
          state.place.skipBlank.eat? '>' = none ∧ state.place.skipBlank.eatText? ['/', '>'] = some after
        else state.place.skipBlank.eat? '>' = some after := by
  simp only [tagHeadStep]
  constructor
  · intro ends
    split at ends
    · next bracket =>
      obtain ⟨rfl, rfl, rfl⟩ := TagHead.closed.inj (Sum.inr.inj (Traced.pure_inj.mp ends))
      exact ⟨rfl, bracket⟩
    · next noBracket =>
      split at ends
      · next slash =>
        obtain ⟨rfl, rfl, rfl⟩ := TagHead.closed.inj (Sum.inr.inj (Traced.pure_inj.mp ends))
        exact ⟨rfl, noBracket, slash⟩
      · split at ends
        · obtain ⟨read, _, rest⟩ := Traced.exists_of_bind_eq_pure ends
          cases read <;> exact absurd (Traced.pure_inj.mp rest) (by simp)
        · exact absurd (Traced.pure_inj.mp ends) (by simp)
  · rintro ⟨rfl, ends⟩
    cases selfClosing with
    | true =>
      obtain ⟨noBracket, slash⟩ := ends
      simp only [noBracket, slash]
    | false =>
      have bracket : state.place.skipBlank.eat? '>' = some after := ends
      simp only [bracket]

theorem lt_of_tagHeadStep {state next : TagHeadState} (sound : level.Sound source)
    (size : context.size = byteLength source) (place : Cursor.ofText source ≤ state.place)
    (goesOn : tagHeadStep level context state = pure (.inl next)) : state.place < next.place := by
  obtain ⟨_, _, starts, argument, stop, reads, rfl⟩ := tagHeadStep_eq_next_iff.mp goesOn
  have here := place.trans (Cursor.le_skipBlank state.place)
  have read := ((readAttribute_yields sound size here).of_clean reads).1
  exact (Cursor.le_skipBlank state.place).trans_lt (read.lt starts.2)

/-- All rounds over an opening tag end behind the place where they start. -/
theorem lt_of_tagHeadAnswers {after : Cursor} {state : TagHeadState} {arguments : List (Argument Node)} {selfClosing : Bool}
    (sound : level.Sound source) (size : context.size = byteLength source)
    (answers : Traced.Answers (tagHeadStep level context) (.closed arguments selfClosing after) state)
    (place : Cursor.ofText source ≤ state.place) : state.place < after := by
  induction answers with
  | last ends =>
    obtain ⟨_, mark⟩ := tagHeadStep_eq_closed_iff.mp ends
    cases selfClosing with
    | true => exact (Cursor.le_skipBlank _).trans_lt (Cursor.lt_of_reads (Cursor.reads_eatText? mark.2) (by simp))
    | false => exact (Cursor.le_skipBlank _).trans_lt (Cursor.lt_of_eat? mark)
  | next goesOn _ ih =>
    have onward := lt_of_tagHeadStep sound size place goesOn
    exact onward.trans (ih (place.trans onward.le))

theorem readTagHead_eq_pure_iff {head : TagHead} (sound : level.Sound source) (size : context.size = byteLength source)
    (place : Cursor.ofText source ≤ c) :
    readTagHead level context c = pure head ↔ Traced.Answers (tagHeadStep level context) head ⟨[], c⟩ :=
  (tagHeadStep_movesOn sound size place).iterate_eq_pure_iff _

theorem lt_of_readTagHead_eq_pure {after : Cursor} {arguments : List (Argument Node)} {selfClosing : Bool}
    (sound : level.Sound source) (size : context.size = byteLength source) (place : Cursor.ofText source ≤ c)
    (clean : readTagHead level context c = pure (.closed arguments selfClosing after)) : c < after :=
  lt_of_tagHeadAnswers sound size ((readTagHead_eq_pure_iff sound size place).mp clean) place

/-- An opening tag has been read so far as the stretch alone would have been, with other offsets. -/
structure TagHeadState.AsAlone (part : List Char) (s : Surroundings) (state own : TagHeadState) : Prop where
  arguments : state.arguments = own.arguments.map (Argument.mapAllOffsets (s.before + ·))
  place : state.place = own.place.amid s
  inside : Cursor.ofText part ≤ own.place

/-- A round that ends in the stretch is a round over the stretch alone. -/
theorem tagHeadStep_next_alone {state next own : TagHeadState} (stands : StandsIn part source s)
    (alone : level.ReadsAlone source part s) (size : context.size = byteLength source) (alike : state.AsAlone part s own)
    (goesOn : tagHeadStep level context state = pure (.inl next)) (within : next.place ≤ e.amid s) :
    ∃ ownNext, tagHeadStep level (context.sized (byteLength part)) own = pure (.inl ownNext) ∧
      next.AsAlone part s ownNext := by
  obtain ⟨_, _⟩ := state
  obtain ⟨ownArguments, own⟩ := own
  obtain ⟨rfl, rfl, inside⟩ := alike
  obtain ⟨noBracket, noSlash, ⟨gap, head⟩, argument, after, reads, rfl⟩ := tagHeadStep_eq_next_iff.mp goesOn
  have here := (stands.place inside).trans (Cursor.le_skipBlank (own.amid s))
  have further := ((readAttribute_yields alone.amid size here).of_clean reads).1.lt head
  have blank := Cursor.skipBlank_amid_of_le (further.le.trans within)
  simp only [blank] at noBracket noSlash gap head reads further
  obtain ⟨after, rfl, _, _⟩ := Cursor.exists_amid further.le within
  have ownFurther := Cursor.amid_lt_amid.mp further
  rw [Cursor.peek_amid (Cursor.ne_nil_of_lt ownFurther)] at head
  obtain ⟨ownArgument, rfl, readsAlone⟩ := readAttribute_alone stands alone size (inside.trans (Cursor.le_skipBlank own)) reads
  refine ⟨⟨ownArgument :: ownArguments, after⟩, ?_, rfl, rfl, ?_⟩
  · exact tagHeadStep_eq_next_iff.mpr ⟨Cursor.eq_none_of_amid (fun _ => Cursor.eat?_amid_of_some) noBracket,
      Cursor.eq_none_of_amid (fun _ => Cursor.eatText?_amid_of_some) noSlash, ⟨by simpa using gap, head⟩,
      ownArgument, after, readsAlone, rfl⟩
  · exact inside.trans ((Cursor.le_skipBlank own).trans ownFurther.le)

/-- The end of an opening tag in the stretch is its end for the stretch alone. -/
theorem tagHeadStep_closed_alone {state own : TagHeadState} {arguments : List (Argument Node)} {selfClosing : Bool}
    (alike : state.AsAlone part s own)
    (ends : tagHeadStep level context state = pure (.inr (.closed arguments selfClosing (e.amid s)))) :
    ∃ ownArguments, arguments = ownArguments.map (Argument.mapAllOffsets (s.before + ·)) ∧
      tagHeadStep level (context.sized (byteLength part)) own = pure (.inr (.closed ownArguments selfClosing e)) := by
  obtain ⟨_, _⟩ := state
  obtain ⟨ownArguments, own⟩ := own
  obtain ⟨rfl, rfl, _⟩ := alike
  obtain ⟨same, mark⟩ := tagHeadStep_eq_closed_iff.mp ends
  refine ⟨ownArguments.reverse, by rw [same, List.map_reverse], tagHeadStep_eq_closed_iff.mpr ⟨rfl, ?_⟩⟩
  cases selfClosing with
  | true =>
    obtain ⟨noBracket, slash⟩ := mark
    obtain ⟨after, same, ownSlash⟩ := Cursor.skipWhile_eatText?_amid slash (le_refl _)
    obtain rfl := Cursor.amid_inj.mp same
    exact ⟨Cursor.eq_none_of_amid (fun _ => Cursor.skipWhile_eat?_amid_of_some) noBracket, ownSlash⟩
  | false =>
    obtain ⟨after, same, ownBracket⟩ := Cursor.skipWhile_eat?_amid mark (le_refl _)
    obtain rfl := Cursor.amid_inj.mp same
    exact ownBracket

theorem readTagHead_alone {arguments : List (Argument Node)} {selfClosing : Bool} (stands : StandsIn part source s)
    (alone : level.ReadsAlone source part s) (size : context.size = byteLength source) (place : Cursor.ofText part ≤ c)
    (clean : readTagHead level context (c.amid s) = pure (.closed arguments selfClosing (e.amid s))) :
    ∃ own, arguments = own.map (Argument.mapAllOffsets (s.before + ·)) ∧
      readTagHead level (context.sized (byteLength part)) c = pure (.closed own selfClosing e) := by
  have answers := readTagHead_eq_pure_iff alone.amid size (stands.place place) |>.mp clean
  have start : TagHeadState.AsAlone part s ⟨[], c.amid s⟩ ⟨[], c⟩ := ⟨rfl, rfl, place⟩
  obtain ⟨_, ownAnswers, own, same, rfl⟩ :
      ∃ answer, Traced.Answers (tagHeadStep level (context.sized (byteLength part))) answer ⟨[], c⟩ ∧
        ∃ own, arguments = own.map (Argument.mapAllOffsets (s.before + ·)) ∧ answer = .closed own selfClosing e := by
    refine answers.transfer start ?_ ?_
    · intro state next own alike goesOn onward
      have here : Cursor.ofText source ≤ state.place := alike.place ▸ stands.place alike.inside
      have further := here.trans (lt_of_tagHeadStep alone.amid size here goesOn).le
      exact tagHeadStep_next_alone stands alone size alike goesOn (lt_of_tagHeadAnswers alone.amid size onward further).le
    · intro state own alike ends
      obtain ⟨ownArguments, same, ownEnds⟩ := tagHeadStep_closed_alone alike ends
      exact ⟨.closed ownArguments selfClosing e, ownEnds, ownArguments, same, rfl⟩
  exact ⟨own, same, (readTagHead_eq_pure_iff alone.sound rfl place).mpr ownAnswers⟩

/-! ## Closing tags -/

/-- A complete closing tag that ends in the stretch is one alone. -/
theorem readCloseTag_of_amid (closes : (c.amid s).atTagClose = true)
    (complete : (readCloseTag (c.amid s)).complete = true) (ends : (readCloseTag (c.amid s)).after = e.amid s) :
    c.atTagClose = true ∧ readCloseTag c = ⟨(readCloseTag (c.amid s)).name, true, e⟩ := by
  obtain ⟨blanks, isName, _, reads⟩ := reads_readCloseTag closes complete
  rw [ends] at reads
  obtain ⟨first, name, same⟩ : ∃ first name, (readCloseTag (c.amid s)).name.toList = first :: name := by
    cases chars : (readCloseTag (c.amid s)).name.toList with
    | nil => simpa [chars] using isName.capital
    | cons first name => exact ⟨first, name, rfl⟩
  have capital : first.isUpper = true := by simpa [same] using isName.capital
  have starts : c.rest = '<' :: '/' :: first :: (name ++ (blanks ++ '>' :: e.rest)) := by
    simpa [same] using (Cursor.reads_amid_iff.mp reads).rest_eq
  have inside : (c.amid s).skip 2 = (c.skip 2).amid s :=
    Cursor.skip_two_amid (by simp [starts]) (by simp [Cursor.next, starts])
  refine ⟨by simp [Cursor.atTagClose, Cursor.peek, Cursor.next, starts, closesTag, opensTag, capital], ?_⟩
  clear same
  simp only [readCloseTag, inside] at complete ends ⊢
  cases found : ((c.skip 2).amid s).skipTagName.skipBlank.eat? '>' with
  | none => simp [found] at complete
  | some after =>
    simp only [found] at ends ⊢
    subst ends
    have within := (Cursor.le_skipBlank _).trans (Cursor.lt_of_eat? found).le
    rw [Cursor.skipTagName_amid_of_le within] at found ⊢
    obtain ⟨after, last, ownFound⟩ := Cursor.skipWhile_eat?_amid found (le_refl _)
    obtain rfl := Cursor.amid_inj.mp last
    have bracket : (c.skip 2).skipTagName.skipBlank.eat? '>' = some e := ownFound
    rw [bracket, Cursor.textTo_amid (Cursor.le_skipTagName _)]

/-! ## Tags -/

theorem brokenTag_ne_pure {cause : Malformation} {start stop : Cursor} {arguments : List (Argument Node)}
    {body : List Node} {read : ReadNode} : brokenTag cause start stop arguments body ≠ pure read :=
  Traced.recover_bind_ne_pure

theorem tagName_amid (opens : (c.amid s).atTagOpen = true) (within : (c.amid s).next.skipTagName ≤ e.amid s) :
    (c.amid s).next.skipTagName = c.next.skipTagName.amid s ∧
      Fragment.between (c.amid s).next (c.amid s).next.skipTagName =
        (Fragment.between c.next c.next.skipTagName).mapOffsets (s.before + ·) := by
  have lt := (Cursor.lt_next (Cursor.peek_of_atTagOpen opens)).trans_le ((Cursor.le_skipTagName _).trans within)
  rw [Cursor.next_amid (Cursor.ne_nil_of_lt (Cursor.amid_lt_amid.mp lt))] at within ⊢
  have name := Cursor.skipTagName_amid_of_le within
  exact ⟨name, by rw [name, Fragment.between_amid (Cursor.le_skipTagName c.next)]⟩

/-- How a tag is read without giving anything up: it closes itself, or its body ends at a closing tag with its name. -/
inductive TagRead (below : Below) (context : Context) (start : Cursor) : Node → Cursor → Prop
  | selfClosing {level : Level} {arguments : List (Argument Node)} {after : Cursor}
      (enters : below.enter context start.next.skipTagName = pure level)
      (head : readTagHead level context start.next.skipTagName = pure (.closed arguments true after)) :
      TagRead below context start
        ⟨.component ⟨.between start.next start.next.skipTagName, .tag, arguments, [], true⟩, start.spanTo after⟩ after
  | withBody {level : Level} {arguments : List (Argument Node)} {nodes : List Node} {inside close after : Cursor}
      (enters : below.enter context start.next.skipTagName = pure level)
      (head : readTagHead level context start.next.skipTagName = pure (.closed arguments false inside))
      (body : level.region (context.insideTag (Fragment.between start.next start.next.skipTagName).text)
        (.tagBody context.braced) inside = pure ⟨nodes, .closeTag, close⟩)
      (closes : readCloseTag close = ⟨(Fragment.between start.next start.next.skipTagName).text, true, after⟩) :
      TagRead below context start
        ⟨.component ⟨.between start.next start.next.skipTagName, .tag, arguments, nodes, false⟩, start.spanTo after⟩ after

theorem settleTag_eq_pure {start : Cursor} {name : Fragment} {arguments : List (Argument Node)} {body : Region}
    {node : Node} (clean : settleTag context start name arguments body = pure (node, d)) :
    readCloseTag body.after = ⟨name.text, true, d⟩ ∧
      node = ⟨.component ⟨name, .tag, arguments, body.nodes, false⟩, start.spanTo d⟩ := by
  simp only [settleTag] at clean
  split at clean
  · next same =>
    split at clean
    · next complete =>
      obtain ⟨rfl, rfl⟩ := Prod.mk.inj (Traced.pure_inj.mp clean)
      refine ⟨?_, rfl⟩
      rw [← same, ← complete]
    · exact absurd clean brokenTag_ne_pure
  · exact absurd clean brokenTag_ne_pure

theorem readTag_eq_pure_iff {start : Cursor} {node : Node} :
    readTag below context start = pure (node, d) ↔ TagRead below context start node d := by
  constructor
  · intro clean
    simp only [readTag] at clean
    obtain ⟨level, enters, clean⟩ := Traced.exists_of_bind_eq_pure clean
    obtain ⟨head, reads, clean⟩ := Traced.exists_of_bind_eq_pure clean
    cases head with
    | malformed => exact absurd clean brokenTag_ne_pure
    | closed arguments selfClosing inside =>
      cases selfClosing with
      | true =>
        obtain ⟨rfl, rfl⟩ := Prod.mk.inj (Traced.pure_inj.mp clean)
        exact .selfClosing enters reads
      | false =>
        obtain ⟨⟨nodes, stop, close⟩, bodyReads, clean⟩ := Traced.exists_of_bind_eq_pure clean
        cases stop with
        | closeTag =>
          obtain ⟨closes, rfl⟩ := settleTag_eq_pure clean
          exact .withBody enters reads bodyReads closes
        | _ => exact absurd clean brokenTag_ne_pure
  · intro read
    cases read with
    | selfClosing enters head => simp only [readTag, enters, head, Traced.pure_bind]
    | withBody enters head body closes =>
      simp only [readTag, enters, head, body, Traced.pure_bind, settleTag, closes, if_true]

theorem readTag_alone (stands : StandsIn part source s) (alone : below.ReadsAlone source part s)
    (size : context.size = byteLength source) (place : Cursor.ofText part ≤ c) (opens : (c.amid s).atTagOpen = true) :
    Traced.ReadsAlone s (Node.mapOffsets (s.before + ·)) (readTag below context (c.amid s))
      (readTag below (context.sized (byteLength part)) c) := by
  intro node e clean
  simp only [readTag_eq_pure_iff] at clean ⊢
  generalize ends : e.amid s = last at clean
  have nameEnd := (Cursor.le_next (c.amid s)).trans (Cursor.le_skipTagName (c.amid s).next)
  have here := (stands.place place).trans nameEnd
  have ownHere := place.trans ((Cursor.le_next c).trans (Cursor.le_skipTagName c.next))
  cases clean with
  | selfClosing enters head =>
    subst ends
    obtain ⟨holds, entersAlone⟩ := alone.enter (d := c.next.skipTagName) enters (context.sized (byteLength part))
    obtain ⟨sameEnd, name⟩ := tagName_amid opens (lt_of_readTagHead_eq_pure holds.amid size here head).le
    rw [sameEnd] at head
    obtain ⟨own, rfl, headAlone⟩ := readTagHead_alone stands holds size ownHere head
    refine ⟨⟨.component ⟨.between c.next c.next.skipTagName, .tag, own, [], true⟩, c.spanTo e⟩, ?_,
      .selfClosing entersAlone headAlone⟩
    rw [Node.mapOffsets_component, name]
    rfl
  | @withBody level arguments nodes inside close _ enters head body closes =>
    subst ends
    obtain ⟨holds, entersAlone⟩ := alone.enter (d := c.next.skipTagName) enters (context.sized (byteLength part))
    have before := (lt_of_readTagHead_eq_pure holds.amid size here head).le
    obtain ⟨⟨_, items, stops⟩, _⟩ := (holds.amid.region (context.insideTag _) _ inside size (here.trans before)).of_clean body
    have mark := stops.isTagBody.2
    have onward : inside ≤ close := items.inOrder.le
    have lt : close < e.amid s := by simpa [closes] using lt_readCloseTag mark
    obtain ⟨sameEnd, name⟩ := tagName_amid opens (before.trans (onward.trans lt.le))
    rw [sameEnd] at head before
    rw [name] at body closes ⊢
    obtain ⟨inside, rfl, le, _⟩ := Cursor.exists_amid before (onward.trans lt.le)
    obtain ⟨close, rfl, _, _⟩ := Cursor.exists_amid onward lt.le
    obtain ⟨ownMark, ownCloses⟩ := readCloseTag_of_amid mark (by rw [closes]) (by rw [closes])
    rw [closes] at ownCloses
    obtain ⟨own, rfl, headAlone⟩ := readTagHead_alone stands holds size ownHere head
    obtain ⟨ownNodes, rfl, bodyAlone⟩ := holds.region (context.insideTag _) _ inside _ close size
      (ownHere.trans le) body rfl ownMark
    refine ⟨⟨.component ⟨.between c.next c.next.skipTagName, .tag, own, ownNodes, false⟩, c.spanTo e⟩, ?_,
      .withBody entersAlone headAlone bodyAlone ownCloses⟩
    rw [Node.mapOffsets_component]
    rfl

end SigilTemplate
