import SigilTemplate.Proofs.Alone.Tag
import SigilTemplate.Proofs.Alone.Match
import SigilTemplate.Proofs.Code.Deepening
import SigilTemplate.Proofs.Reading.Recoveries
import SigilTemplate.Proofs.Tree.Endings

/-!
What an `@` starts in a stretch, read alone. A keyword that something must
follow is followed by it in the stretch, and a word that is no keyword in the
larger text is none alone. A component call has its block in the stretch; where
an expression is read instead of one, its arguments are part of the expression,
so that there is no block alone either.
-/

namespace SigilTemplate
open Text

variable {source part : List Char} {s : Surroundings} {context : Context} {below : Below} {c d e start : Cursor}
  {keyword : Keyword} {node : Node} {room : Nat}

/-! ## Keywords that something follows -/

theorem exists_of_settleDirective_eq_pure {attempt : Except Cursor (Directive Node × Cursor)}
    (clean : settleDirective keyword start attempt = pure (node, d)) : ∃ directive, attempt = .ok (directive, d) := by
  cases attempt with
  | error => exact absurd clean malformedDirective_ne_pure
  | ok read =>
    obtain ⟨_, rfl⟩ := Prod.mk.inj (Traced.pure_inj.mp clean)
    exact ⟨read.1, rfl⟩

theorem lt_of_stringDirective {make : Fragment → Directive Node} {directive : Directive Node}
    (ok : stringDirective make c = .ok (directive, d)) : c < d := by
  obtain ⟨⟨text, after⟩, reads, ok⟩ := exists_of_bind_ok ok
  obtain ⟨_, rfl⟩ := Prod.mk.inj (Except.ok.inj ok)
  obtain ⟨inside, opens, reads⟩ := exists_of_bind_ok reads
  obtain ⟨⟨value, last⟩, literal, reads⟩ := exists_of_bind_ok reads
  obtain ⟨close, closes, reads⟩ := exists_of_bind_ok reads
  obtain ⟨_, rfl⟩ := Prod.mk.inj (Except.ok.inj reads)
  exact (lt_of_expect opens).trans_le ((Cursor.le_skipBlank inside).trans (le_of_closedString literal closes))

theorem lt_of_useDirective {directive : Directive Node} (ok : useDirective c = .ok (directive, d)) : c < d := by
  obtain ⟨⟨path, afterPath⟩, reads, ok⟩ := exists_of_bind_ok ok
  obtain ⟨⟨component, after⟩, names, ok⟩ := exists_of_bind_ok ok
  obtain ⟨_, rfl⟩ := Prod.mk.inj (Except.ok.inj ok)
  have path := (Cursor.le_skipInlineBlank c).trans_lt (lt_of_stringLiteral reads)
  exact path.trans_le ((endsPlain_componentName names).le.trans (Cursor.le_getD_inlineBlank_eat? ';' after))

theorem lt_of_readRaw (clean : readRaw context start c = pure (node, d)) : c < d := by
  simp only [readRaw] at clean
  split at clean
  · split at clean
    · next close closes =>
      obtain ⟨_, rfl⟩ := Prod.mk.inj (Traced.pure_inj.mp clean)
      obtain ⟨between, mark⟩ := rawClose?_spec closes
      exact (Cursor.le_skipBlank c).trans_lt
        ((Cursor.le_next c.skipBlank).trans_lt (lt_of_le_of_lt between (Cursor.lt_next mark)))
    · exact absurd clean Traced.fail_ne_pure
  · exact absurd clean malformedDirective_ne_pure

section

variable (sound : below.Sound source) (size : context.size = byteLength source) (place : Cursor.ofText source ≤ c)

include sound size place

theorem lt_of_readLoop (clean : readLoop below context keyword start c = pure (node, d)) : c < d := by
  obtain ⟨level, enters, clean⟩ := Traced.exists_of_bind_eq_pure clean
  have holds := (sound.enter place).of_clean enters
  split at clean
  · exact absurd clean missingBlock_ne_pure
  · next header brace head =>
    obtain ⟨⟨body, after⟩, reads, clean⟩ := Traced.exists_of_bind_eq_pure clean
    obtain ⟨_, rfl⟩ := Prod.mk.inj (settleStatement_eq_pure clean).2
    obtain ⟨before, opens, _⟩ := statementHead_ready head
    exact before.trans_lt ((readBlock_yields holds.nested size (place.trans before) opens).of_clean reads).1.inOrder.1

theorem lt_of_readMatch (clean : readMatch below context start c = pure (node, d)) : c < d := by
  obtain ⟨level, enters, clean⟩ := Traced.exists_of_bind_eq_pure clean
  have holds := (sound.enter place).of_clean enters
  split at clean
  · exact absurd clean missingBlock_ne_pure
  · next subject brace head =>
    obtain ⟨ends, reads, clean⟩ := Traced.exists_of_bind_eq_pure clean
    obtain ⟨before, opens, _⟩ := statementHead_ready head
    cases ends with
    | malformed => exact absurd clean Traced.recover_bind_ne_pure
    | closed arms after =>
      obtain ⟨_, rfl⟩ := Prod.mk.inj (settleStatement_eq_pure clean).2
      obtain ⟨last, between, closes, rfl, _⟩ := (readArms_yields holds size (place.trans before) opens).of_clean reads
      exact before.trans_lt ((between.inOrder.le.trans (Cursor.le_skipBlank last)).trans_lt (Cursor.lt_next closes))

theorem lt_of_readFunction (clean : readFunction below context start c = pure (node, d)) : c < d := by
  unfold readFunction at clean
  split at clean
  · next name parameters brace head =>
    obtain ⟨⟨body, after⟩, reads, rest⟩ := Traced.exists_of_bind_eq_pure clean
    obtain ⟨_, rfl⟩ := Prod.mk.inj (Traced.pure_inj.mp rest)
    obtain ⟨before, _, opens⟩ := (onward_functionHead _ _).of_ok head
    exact before.trans_lt ((readBlock_yields sound.nested size (place.trans before) opens).of_clean reads).1.inOrder.1
  · exact absurd clean malformedDirective_ne_pure

theorem lt_of_readSection (clean : readSection below context start c = pure (node, d)) : c < d := by
  unfold readSection at clean
  split at clean
  · next opens =>
    obtain ⟨arguments, _, ok, rfl, _⟩ := exists_of_readSectionValue_eq_pure clean
    exact Code.lt_of_enclosed opens rfl ok
  · split at clean
    · next name brace head =>
      obtain ⟨⟨body, after⟩, reads, rest⟩ := Traced.exists_of_bind_eq_pure clean
      obtain ⟨_, rfl⟩ := Prod.mk.inj (Traced.pure_inj.mp rest)
      obtain ⟨before, _, opens⟩ := (onward_sectionHead _).of_ok head
      exact before.trans_lt ((readBlock_yields sound.nested size (place.trans before) opens).of_clean reads).1.inOrder.1
    · exact absurd clean malformedDirective_ne_pure

/-- What a keyword starts goes on after the keyword, unless that may stand for itself. -/
theorem le_of_readKeyword (clean : readKeyword below context keyword start c = pure (node, d)) :
    c ≤ d ∧ (keyword.follow = .bare ∨ c < d) := by
  have further : c < d → c ≤ d ∧ (keyword.follow = .bare ∨ c < d) := fun lt => ⟨lt.le, .inr lt⟩
  cases keyword with
  | ifBlock => exact further (lt_of_readConditional sound size place clean)
  | elseBlock => exact absurd clean readStrayElse_ne_pure
  | forLoop | whileLoop => exact further (lt_of_readLoop sound size place clean)
  | matchOn => exact further (lt_of_readMatch sound size place clean)
  | continueLoop | breakLoop =>
    obtain ⟨_, rfl⟩ := Prod.mk.inj (Traced.pure_inj.mp clean)
    exact ⟨le_refl c, .inl rfl⟩
  | layout =>
    obtain ⟨directive, ok⟩ := exists_of_settleDirective_eq_pure clean
    exact ⟨((onward_layoutDirective c).of_ok ok).1, .inl rfl⟩
  | useFile =>
    obtain ⟨directive, ok⟩ := exists_of_settleDirective_eq_pure clean
    exact further (lt_of_useDirective ok)
  | includeFile | render =>
    obtain ⟨directive, ok⟩ := exists_of_settleDirective_eq_pure clean
    exact further (lt_of_stringDirective ok)
  | renderBody =>
    have settles : settleDirective .renderBody start (bareDirective .renderBody c) = pure (node, d) := clean
    obtain ⟨directive, ok⟩ := exists_of_settleDirective_eq_pure settles
    exact ⟨((onward_renderBody c).of_ok ok).1, .inl rfl⟩
  | childContent =>
    have settles : settleDirective .childContent start (bareDirective .childContent c) = pure (node, d) := clean
    obtain ⟨directive, ok⟩ := exists_of_settleDirective_eq_pure settles
    exact ⟨((onward_childContent c).of_ok ok).1, .inl rfl⟩
  | sectionBlock => exact further (lt_of_readSection sound size place clean)
  | raw => exact further (lt_of_readRaw clean)
  | function => exact further (lt_of_readFunction sound size place clean)

end

theorem readKeyword_alone (stands : StandsIn part source s) (alone : below.ReadsAlone source part s)
    (size : context.size = byteLength source) (place : Cursor.ofText part ≤ c) :
    Traced.ReadsAlone s (Node.mapOffsets (s.before + ·)) (readKeyword below context keyword (start.amid s) (c.amid s))
      (readKeyword below (context.sized (byteLength part)) keyword start c) := by
  have bare (statement : Statement Node) (plain : statement.mapAllOffsets (s.before + ·) = statement) :
      Traced.ReadsAlone s (Node.mapOffsets (s.before + ·))
        (pure (⟨.statement statement, (start.amid s).spanTo (c.amid s)⟩, c.amid s))
        (pure (⟨.statement statement, start.spanTo c⟩, c)) := by
    intro node e clean
    obtain ⟨rfl, ends⟩ := Prod.mk.inj (Traced.pure_inj.mp clean)
    obtain rfl := Cursor.amid_inj.mp ends
    refine ⟨⟨.statement statement, start.spanTo c⟩, ?_, rfl⟩
    rw [Node.mapOffsets_statement, plain]
    rfl
  cases keyword with
  | ifBlock => exact readConditional_alone stands alone size place
  | elseBlock => exact fun _ _ clean => absurd clean readStrayElse_ne_pure
  | forLoop | whileLoop => exact readLoop_alone stands alone size place
  | matchOn => exact readMatch_alone stands alone size place
  | continueLoop => exact bare .continueLoop rfl
  | breakLoop => exact bare .breakLoop rfl
  | layout => exact settleDirective_alone (layoutDirective_alone c)
  | useFile => exact settleDirective_alone (useDirective_alone c)
  | includeFile | render => exact settleDirective_alone (stringDirective_alone (fun _ => rfl) c)
  | renderBody =>
    have settles : Traced.ReadsAlone s _ (settleDirective .renderBody (start.amid s) (bareDirective .renderBody (c.amid s)))
        (settleDirective .renderBody start (bareDirective .renderBody c)) :=
      settleDirective_alone (bareDirective_alone rfl c)
    exact settles
  | childContent =>
    have settles : Traced.ReadsAlone s _ (settleDirective .childContent (start.amid s) (bareDirective .childContent (c.amid s)))
        (settleDirective .childContent start (bareDirective .childContent c)) :=
      settleDirective_alone (bareDirective_alone rfl c)
    exact settles
  | sectionBlock => exact readSection_alone stands alone size place
  | raw => exact readRaw_alone
  | function => exact readFunction_alone stands alone size place

/-! ## Names -/

/-- A chain that starts with a name goes on after it, and takes the arguments that follow the name along. -/
theorem Code.chain?_skipIdent {limit : Nat} {chain : Chain} {ch : Char} (head : c.peek = some ch)
    (letter : isIdentStart ch = true) (found : chain? limit c = .ok (some chain)) :
    c.skipIdent ≤ chain.after ∧
      (c.skipIdent.peek = some '(' → ∃ arguments, enclosed limit c.skipIdent = .ok arguments ∧ arguments.after ≤ chain.after) := by
  have plain : ch ≠ '&' := by
    rintro rfl
    exact absurd letter (by decide)
  have here : c.skipWhile (· == '&') = c :=
    Cursor.skipWhile_eq_iff.mpr ⟨[], .refl c, rfl, fun first starts => by simp_all⟩
  obtain ⟨first, after, name, links, _⟩ := exists_of_chain?_eq_some found
  rw [here] at name
  obtain rfl := (named?_eq_some_iff.mp name).1
  refine ⟨segmentsFrom_ok links, fun paren => ?_⟩
  rw [segmentsFrom_eq, segment?_eq] at links
  simp only [paren, Option.some.injEq, Char.reduceEq, false_and, if_false, if_true, delimited?] at links
  cases ok : enclosed limit c.skipIdent with
  | error refusal => simp [ok] at links
  | ok arguments =>
    simp only [ok] at links
    exact ⟨arguments, rfl, segmentsFrom_ok links⟩

theorem callHead?_of_spec {fragment : Code.Enclosed} (opens : start.next.skipIdent.peek = some '(')
    (ok : Code.enclosed room start.next.skipIdent = .ok fragment) (brace : fragment.after.skipBlank.peek = some '{') :
    callHead? room start =
      some (.between start.next start.next.skipIdent, fragment.inner, fragment.after.skipBlank) := by
  simp only [callHead?, if_pos opens, ok, if_pos brace]

theorem exists_of_readCall_eq_pure {name : Fragment} {arguments brace : Cursor}
    (clean : readCall below context start name arguments brace = pure (node, d)) :
    ∃ level body entries, below.enter context brace = pure level ∧
      readBlock level.nested context .component brace = pure (body, d) ∧ callArguments? arguments = some entries ∧
      node = ⟨.component ⟨name, .call, entries, body, false⟩, start.spanTo d⟩ := by
  obtain ⟨level, enters, clean⟩ := Traced.exists_of_bind_eq_pure clean
  obtain ⟨⟨body, after⟩, reads, clean⟩ := Traced.exists_of_bind_eq_pure clean
  simp only at clean
  split at clean
  · next entries found =>
    obtain ⟨rfl, rfl⟩ := Prod.mk.inj (Traced.pure_inj.mp clean)
    exact ⟨level, body, entries, enters, reads, found, rfl⟩
  · exact absurd clean Traced.recover_bind_ne_pure

/-- The arguments of a call hold no nodes, so that only their own offsets move. -/
theorem map_mapAllOffsets_of_callArguments? {f : Nat → Nat} {arguments : Cursor} {entries : List (Argument Node)}
    (found : callArguments? arguments = some entries) :
    entries.map (Argument.mapAllOffsets f) = entries.map (Argument.mapOffsets f) := by
  refine List.map_congr_left fun argument among => ?_
  rw [Argument.mapAllOffsets, Argument.map_eq_self]
  rw [(callArguments?_within found argument among).1]
  simp

theorem readCall_alone {name : Fragment} {arguments brace : Cursor} (stands : StandsIn part source s)
    (alone : below.ReadsAlone source part s) (size : context.size = byteLength source) (place : Cursor.ofText part ≤ brace)
    (opens : (brace.amid s).peek = some '{') :
    Traced.ReadsAlone s (Node.mapOffsets (s.before + ·))
      (readCall below context (start.amid s) (name.mapOffsets (s.before + ·)) (arguments.moved s.before) (brace.amid s))
      (readCall below (context.sized (byteLength part)) start name arguments brace) := by
  intro node e clean
  obtain ⟨level, body, entries, enters, reads, found, rfl⟩ := exists_of_readCall_eq_pure clean
  obtain ⟨holds, entersAlone⟩ := alone.enter (d := brace) enters (context.sized (byteLength part))
  obtain ⟨own, rfl, readsAlone⟩ := readBlock_alone stands holds.amid.nested holds.nested size place opens _ _ reads
  rw [callArguments?_moved] at found
  obtain ⟨ownEntries, ownFound, rfl⟩ := Option.map_eq_some_iff.mp found
  refine ⟨⟨.component ⟨name, .call, ownEntries, own, false⟩, start.spanTo e⟩, ?_, ?_⟩
  · rw [Node.mapOffsets_component, map_mapAllOffsets_of_callArguments? ownFound]
    rfl
  · simp only [readCall, entersAlone, Traced.pure_bind, readsAlone, ownFound]

/-- What is no keyword in the larger text is none alone. -/
theorem Keyword.recognize?_of_amid_none (missing : recognize? (c.amid s).rest = none)
    (ident : (c.amid s).skipIdent = c.skipIdent.amid s) : recognize? c.rest = none := by
  cases found : recognize? c.rest with
  | none => rfl
  | some keyword =>
    rw [recognize?_amid_of_some found ident] at missing
    simp at missing

/-- A call of the larger text whose block starts in the stretch is a call of the stretch. -/
theorem callHead?_of_amid {name : Fragment} {arguments brace : Cursor} (sigil : (start.amid s).next = start.next.amid s)
    (found : callHead? room (start.amid s) = some (name, arguments, brace)) (lt : brace < e.amid s) :
    (start.next.amid s).skipIdent = start.next.skipIdent.amid s ∧
      ∃ ownName inner own, callHead? room start = some (ownName, inner, own) ∧
        name = ownName.mapOffsets (s.before + ·) ∧ arguments = inner.moved s.before ∧ brace = own.amid s := by
  obtain ⟨fragment, opens, ok, rfl, rfl, rfl, starts⟩ := callHead?_spec found
  rw [sigil] at opens ok ⊢
  have within := (Cursor.le_skipBlank fragment.after).trans lt.le
  have ident := Cursor.skipIdent_amid_of_le ((Code.lt_of_enclosed opens rfl ok).le.trans within)
  rw [ident] at opens ok
  obtain ⟨inner, after, onward, _, okAlone, rfl⟩ := Code.enclosed_amid_of_le opens rfl ok within
  have blank := Cursor.skipBlank_amid_of_le lt.le
  simp only [blank] at starts lt
  refine ⟨ident, .between start.next start.next.skipIdent, inner, after.skipBlank, ?_, ?_, rfl, blank⟩
  · exact callHead?_of_spec (Cursor.peek_of_amid onward opens) okAlone
      (Cursor.peek_of_amid (Cursor.amid_lt_amid.mp lt) starts)
  · rw [ident, Fragment.between_amid (Cursor.le_skipIdent start.next)]

/-- Where the larger text has an expression and no call, the stretch has no call: the arguments of a call would belong
to the expression, and its block would follow them in the larger text as well. -/
theorem callHead?_eq_none_of_amid {chain : Code.Chain} {ch : Char} (sigil : (start.amid s).next = start.next.amid s)
    (missing : callHead? room (start.amid s) = none) (head : (start.next.amid s).peek = some ch)
    (letter : isIdentStart ch = true) (read : Code.chain? room (start.next.amid s) = .ok (some chain))
    (ends : chain.after = e.amid s) : callHead? room start = none := by
  obtain ⟨le, takes⟩ := Code.chain?_skipIdent head letter read
  rw [ends] at le takes
  have ident := Cursor.skipIdent_amid_of_le le
  rw [ident] at takes
  cases found : callHead? room start with
  | none => rfl
  | some call =>
    obtain ⟨name, arguments, brace⟩ := call
    obtain ⟨fragment, opens, ok, _, _, rfl, starts⟩ := callHead?_spec found
    have paren := Cursor.peek_amid_of_some (s := s) opens
    obtain ⟨arguments, larger, within⟩ := takes paren
    obtain ⟨inner, after, _, _, same, rfl⟩ := Code.enclosed_amid_of_le paren rfl larger within
    obtain rfl := Except.ok.inj (ok.symm.trans same)
    have brace : (after.amid s).skipBlank.peek = some '{' := Cursor.skipWhile_peek_amid_of_some starts
    rw [← ident, ← sigil] at paren larger
    rw [callHead?_of_spec paren larger brace] at missing
    simp at missing

section

variable (stands : StandsIn part source s) (alone : below.ReadsAlone source part s)
  (size : context.size = byteLength source) (place : Cursor.ofText part ≤ start)

include stands alone size place

theorem readNamed_alone_of_keyword {capital : Bool}
    (word : Keyword.recognize? (start.next.amid s).rest = some keyword) :
    Traced.ReadsAlone s (Node.mapOffsets (s.before + ·))
      (readKeyword below context keyword (start.amid s) (start.next.amid s).skipIdent)
      (readNamed below (context.sized (byteLength part)) start capital) := by
  intro node e clean
  have onward := place.trans (Cursor.le_next start)
  have here := (stands.place onward).trans (Cursor.le_skipIdent _)
  obtain ⟨le, follows⟩ := le_of_readKeyword alone.amid size here clean
  have ident := Cursor.skipIdent_amid_of_le le
  rw [ident] at clean le follows
  have ends := follows.imp_right fun lt => Cursor.ne_nil_of_lt (Cursor.amid_lt_amid.mp lt)
  obtain ⟨_, wordAlone⟩ := Keyword.recognize?_of_amid word ident ends
  obtain ⟨own, same, readsAlone⟩ :=
    readKeyword_alone stands alone size (onward.trans (Cursor.le_skipIdent start.next)) _ _ clean
  refine ⟨own, same, ?_⟩
  simp only [readNamed, wordAlone]
  exact readsAlone

theorem readNamed_alone_of_call {name : Fragment} {arguments brace : Cursor}
    (sigil : (start.amid s).next = start.next.amid s) (word : Keyword.recognize? (start.next.amid s).rest = none)
    (found : callHead? below.room (start.amid s) = some (name, arguments, brace)) :
    Traced.ReadsAlone s (Node.mapOffsets (s.before + ·)) (readCall below context (start.amid s) name arguments brace)
      (readNamed below (context.sized (byteLength part)) start true) := by
  intro node e clean
  have onward := place.trans (Cursor.le_next start)
  have starts := peek_of_callHead? found
  have here := (stands.place onward).trans (sigil ▸ (lt_of_callHead? found).le)
  obtain ⟨level, _, _, enters, reads, _, _⟩ := exists_of_readCall_eq_pure clean
  have holds := (alone.amid.enter here).of_clean enters
  have lt := ((readBlock_yields holds.nested size here starts).of_clean reads).1.inOrder.1
  obtain ⟨ident, ownName, inner, ownBrace, foundAlone, rfl, rfl, rfl⟩ := callHead?_of_amid sigil found lt
  have further := onward.trans (lt_of_callHead? foundAlone).le
  obtain ⟨own, same, readsAlone⟩ := readCall_alone stands alone size further starts _ _ clean
  refine ⟨own, same, ?_⟩
  simp only [readNamed, Keyword.recognize?_of_amid_none word ident, if_true, foundAlone]
  exact readsAlone

end

theorem readNamed_alone_of_expression {ch : Char} {capital : Bool} (sigil : (start.amid s).next = start.next.amid s)
    (head : (start.next.amid s).peek = some ch) (letter : isIdentStart ch = true)
    (word : Keyword.recognize? (start.next.amid s).rest = none)
    (noCall : (if capital then callHead? below.room (start.amid s) else none) = none) :
    Traced.ReadsAlone s (Node.mapOffsets (s.before + ·))
      (readSimpleExpression below.room context false (start.amid s) (start.next.amid s))
      (readNamed below (context.sized (byteLength part)) start capital) := by
  intro node e clean
  obtain ⟨chain, read, ends, _⟩ := exists_of_readSimpleExpression_eq_pure clean
  have ident := Cursor.skipIdent_amid_of_le (ends ▸ (Code.chain?_skipIdent head letter read).1)
  have noCallAlone : (if capital then callHead? below.room start else none) = none := by
    cases capital with
    | false => rfl
    | true =>
      rw [if_pos rfl] at noCall ⊢
      exact callHead?_eq_none_of_amid sigil noCall head letter read ends
  obtain ⟨own, same, readsAlone⟩ : ∃ own, node = own.mapOffsets (s.before + ·) ∧
      readSimpleExpression below.room (context.sized (byteLength part)) false start start.next = pure (own, e) :=
    readSimpleExpression_alone _ _ clean
  refine ⟨own, same, ?_⟩
  simp only [readNamed, Keyword.recognize?_of_amid_none word ident, noCallAlone]
  exact readsAlone

theorem readNamed_alone {ch : Char} {capital : Bool} (stands : StandsIn part source s) (alone : below.ReadsAlone source part s)
    (size : context.size = byteLength source) (place : Cursor.ofText part ≤ start) (more : start.rest ≠ [])
    (head : (start.next.amid s).peek = some ch) (letter : isIdentStart ch = true) :
    Traced.ReadsAlone s (Node.mapOffsets (s.before + ·)) (readNamed below context (start.amid s) capital)
      (readNamed below (context.sized (byteLength part)) start capital) := by
  intro node e clean
  have sigil := Cursor.next_amid (s := s) more
  unfold readNamed at clean
  rw [sigil] at clean
  split at clean
  · next keyword word => exact readNamed_alone_of_keyword stands alone size place word _ _ clean
  · next word =>
    split at clean
    · next name arguments brace found =>
      cases capital with
      | false => simp at found
      | true => exact readNamed_alone_of_call stands alone size place sigil word found _ _ clean
    · next noCall => exact readNamed_alone_of_expression sigil head letter word noCall _ _ clean

/-! ## Sigils -/

/-- A node that is read without giving anything up has given nothing up. -/
theorem Traced.Records.recoveries_eq_nil {bound : Nat} {x : Traced ReadNode} {read : ReadNode}
    (records : x.RecordsNode bound []) (clean : x = Pure.pure read) : read.1.recoveries = [] := by
  have recorded := (records.of_outcome read (by rw [clean]; rfl)).recoveries_eq
  rw [clean, List.flatMap_singleton] at recorded
  exact recorded.symm

theorem readSigil_solid (sound : below.Sound source) (recording : below.Recording) (size : context.size = byteLength source)
    (place : Cursor.ofText source ≤ c) (sigil : c.atSigil = true) (clean : readSigil below context c = pure (node, d)) :
    Solid c d :=
  ((readSigil_yields sound size place sigil).of_clean clean).solid place
    ((readSigil_records recording).recoveries_eq_nil clean)

theorem readTag_solid (sound : below.Sound source) (recording : below.Recording) (size : context.size = byteLength source)
    (place : Cursor.ofText source ≤ c) (opens : c.atTagOpen = true) (clean : readTag below context c = pure (node, d)) :
    Solid c d :=
  ((readTag_yields sound size place opens).of_clean clean).solid place
    ((readTag_records recording).recoveries_eq_nil clean)

/-- What a sigil starts depends on the character after it, which belongs to the construct. -/
theorem readSigil_alone (stands : StandsIn part source s) (alone : below.ReadsAlone source part s)
    (recording : below.Recording) (size : context.size = byteLength source) (place : Cursor.ofText part ≤ start)
    (sigil : (start.amid s).atSigil = true) :
    Traced.ReadsAlone s (Node.mapOffsets (s.before + ·)) (readSigil below context (start.amid s))
      (readSigil below (context.sized (byteLength part)) start) := by
  intro node e clean
  have lt := (readSigil_solid alone.amid recording size (stands.place place) sigil clean).next_lt
  have head := Cursor.peek_of_atSigil sigil
  have more := Cursor.ne_nil_of_lt (Cursor.amid_lt_amid.mp ((Cursor.lt_next head).trans lt))
  have next := Cursor.next_amid (s := s) more
  rw [next] at lt
  have further := Cursor.ne_nil_of_lt (Cursor.amid_lt_amid.mp lt)
  unfold readSigil at clean ⊢
  rw [next, Cursor.peek_amid further] at clean
  split at clean
  · exact absurd clean invalidSigil_ne_pure
  · next ch mark =>
    have larger : (start.next.amid s).peek = some ch := (Cursor.peek_amid further).trans mark
    by_cases star : ch = '*'
    · rw [if_pos star] at clean ⊢
      exact readComment_alone head (next ▸ star ▸ larger) _ _ clean
    rw [if_neg star] at clean ⊢
    by_cases brace : ch = '{'
    · rw [if_pos brace, readCodeBlock] at clean
      rw [if_pos brace]
      subst brace
      rw [next] at clean
      exact readEnclosed_alone larger rfl (fun _ _ => rfl) _ _ clean
    rw [if_neg brace] at clean ⊢
    by_cases paren : ch = '('
    · rw [if_pos paren] at clean ⊢
      exact readParenExpression_alone (paren ▸ larger) _ _ clean
    rw [if_neg paren] at clean ⊢
    by_cases hash : ch = '#'
    · rw [if_pos hash] at clean ⊢
      exact readRawOutput_alone head (next ▸ hash ▸ larger) _ _ clean
    rw [if_neg hash] at clean ⊢
    split at clean
    · next letter =>
      rw [if_pos letter]
      exact readNamed_alone stands alone size place more larger letter _ _ clean
    · next letter =>
      rw [if_neg letter]
      split at clean
      · next borrow =>
        rw [if_pos borrow]
        exact readSimpleExpression_alone _ _ clean
      · exact absurd clean invalidSigil_ne_pure

end SigilTemplate
