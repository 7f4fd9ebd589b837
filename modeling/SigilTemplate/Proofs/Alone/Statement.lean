import SigilTemplate.Proofs.Alone.Construct
import SigilTemplate.Proofs.Markup.Keyword

/-!
Conditions and loops of a stretch, read alone. What follows a keyword decides
whether it is one, so a keyword is recognized alone if the character after it
belongs to the stretch, or if it stands for itself. An `else` that does not
follow in the larger text does not follow alone.
-/

namespace SigilTemplate
open Text

variable {source part : List Char} {s : Surroundings} {context : Context} {below : Below} {level : Level}
  {c d e : Cursor} {keyword : Keyword}

/-! ## Keywords -/

namespace Keyword

theorem accepts_amid {follow : Follow} (accepts : follow.accepts c.peek = true) :
    follow.accepts (c.amid s).peek = true := by
  cases follow with
  | head => exact Cursor.peek_any_amid accepts
  | argument => exact Cursor.peek_any_amid accepts
  | bare => rfl

/-- What accepts the end of the text accepts anything. -/
theorem ne_nil_of_accepts {follow : Follow} (accepts : follow.accepts c.peek = true) :
    follow = .bare ∨ c.rest ≠ [] := by
  cases starts : c.rest with
  | cons ch rest => simp
  | nil =>
    have ended : c.peek = none := Cursor.peek_eq_none.mpr starts
    cases follow <;> simp_all [Follow.accepts]

theorem identHead_amid (ident : (c.amid s).skipIdent = c.skipIdent.amid s) :
    identHead (c.amid s).rest = identHead c.rest := by
  have larger := Cursor.reads_skipIdent (c.amid s)
  rw [ident] at larger
  exact (Cursor.reads_amid_iff.mp larger).textTo_eq.symm.trans (Cursor.reads_skipIdent c).textTo_eq

/-- A keyword that ends in the stretch is one alone, if it may stand at the end or does not. -/
theorem recognize?_of_amid (found : recognize? (c.amid s).rest = some keyword) (ident : (c.amid s).skipIdent = d.amid s)
    (follows : keyword.follow = .bare ∨ d.rest ≠ []) : c.skipIdent = d ∧ recognize? c.rest = some keyword := by
  have alone := Cursor.skipIdent_of_amid ident
  subst alone
  refine ⟨rfl, ?_⟩
  rw [recognize?_rest, identHead_amid ident] at found
  rw [recognize?_rest]
  obtain ⟨word, accepts⟩ := Option.filter_eq_some_iff.mp found
  refine Option.filter_eq_some_iff.mpr ⟨word, ?_⟩
  rcases follows with bare | more
  · rw [bare]
    rfl
  · rwa [ident, Cursor.peek_amid more] at accepts

/-- What is a keyword alone is one in the larger text as well, where the word is the same. -/
theorem recognize?_amid_of_some (found : recognize? c.rest = some keyword)
    (ident : (c.amid s).skipIdent = c.skipIdent.amid s) : recognize? (c.amid s).rest = some keyword := by
  rw [recognize?_rest] at found
  rw [recognize?_rest, identHead_amid ident, ident]
  obtain ⟨word, accepts⟩ := Option.filter_eq_some_iff.mp found
  exact Option.filter_eq_some_iff.mpr ⟨word, accepts_amid accepts⟩

/-- A keyword that something must follow ends before the text does. -/
theorem rest_ne_nil_of_recognize? (found : recognize? c.rest = some keyword) (follow : keyword.follow ≠ .bare) :
    c.skipIdent.rest ≠ [] := by
  rw [recognize?_rest] at found
  obtain ⟨_, accepts⟩ := Option.filter_eq_some_iff.mp found
  exact (ne_nil_of_accepts accepts).resolve_left follow

/-- The word `if` is all of the name at its place. -/
theorem skipIdent_eq_skip_two (found : recognize? c.rest = some .ifBlock) : c.skipIdent = c.skip 2 := by
  have name := Cursor.reads_skipIdent c
  rw [identHead_of_recognize? found] at name
  exact Cursor.reads_unique name (reads_skip_two_of_recognize? found)

end Keyword

/-! ## Heads -/

theorem statementHead_of_amid {code : Fragment} {brace : Cursor} (more : brace.rest ≠ [])
    (head : statementHead (c.amid s) = .ready code (brace.amid s)) :
    ∃ own, code = own.mapOffsets (s.before + ·) ∧ statementHead c = .ready own brace := by
  obtain ⟨le, _, rfl⟩ := statementHead_ready head
  unfold statementHead at head
  split at head
  · next ends =>
    obtain ⟨_, rfl⟩ := Head.ready.inj head
    refine ⟨.trimmed (c.upTo brace), ?_, ?_⟩
    · rw [Cursor.upTo_amid (Cursor.amid_le_amid.mp le), Fragment.trimmed_moved]
    · rw [statementHead, Code.headEnd_of_amid ends more]
  · simp at head

theorem missingBlock_ne_pure {start stop : Cursor} {read : ReadNode} : missingBlock keyword start stop ≠ pure read :=
  Traced.recover_bind_ne_pure

theorem settleStatement_eq_pure {head : Fragment} {statement : Statement Node} {start after : Cursor} {read : ReadNode}
    (clean : settleStatement keyword head statement start after = pure read) :
    head.isEmpty = false ∧ read = (⟨.statement statement, start.spanTo after⟩, after) := by
  unfold settleStatement at clean
  split at clean
  · exact absurd clean Traced.recover_bind_ne_pure
  · next solid => exact ⟨by simpa using solid, (Traced.pure_inj.mp clean).symm⟩

theorem settleStatement_alone {head : Fragment} {statement : Statement Node} {start after : Cursor}
    (solid : head.isEmpty = false) :
    settleStatement keyword head statement start after = pure (⟨.statement statement, start.spanTo after⟩, after) := by
  rw [settleStatement, if_neg (by simp [solid])]

/-! ## What follows the block of a condition -/

/-- Another condition comes after an `else`, with white space between the two. -/
def ChainsIf (afterElse : Cursor) : Prop :=
  afterElse.pos < afterElse.skipBlank.pos ∧ Keyword.recognize? afterElse.skipBlank.rest = some .ifBlock

/-- What comes next is no `else` that has a block or another condition. -/
def NoElse (c : Cursor) : Prop :=
  ∀ afterElse, c.skipBlank.eatText? ['e', 'l', 's', 'e'] = some afterElse →
    afterElse.skipBlank.peek ≠ some '{' ∧ ¬ChainsIf afterElse

/-- How what follows the block of a condition is read without giving anything up. -/
inductive ElseRead (level : Level) (context : Context) (c : Cursor) : Option (ElseClause Node) → Cursor → Prop
  | none (missing : NoElse c) : ElseRead level context c none c
  | block {afterElse after : Cursor} {body : List Node}
      (word : c.skipBlank.eatText? ['e', 'l', 's', 'e'] = some afterElse)
      (opens : afterElse.skipBlank.peek = some '{')
      (reads : readBlock level.nested context (.body .elseBlock) afterElse.skipBlank = pure (body, after)) :
      ElseRead level context c (some (.block body)) after
  | chained {afterElse after : Cursor} {node : Node}
      (word : c.skipBlank.eatText? ['e', 'l', 's', 'e'] = some afterElse)
      (notBlock : afterElse.skipBlank.peek ≠ some '{') (chains : ChainsIf afterElse)
      (reads : level.conditional context afterElse.skipBlank (afterElse.skipBlank.skip 2) = pure (node, after)) :
      ElseRead level context c (some (.chained node)) after

theorem ElseRead.of_eq_pure {otherwise : Option (ElseClause Node)}
    (clean : readElse level context c = pure (otherwise, d)) : ElseRead level context c otherwise d := by
  unfold readElse at clean
  split at clean
  · next missing =>
    obtain ⟨rfl, rfl⟩ := Prod.mk.inj (Traced.pure_inj.mp clean)
    exact .none fun _ found => absurd (missing.symm.trans found) (by simp)
  · next afterElse word =>
    simp only at clean
    split at clean
    · next opens =>
      obtain ⟨⟨body, after⟩, reads, rest⟩ := Traced.exists_of_bind_eq_pure clean
      obtain ⟨rfl, rfl⟩ := Prod.mk.inj (Traced.pure_inj.mp rest)
      exact .block word opens reads
    · next notBlock =>
      split at clean
      · next chains =>
        obtain ⟨⟨node, after⟩, reads, rest⟩ := Traced.exists_of_bind_eq_pure clean
        obtain ⟨rfl, rfl⟩ := Prod.mk.inj (Traced.pure_inj.mp rest)
        exact .chained word notBlock chains reads
      · next notIf =>
        obtain ⟨rfl, rfl⟩ := Prod.mk.inj (Traced.pure_inj.mp clean)
        refine .none fun other found => ?_
        obtain rfl := Option.some.inj (word.symm.trans found)
        exact ⟨notBlock, notIf⟩

theorem readElse_eq_pure_iff {otherwise : Option (ElseClause Node)} :
    readElse level context c = pure (otherwise, d) ↔ ElseRead level context c otherwise d := by
  refine ⟨ElseRead.of_eq_pure, fun read => ?_⟩
  cases read with
  | none missing =>
    unfold readElse
    split
    · rfl
    · next afterElse word =>
      obtain ⟨notBlock, notIf⟩ := missing afterElse word
      exact (if_neg notBlock).trans (if_neg notIf)
  | block word opens reads =>
    rw [readElse, word]
    simp only
    rw [if_pos opens, reads, Traced.pure_bind]
  | chained word notBlock chains reads =>
    obtain ⟨gap, next⟩ := chains
    rw [readElse, word]
    simp only
    rw [if_neg notBlock, if_pos ⟨gap, next⟩, reads, Traced.pure_bind]

theorem le_afterElse {afterElse : Cursor} (word : c.skipBlank.eatText? ['e', 'l', 's', 'e'] = some afterElse) :
    c ≤ afterElse :=
  (Cursor.le_skipBlank c).trans (Cursor.le_of_reads (Cursor.reads_eatText? word))

/-- An `else` with something behind it in the stretch is an `else` of the stretch. -/
theorem exists_afterElse_of_amid {afterElse : Cursor}
    (word : (c.amid s).skipBlank.eatText? ['e', 'l', 's', 'e'] = some afterElse) (le : afterElse.skipBlank ≤ e.amid s) :
    ∃ own, afterElse = own.amid s ∧ c.skipBlank.eatText? ['e', 'l', 's', 'e'] = some own ∧
      (own.amid s).skipBlank = own.skipBlank.amid s := by
  obtain ⟨own, rfl, found⟩ := Cursor.skipWhile_eatText?_amid word ((Cursor.le_skipBlank afterElse).trans le)
  exact ⟨own, rfl, found, Cursor.skipBlank_amid_of_le le⟩

theorem ChainsIf.amid (chains : ChainsIf c) : ChainsIf (c.amid s) := by
  obtain ⟨gap, next⟩ := chains
  have more := Keyword.rest_ne_nil_of_recognize? next (by simp [Keyword.follow])
  have blank : (c.amid s).skipBlank = c.skipBlank.amid s :=
    Cursor.skipWhile_amid (Cursor.ne_nil_of_le (Cursor.le_skipIdent c.skipBlank) more)
  refine ⟨?_, ?_⟩
  · rw [blank]
    simpa using gap
  · rw [blank]
    exact Keyword.recognize?_amid_of_some next (Cursor.skipIdent_amid more)

/-- What would follow alone would follow in the larger text as well. -/
theorem NoElse.of_amid (missing : NoElse (c.amid s)) : NoElse c := by
  intro own word
  obtain ⟨notBlock, notIf⟩ := missing (own.amid s) (Cursor.skipWhile_eatText?_amid_of_some (by simp) word)
  exact ⟨fun opens => notBlock (Cursor.skipWhile_peek_amid_of_some opens), fun chains => notIf chains.amid⟩

/-- The condition that an `else` chains starts in the stretch, if it goes on there. -/
theorem ChainsIf.of_amid (chains : ChainsIf (c.amid s)) (blank : (c.amid s).skipBlank = c.skipBlank.amid s)
    (lt : (c.skipBlank.amid s).skip 2 < e.amid s) :
    ChainsIf c ∧ (c.skipBlank.amid s).skip 2 = (c.skipBlank.skip 2).amid s := by
  obtain ⟨gap, next⟩ := chains
  rw [blank] at gap next
  have word := Keyword.reads_skip_two_of_recognize? next
  obtain ⟨condition, same, _, _⟩ := Cursor.exists_amid (Cursor.le_of_reads word) lt.le
  rw [same] at lt
  have more := Cursor.ne_nil_of_lt (Cursor.amid_lt_amid.mp lt)
  obtain ⟨ident, nextAlone⟩ :=
    Keyword.recognize?_of_amid next ((Keyword.skipIdent_eq_skip_two next).trans same) (.inr more)
  have skip : c.skipBlank.skip 2 = condition := (Keyword.skipIdent_eq_skip_two nextAlone).symm.trans ident
  exact ⟨⟨by simpa using gap, nextAlone⟩, by rw [same, skip]⟩

/-! ## Conditions -/

theorem readElse_alone (stands : StandsIn part source s) (alone : level.ReadsAlone source part s)
    (size : context.size = byteLength source) (place : Cursor.ofText part ≤ c) :
    Traced.ReadsAlone s (Option.map (ElseClause.map (Node.mapOffsets (s.before + ·))))
      (readElse level context (c.amid s)) (readElse level (context.sized (byteLength part)) c) := by
  intro value e clean
  generalize ends : e.amid s = after at clean
  cases readElse_eq_pure_iff.mp clean with
  | none missing =>
    obtain rfl := Cursor.amid_inj.mp ends
    exact ⟨none, rfl, readElse_eq_pure_iff.mpr (.none missing.of_amid)⟩
  | @block afterElse _ body word opens reads =>
    subst ends
    have onward := (stands.place place).trans ((le_afterElse word).trans (Cursor.le_skipBlank afterElse))
    have lt := ((readBlock_yields alone.amid.nested size onward opens).of_clean reads).1.inOrder.1
    obtain ⟨own, rfl, wordAlone, blank⟩ := exists_afterElse_of_amid word lt.le
    rw [blank] at reads opens lt
    have further := place.trans ((le_afterElse wordAlone).trans (Cursor.le_skipBlank own))
    obtain ⟨ownBody, rfl, readsAlone⟩ :=
      readBlock_alone stands alone.amid.nested alone.nested size further opens _ _ reads
    have opensAlone := Cursor.peek_of_amid (Cursor.amid_lt_amid.mp lt) opens
    exact ⟨some (.block ownBody), rfl, readElse_eq_pure_iff.mpr (.block wordAlone opensAlone readsAlone)⟩
  | @chained afterElse _ node word notBlock chains reads =>
    subst ends
    have onward := (stands.place place).trans ((le_afterElse word).trans (Cursor.le_skipBlank afterElse))
    have opens : Opens .ifBlock afterElse.skipBlank (afterElse.skipBlank.skip 2) := .chained chains.2
    have lt := alone.goesOn context _ _ _ _ size onward opens reads
    have before := (Cursor.le_of_reads (Keyword.reads_skip_two_of_recognize? chains.2)).trans lt.le
    obtain ⟨own, rfl, wordAlone, blank⟩ := exists_afterElse_of_amid word before
    rw [blank] at reads opens lt notBlock
    obtain ⟨chainsAlone, same⟩ := chains.of_amid blank lt
    rw [same] at reads opens
    have further := place.trans ((le_afterElse wordAlone).trans (Cursor.le_skipBlank own))
    obtain ⟨ownNode, rfl, readsAlone⟩ :=
      alone.conditional context own.skipBlank (own.skipBlank.skip 2) size further opens _ _ reads
    exact ⟨some (.chained ownNode), rfl,
      readElse_eq_pure_iff.mpr (.chained wordAlone (Cursor.peek_ne_of_amid notBlock) chainsAlone readsAlone)⟩

/-- A condition that is read has a head, a body and perhaps an `else`. -/
theorem exists_of_readConditional_eq_pure {start : Cursor} {node : Node}
    (clean : readConditional below context start c = pure (node, d)) :
    ∃ level condition brace body middle otherwise, below.enter context c = pure level ∧
      statementHead c = .ready condition brace ∧ condition.isEmpty = false ∧
      readBlock level.nested context (.body .ifBlock) brace = pure (body, middle) ∧
      readElse level context middle = pure (otherwise, d) ∧
      node = ⟨.statement (.conditional condition body otherwise), start.spanTo d⟩ := by
  obtain ⟨level, enters, clean⟩ := Traced.exists_of_bind_eq_pure clean
  split at clean
  · exact absurd clean missingBlock_ne_pure
  · next condition brace head =>
    obtain ⟨⟨body, middle⟩, reads, clean⟩ := Traced.exists_of_bind_eq_pure clean
    obtain ⟨⟨otherwise, after⟩, follows, clean⟩ := Traced.exists_of_bind_eq_pure clean
    obtain ⟨solid, read⟩ := settleStatement_eq_pure clean
    obtain ⟨rfl, rfl⟩ := Prod.mk.inj read
    exact ⟨level, condition, brace, body, middle, otherwise, enters, head, solid, reads, follows, rfl⟩

theorem readConditional_alone {start : Cursor} (stands : StandsIn part source s) (alone : below.ReadsAlone source part s)
    (size : context.size = byteLength source) (place : Cursor.ofText part ≤ c) :
    Traced.ReadsAlone s (Node.mapOffsets (s.before + ·)) (readConditional below context (start.amid s) (c.amid s))
      (readConditional below (context.sized (byteLength part)) start c) := by
  intro node e clean
  obtain ⟨level, condition, brace, body, middle, otherwise, enters, head, solid, reads, follows, rfl⟩ :=
    exists_of_readConditional_eq_pure clean
  obtain ⟨holds, entersAlone⟩ := alone.enter (d := c) enters (context.sized (byteLength part))
  obtain ⟨before, opens, _⟩ := statementHead_ready head
  have here := (stands.place place).trans before
  have lt : brace < middle := ((readBlock_yields holds.amid.nested size here opens).of_clean reads).1.inOrder.1
  have tail : middle ≤ e.amid s := ((readElse_yields holds.amid size (here.trans lt.le)).of_clean follows).1.inOrder.le
  obtain ⟨brace, rfl, le, _⟩ := Cursor.exists_amid before (lt.le.trans tail)
  have more := Cursor.ne_nil_of_lt (Cursor.amid_lt_amid.mp (lt.trans_le tail))
  obtain ⟨own, rfl, headAlone⟩ := statementHead_of_amid more head
  obtain ⟨middle, rfl, further, _⟩ := Cursor.exists_amid lt.le tail
  obtain ⟨ownBody, rfl, readsAlone⟩ :=
    readBlock_alone stands holds.amid.nested holds.nested size (place.trans le) opens _ _ reads
  obtain ⟨ownElse, rfl, followsAlone⟩ := readElse_alone stands holds size (place.trans (le.trans further)) _ _ follows
  refine ⟨⟨.statement (.conditional own ownBody ownElse), start.spanTo e⟩, ?_, ?_⟩
  · rw [Node.mapOffsets_statement]
    rfl
  · simp only [readConditional, entersAlone, Traced.pure_bind, headAlone, readsAlone, followsAlone]
    exact settleStatement_alone solid

/-- A condition goes on after the place where its head starts. -/
theorem lt_of_readConditional {start : Cursor} {node : Node} (sound : below.Sound source)
    (size : context.size = byteLength source) (place : Cursor.ofText source ≤ c)
    (clean : readConditional below context start c = pure (node, d)) : c < d := by
  obtain ⟨level, condition, brace, body, middle, otherwise, enters, head, _, reads, follows, _⟩ :=
    exists_of_readConditional_eq_pure clean
  have holds := (sound.enter place).of_clean enters
  obtain ⟨before, opens, _⟩ := statementHead_ready head
  have here := place.trans before
  have lt : brace < middle := ((readBlock_yields holds.nested size here opens).of_clean reads).1.inOrder.1
  exact before.trans_lt (lt.trans_le ((readElse_yields holds size (here.trans lt.le)).of_clean follows).1.inOrder.le)

theorem readLoop_alone {start : Cursor} (stands : StandsIn part source s) (alone : below.ReadsAlone source part s)
    (size : context.size = byteLength source) (place : Cursor.ofText part ≤ c) :
    Traced.ReadsAlone s (Node.mapOffsets (s.before + ·)) (readLoop below context keyword (start.amid s) (c.amid s))
      (readLoop below (context.sized (byteLength part)) keyword start c) := by
  intro node e clean
  obtain ⟨level, enters, clean⟩ := Traced.exists_of_bind_eq_pure clean
  obtain ⟨holds, entersAlone⟩ := alone.enter (d := c) enters (context.sized (byteLength part))
  split at clean
  · exact absurd clean missingBlock_ne_pure
  · next header brace head =>
    obtain ⟨⟨body, after⟩, reads, clean⟩ := Traced.exists_of_bind_eq_pure clean
    obtain ⟨solid, read⟩ := settleStatement_eq_pure clean
    obtain ⟨rfl, rfl⟩ := Prod.mk.inj read
    obtain ⟨before, opens, _⟩ := statementHead_ready head
    have here := (stands.place place).trans before
    have lt : brace < e.amid s := ((readBlock_yields holds.amid.nested size here opens).of_clean reads).1.inOrder.1
    obtain ⟨brace, rfl, le, _⟩ := Cursor.exists_amid before lt.le
    obtain ⟨own, rfl, headAlone⟩ := statementHead_of_amid (Cursor.ne_nil_of_lt (Cursor.amid_lt_amid.mp lt)) head
    obtain ⟨ownBody, rfl, readsAlone⟩ :=
      readBlock_alone stands holds.amid.nested holds.nested size (place.trans le) opens _ _ reads
    refine ⟨⟨.statement (loopStatement keyword own ownBody), start.spanTo e⟩, ?_, ?_⟩
    · rw [Node.mapOffsets_statement, loopStatement, loopStatement]
      split <;> rfl
    · simp only [readLoop, entersAlone, Traced.pure_bind, headAlone, readsAlone]
      exact settleStatement_alone solid

/-- An `else` without an `if` is always given up. -/
theorem readStrayElse_ne_pure {start : Cursor} {read : ReadNode} : readStrayElse below context start c ≠ pure read := by
  intro clean
  simp only [readStrayElse] at clean
  split at clean
  · obtain ⟨_, _, rest⟩ := Traced.exists_of_bind_eq_pure clean
    exact Traced.recover_bind_ne_pure rest
  · split at clean
    · obtain ⟨_, _, rest⟩ := Traced.exists_of_bind_eq_pure clean
      rw [Traced.pure_bind] at rest
      exact Traced.recover_bind_ne_pure rest
    · rw [Traced.pure_bind] at clean
      exact Traced.recover_bind_ne_pure clean

end SigilTemplate
