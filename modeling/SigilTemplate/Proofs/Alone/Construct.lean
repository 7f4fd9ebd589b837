import SigilTemplate.Proofs.Alone.Level
import SigilTemplate.Reading.Inline

/-!
Comments, code, expressions and directives of a stretch, read alone. None of
them looks beyond its end for anything that it does not take along.
-/

namespace SigilTemplate
open Text

variable {source part : List Char} {s : Surroundings} {context other : Context} {below : Below} {room : Nat}

/-! ## Constructs without a region -/

theorem invalidSigil_ne_pure {start stop : Cursor} {read : ReadNode} : invalidSigil start stop ≠ pure read :=
  Traced.recover_bind_ne_pure

theorem refusedFragment_ne_pure {start : Cursor} {refusal : Code.Refusal} {read : ReadNode} :
    refusedFragment context start refusal ≠ pure read := by
  cases refusal with
  | mismatched => exact Traced.recover_bind_ne_pure
  | unterminated | tooDeep => exact Traced.fail_ne_pure

theorem readComment_alone {start : Cursor} (sigil : (start.amid s).peek = some '@') (star : (start.amid s).next.peek = some '*') :
    Traced.ReadsAlone s (Node.mapOffsets (s.before + ·)) (readComment context (start.amid s)) (readComment other start) := by
  intro node e clean
  simp only [readComment] at clean
  split at clean
  · next close closes =>
    obtain ⟨rfl, ends⟩ := Prod.mk.inj (Traced.pure_inj.mp clean)
    obtain ⟨rest, mark⟩ := Cursor.startsWith_of_commentClose? closes
    have last := Cursor.reads_skip mark
    rw [show (['*', '@'] : List Char).length = 2 from rfl, ends] at last
    have onward := Cursor.le_of_commentClose? closes
    have before := onward.trans_lt (Cursor.lt_of_reads last (by simp))
    have second := (Cursor.lt_next star).trans before
    have first := (Cursor.lt_next sigil).trans second
    have more := Cursor.ne_nil_of_lt (Cursor.amid_lt_amid.mp first)
    rw [Cursor.next_amid more] at second
    have inside := Cursor.skip_two_amid (s := s) more (Cursor.ne_nil_of_lt (Cursor.amid_lt_amid.mp second))
    rw [inside] at closes onward
    obtain ⟨close, rfl, le, _⟩ := Cursor.exists_amid onward (Cursor.le_of_reads last)
    have reads := Cursor.reads_amid_iff.mp last
    have alone : (start.skip 2).commentClose? = some close :=
      Cursor.commentClose?_of_amid closes reads.rest_eq
    have after : close.skip 2 = e := Cursor.skip_eq_of_reads reads
    rw [inside, Cursor.textTo_amid le, ends]
    refine ⟨⟨.comment (String.ofList ((start.skip 2).textTo close)), start.spanTo e⟩, ?_, ?_⟩
    · rw [Node.mapOffsets_mk]
      rfl
    · simp only [readComment, alone, after]
  · exact absurd clean Traced.fail_ne_pure

theorem exists_of_readEnclosed_eq_pure {form : String → Form Node} {start opener d : Cursor} {node : Node}
    (clean : readEnclosed room context form start opener = pure (node, d)) :
    ∃ inner, Code.enclosed room opener = .ok ⟨inner, d⟩ ∧ node = ⟨form (String.ofList inner.rest), start.spanTo d⟩ := by
  unfold readEnclosed at clean
  split at clean
  · next fragment ok =>
    obtain ⟨rfl, rfl⟩ := Prod.mk.inj (Traced.pure_inj.mp clean)
    exact ⟨fragment.inner, ok, rfl⟩
  · exact absurd clean refusedFragment_ne_pure

theorem readEnclosed_alone {form : String → Form Node} {start opener : Cursor} {ch : Char}
    (head : (opener.amid s).peek = some ch) (opens : Code.isOpener ch = true)
    (plain : ∀ f code, ((form code).map (Node.mapOffsets f)).mapOffsets f = form code) :
    Traced.ReadsAlone s (Node.mapOffsets (s.before + ·)) (readEnclosed room context form (start.amid s) (opener.amid s))
      (readEnclosed room other form start opener) := by
  intro node e clean
  obtain ⟨inner, ok, rfl⟩ := exists_of_readEnclosed_eq_pure clean
  obtain ⟨own, after, _, _, alone, same⟩ := Code.enclosed_amid_of_le head opens ok (le_refl _)
  obtain ⟨rfl, last⟩ := Code.Enclosed.mk.inj same
  obtain rfl := Cursor.amid_inj.mp last
  refine ⟨⟨form (String.ofList own.rest), start.spanTo e⟩, ?_, ?_⟩
  · rw [Node.mapOffsets_mk, plain]
    rfl
  · simp only [readEnclosed, alone]

theorem exists_of_readSimpleExpression_eq_pure {raw : Bool} {start name d : Cursor} {node : Node}
    (clean : readSimpleExpression room context raw start name = pure (node, d)) :
    ∃ chain, Code.chain? room name = .ok (some chain) ∧ chain.after = d ∧
      node = ⟨.expression ⟨.simple chain.refs chain.segments, String.ofList (name.textTo d), raw⟩, start.spanTo d⟩ := by
  unfold readSimpleExpression at clean
  split at clean
  · next chain ok =>
    obtain ⟨rfl, rfl⟩ := Prod.mk.inj (Traced.pure_inj.mp clean)
    exact ⟨chain, ok, rfl, rfl⟩
  · exact absurd clean invalidSigil_ne_pure
  · exact absurd clean refusedFragment_ne_pure

theorem readSimpleExpression_alone {raw : Bool} {start name : Cursor} :
    Traced.ReadsAlone s (Node.mapOffsets (s.before + ·))
      (readSimpleExpression room context raw (start.amid s) (name.amid s))
      (readSimpleExpression room other raw start name) := by
  intro node e clean
  obtain ⟨chain, ok, ends, rfl⟩ := exists_of_readSimpleExpression_eq_pure clean
  have lt := Code.chain?_ok ok
  rw [ends] at lt
  have le : name ≤ e := (Cursor.amid_lt_amid.mp lt).le
  have alone := Code.chain?_of_amid ok ends
  rw [Cursor.textTo_amid le]
  refine ⟨⟨.expression ⟨.simple chain.refs chain.segments, String.ofList (name.textTo e), raw⟩, start.spanTo e⟩, ?_, ?_⟩
  · rw [Node.mapOffsets_mk]
    rfl
  · simp only [readSimpleExpression, alone]

theorem readParenExpression_alone {raw : Bool} {start opener : Cursor} (head : (opener.amid s).peek = some '(') :
    Traced.ReadsAlone s (Node.mapOffsets (s.before + ·))
      (readParenExpression room context raw (start.amid s) (opener.amid s))
      (readParenExpression room other raw start opener) :=
  readEnclosed_alone head rfl fun _ _ => rfl

theorem readRawOutput_alone {start : Cursor} (sigil : (start.amid s).peek = some '@')
    (mark : (start.amid s).next.peek = some '#') :
    Traced.ReadsAlone s (Node.mapOffsets (s.before + ·)) (readRawOutput room context (start.amid s))
      (readRawOutput room other start) := by
  intro node e clean
  simp only [readRawOutput] at clean
  have reached : ∀ {x}, (start.amid s).skip 2 < x → x ≤ e.amid s → (start.amid s).skip 2 = (start.skip 2).amid s := by
    intro x lt le
    have second := (Cursor.lt_next mark).trans_le (lt.le.trans le)
    have more := Cursor.ne_nil_of_lt (Cursor.amid_lt_amid.mp ((Cursor.lt_next sigil).trans second))
    rw [Cursor.next_amid more] at second
    exact Cursor.skip_two_amid more (Cursor.ne_nil_of_lt (Cursor.amid_lt_amid.mp second))
  split at clean
  · next ch head =>
    split at clean
    · next paren =>
      subst paren
      obtain ⟨inner, ok, _⟩ := exists_of_readEnclosed_eq_pure clean
      have lt := Code.lt_of_enclosed head rfl ok
      rw [reached lt (le_refl _)] at head clean lt
      obtain ⟨own, same, alone⟩ : ∃ own, node = own.mapOffsets (s.before + ·) ∧
          readParenExpression room other true start (start.skip 2) = pure (own, e) := readParenExpression_alone head _ _ clean
      have here := Cursor.peek_of_amid (Cursor.amid_lt_amid.mp lt) head
      refine ⟨own, same, ?_⟩
      simp only [readRawOutput, here, if_true]
      exact alone
    · next paren =>
      split at clean
      · next starts =>
        obtain ⟨chain, ok, ends, _⟩ := exists_of_readSimpleExpression_eq_pure clean
        have lt := Code.chain?_ok ok
        rw [ends] at lt
        rw [reached lt (le_refl _)] at head clean lt
        obtain ⟨own, same, alone⟩ : ∃ own, node = own.mapOffsets (s.before + ·) ∧
            readSimpleExpression room other true start (start.skip 2) = pure (own, e) := readSimpleExpression_alone _ _ clean
        have here := Cursor.peek_of_amid (Cursor.amid_lt_amid.mp lt) head
        refine ⟨own, same, ?_⟩
        simp only [readRawOutput, here, if_neg paren, if_pos starts]
        exact alone
      · exact absurd clean invalidSigil_ne_pure
  · exact absurd clean invalidSigil_ne_pure

/-! ## Directives -/

theorem malformedDirective_ne_pure {keyword : Keyword} {start stop : Cursor} {read : ReadNode} :
    malformedDirective keyword start stop ≠ pure read :=
  Traced.recover_bind_ne_pure

theorem settleDirective_alone {keyword : Keyword} {start : Cursor} {amid alone : Except Cursor (Directive Node × Cursor)}
    (attempts : AttemptsAlone s (Directive.mapAllOffsets (s.before + ·)) amid alone) :
    Traced.ReadsAlone s (Node.mapOffsets (s.before + ·)) (settleDirective keyword (start.amid s) amid)
      (settleDirective keyword start alone) := by
  intro node e clean
  cases amid with
  | error stop => exact absurd clean malformedDirective_ne_pure
  | ok read =>
    obtain ⟨rfl, ends⟩ := Prod.mk.inj (Traced.pure_inj.mp clean)
    obtain ⟨own, same, here⟩ := attempts read.1 e (by rw [← ends])
    rw [same, ends]
    refine ⟨⟨.directive own, start.spanTo e⟩, ?_, ?_⟩
    · rw [Node.mapOffsets_directive]
      rfl
    · rw [here]
      rfl

theorem readRaw_alone {start c : Cursor} :
    Traced.ReadsAlone s (Node.mapOffsets (s.before + ·)) (readRaw context (start.amid s) (c.amid s))
      (readRaw other start c) := by
  intro node e clean
  simp only [readRaw] at clean
  split at clean
  · next opens =>
    split at clean
    · next close closes =>
      obtain ⟨rfl, ends⟩ := Prod.mk.inj (Traced.pure_inj.mp clean)
      obtain ⟨between, mark⟩ := rawClose?_spec closes
      have inside : (c.amid s).skipBlank.next ≤ close := between
      have last : close < e.amid s := ends ▸ Cursor.lt_next mark
      have brace := (Cursor.lt_next opens).trans_le (inside.trans last.le)
      have blank := Cursor.skipBlank_amid_of_le brace.le
      rw [blank] at opens closes inside brace ⊢
      have more := Cursor.ne_nil_of_lt (Cursor.amid_lt_amid.mp brace)
      rw [Cursor.next_amid more] at closes inside ⊢
      obtain ⟨close, rfl, le, _⟩ := Cursor.exists_amid inside last.le
      have further := Cursor.ne_nil_of_lt (Cursor.amid_lt_amid.mp last)
      rw [Cursor.next_amid further, Cursor.amid_inj] at ends
      have found := rawClose?_of_amid further closes
      rw [Cursor.peek_amid more] at opens
      rw [Fragment.between_amid le, Cursor.next_amid further]
      refine ⟨⟨.directive (.raw (.between c.skipBlank.next close)), start.spanTo e⟩, ?_, ?_⟩
      · rw [Node.mapOffsets_directive, ← ends]
        rfl
      · simp only [readRaw, if_pos opens, found, ends]
        rfl
    · exact absurd clean Traced.fail_ne_pure
  · exact absurd clean malformedDirective_ne_pure

theorem readFunction_alone {start c : Cursor} (stands : StandsIn part source s) (alone : below.ReadsAlone source part s)
    (size : context.size = byteLength source) (place : Cursor.ofText part ≤ c) :
    Traced.ReadsAlone s (Node.mapOffsets (s.before + ·)) (readFunction below context (start.amid s) (c.amid s))
      (readFunction below (context.sized (byteLength part)) start c) := by
  intro node e clean
  unfold readFunction at clean
  split at clean
  · next name parameters brace head =>
    obtain ⟨⟨body, after⟩, reads, rest⟩ := Traced.exists_of_bind_eq_pure clean
    obtain ⟨rfl, rfl⟩ := Prod.mk.inj (Traced.pure_inj.mp rest)
    obtain ⟨before, _, opens⟩ := (onward_functionHead _ _).of_ok head
    have here := (stands.place place).trans before
    have lt := ((readBlock_yields alone.amid.nested size here opens).of_clean reads).1.inOrder.1
    obtain ⟨brace, rfl, le, _⟩ := Cursor.exists_amid before lt.le
    obtain ⟨own, same, headAlone⟩ := functionHead_of_amid (Cursor.ne_nil_of_lt (Cursor.amid_lt_amid.mp lt)) head
    obtain ⟨rfl, rfl⟩ := Prod.mk.inj same
    obtain ⟨ownBody, rfl, readsAlone⟩ :=
      readBlock_alone stands alone.amid.nested alone.nested size (place.trans le) opens _ _ reads
    refine ⟨⟨.directive (.function own.1 own.2 ownBody), start.spanTo e⟩, ?_, ?_⟩
    · rw [Node.mapOffsets_directive]
      rfl
    · simp only [readFunction, headAlone]
      rw [readsAlone, Traced.pure_bind]
      rfl
  · exact absurd clean malformedDirective_ne_pure

theorem exists_of_sectionValue? {inner : Cursor} {directive : Directive Node}
    (found : sectionValue? inner = some directive) : ∃ name value, directive = .sectionValue name value := by
  unfold sectionValue? at found
  split at found
  · dsimp only at found
    split at found
    · exact ⟨_, _, (Option.some.inj found).symm⟩
    · simp at found
  · simp at found

theorem exists_of_readSectionValue_eq_pure {start opener d : Cursor} {node : Node}
    (clean : readSectionValue room context start opener = pure (node, d)) :
    ∃ arguments directive, Code.enclosed room opener = .ok arguments ∧ arguments.after = d ∧
      sectionValue? arguments.inner = some directive ∧ node = ⟨.directive directive, start.spanTo d⟩ := by
  unfold readSectionValue at clean
  split at clean
  · next arguments ok =>
    split at clean
    · next directive value =>
      obtain ⟨rfl, rfl⟩ := Prod.mk.inj (Traced.pure_inj.mp clean)
      exact ⟨arguments, directive, ok, rfl, value, rfl⟩
    · exact absurd clean malformedDirective_ne_pure
  · exact absurd clean refusedFragment_ne_pure

theorem readSectionValue_alone {start opener : Cursor} (opens : (opener.amid s).peek = some '(') :
    Traced.ReadsAlone s (Node.mapOffsets (s.before + ·)) (readSectionValue room context (start.amid s) (opener.amid s))
      (readSectionValue room other start opener) := by
  intro node e clean
  obtain ⟨arguments, directive, ok, ends, value, rfl⟩ := exists_of_readSectionValue_eq_pure clean
  obtain ⟨inner, after, _, _, alone, rfl⟩ := Code.enclosed_amid_of_le opens rfl ok (le_of_eq ends)
  obtain rfl := Cursor.amid_inj.mp ends
  rw [sectionValue?_moved] at value
  obtain ⟨own, found, rfl⟩ := Option.map_eq_some_iff.mp value
  obtain ⟨name, text, rfl⟩ := exists_of_sectionValue? found
  refine ⟨⟨.directive (.sectionValue name text), start.spanTo after⟩, ?_, ?_⟩
  · rw [Node.mapOffsets_directive]
    rfl
  · simp only [readSectionValue, alone, found]
    rfl

theorem readSection_alone {start c : Cursor} (stands : StandsIn part source s) (alone : below.ReadsAlone source part s)
    (size : context.size = byteLength source) (place : Cursor.ofText part ≤ c) :
    Traced.ReadsAlone s (Node.mapOffsets (s.before + ·)) (readSection below context (start.amid s) (c.amid s))
      (readSection below (context.sized (byteLength part)) start c) := by
  intro node e clean
  unfold readSection at clean
  split at clean
  · next opens =>
    obtain ⟨own, same, readsAlone⟩ : ∃ own, node = own.mapOffsets (s.before + ·) ∧
        readSectionValue below.room (context.sized (byteLength part)) start c = pure (own, e) :=
      readSectionValue_alone opens _ _ clean
    obtain ⟨arguments, _, ok, ends, _⟩ := exists_of_readSectionValue_eq_pure clean
    have lt := Code.lt_of_enclosed opens rfl ok
    rw [ends] at lt
    refine ⟨own, same, ?_⟩
    rw [readSection, if_pos (Cursor.peek_of_amid (Cursor.amid_lt_amid.mp lt) opens)]
    exact readsAlone
  · next opens =>
    split at clean
    · next name brace head =>
      obtain ⟨⟨body, after⟩, reads, rest⟩ := Traced.exists_of_bind_eq_pure clean
      obtain ⟨rfl, rfl⟩ := Prod.mk.inj (Traced.pure_inj.mp rest)
      obtain ⟨before, _, starts⟩ := (onward_sectionHead _).of_ok head
      have here := (stands.place place).trans before
      have lt := ((readBlock_yields alone.amid.nested size here starts).of_clean reads).1.inOrder.1
      obtain ⟨brace, rfl, le, _⟩ := Cursor.exists_amid before lt.le
      obtain ⟨own, rfl, headAlone⟩ := sectionHead_of_amid (Cursor.ne_nil_of_lt (Cursor.amid_lt_amid.mp lt)) head
      obtain ⟨ownBody, rfl, readsAlone⟩ :=
        readBlock_alone stands alone.amid.nested alone.nested size (place.trans le) starts _ _ reads
      refine ⟨⟨.directive (.sectionBlock own ownBody), start.spanTo e⟩, ?_, ?_⟩
      · rw [Node.mapOffsets_directive]
        rfl
      · simp only [readSection, if_neg (Cursor.peek_ne_of_amid opens), headAlone]
        rw [readsAlone, Traced.pure_bind]
        rfl
    · exact absurd clean malformedDirective_ne_pure

end SigilTemplate
