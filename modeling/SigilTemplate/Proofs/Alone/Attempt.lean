import SigilTemplate.Proofs.Alone.Argument
import SigilTemplate.Reading.Declaration

/-!
Attempts at a stretch of a text. What an attempt in the larger text takes up to
a place of the stretch, the same attempt takes in the stretch alone: strings,
names, and the directives that hold no nodes.
-/

namespace SigilTemplate
open Text

variable {α : Type} {s : Surroundings} {c e : Cursor}

/-- What an attempt in the larger text gives up to a place of the stretch, an attempt in the stretch alone gives with
other offsets. -/
def AttemptsAlone (s : Surroundings) (shift : α → α) (amid alone : Except Cursor (α × Cursor)) : Prop :=
  ∀ value e, amid = .ok (value, e.amid s) → ∃ own, value = shift own ∧ alone = .ok (own, e)

theorem expect_amid {ch : Char} {x : Cursor} (ok : expect ch (c.amid s) = .ok x) (within : x ≤ e.amid s) :
    ∃ d, x = d.amid s ∧ expect ch c = .ok d := by
  obtain ⟨d, rfl, alone⟩ := Cursor.eat?_amid (eat?_of_expect ok) within
  exact ⟨d, rfl, by simp [expect, alone]⟩

/-! ## Strings and names -/

theorem stringLiteral_alone (c : Cursor) :
    AttemptsAlone s (Fragment.mapOffsets (s.before + ·)) (stringLiteral (c.amid s)) (stringLiteral c) := by
  intro value e ok
  unfold stringLiteral at ok
  split at ok
  · next quote rest starts =>
    split at ok
    · next isQuote =>
      split at ok
      · next close closes =>
        obtain ⟨rfl, ends⟩ := Prod.mk.inj (Except.ok.inj ok)
        obtain ⟨inside, reads, more, mark⟩ := Code.reads_findQuote? closes
        have opens := Cursor.lt_of_reads (Cursor.reads_next starts) (by simp)
        have after : (c.amid s).next ≤ close := ⟨inside, reads⟩
        have last : close < e.amid s := ends ▸ Cursor.lt_next (Cursor.peek_eq_some.mpr ⟨more, mark⟩)
        have nonempty := Cursor.ne_nil_of_lt (Cursor.amid_lt_amid.mp (opens.trans_le (after.trans last.le)))
        rw [Cursor.next_amid nonempty] at closes after ⊢
        obtain ⟨place, rfl, le, _⟩ := Cursor.exists_amid after last.le
        have further := Cursor.ne_nil_of_lt (Cursor.amid_lt_amid.mp last)
        rw [Cursor.next_amid further, Cursor.amid_inj] at ends
        obtain ⟨first, text, here⟩ := List.exists_cons_of_ne_nil nonempty
        have same : first = quote := by
          rw [Cursor.amid_rest, here] at starts
          exact (List.cons.inj starts).1
        refine ⟨.between c.next place, Fragment.between_amid le, ?_⟩
        have found := Code.findQuote?_of_amid further closes
        simp only [stringLiteral, here, same, if_pos isQuote, found, ends]
      · simp at ok
    · simp at ok
  · simp at ok

theorem identifier_alone (c : Cursor) :
    AttemptsAlone s (Fragment.mapOffsets (s.before + ·)) (identifier (c.amid s)) (identifier c) := by
  intro value e ok
  unfold identifier at ok
  simp only at ok
  split at ok
  · next onward =>
    obtain ⟨rfl, ends⟩ := Prod.mk.inj (Except.ok.inj ok)
    have alone := Cursor.skipIdent_of_amid ends
    have le : c ≤ e := alone ▸ Cursor.le_skipIdent c
    rw [ends] at onward ⊢
    have gap : c.pos < e.pos := by simpa using onward
    refine ⟨.between c e, Fragment.between_amid le, ?_⟩
    simp only [identifier, alone, if_pos gap]
  · simp at ok

theorem le_of_closedString {text : Fragment} {after : Cursor} (reads : stringLiteral c.skipBlank = .ok (text, after))
    (closes : expect ')' after.skipBlank = .ok e) : c.skipBlank ≤ e :=
  ((onward_stringLiteral _).of_ok reads).1.trans ((Cursor.le_skipBlank after).trans (lt_of_expect closes).le)

/-- A literal with its closing parenthesis in the stretch is one alone. -/
theorem closedString_alone {text : Fragment} {after : Cursor}
    (reads : stringLiteral (c.amid s).skipBlank = .ok (text, after)) (closes : expect ')' after.skipBlank = .ok (e.amid s)) :
    ∃ own ownAfter, text = own.mapOffsets (s.before + ·) ∧ stringLiteral c.skipBlank = .ok (own, ownAfter) ∧
      expect ')' ownAfter.skipBlank = .ok e := by
  have ends := (Cursor.le_skipBlank after).trans (lt_of_expect closes).le
  rw [Cursor.skipBlank_amid_of_le (le_of_closedString reads closes)] at reads
  obtain ⟨after, rfl, _, _⟩ := Cursor.exists_amid ((onward_stringLiteral _).of_ok reads).1 ends
  obtain ⟨own, rfl, readsAlone⟩ := stringLiteral_alone _ _ _ reads
  rw [Cursor.skipBlank_amid_of_le (lt_of_expect closes).le] at closes
  obtain ⟨last, same, closesAlone⟩ := expect_amid closes (le_refl _)
  obtain rfl := Cursor.amid_inj.mp same
  exact ⟨own, after, rfl, readsAlone, closesAlone⟩

theorem parenthesizedString_alone (c : Cursor) :
    AttemptsAlone s (Fragment.mapOffsets (s.before + ·)) (parenthesizedString (c.amid s)) (parenthesizedString c) := by
  intro value e ok
  obtain ⟨inside, opens, ok⟩ := exists_of_bind_ok ok
  obtain ⟨⟨text, after⟩, reads, ok⟩ := exists_of_bind_ok ok
  obtain ⟨last, closes, ok⟩ := exists_of_bind_ok ok
  obtain ⟨rfl, rfl⟩ := Prod.mk.inj (Except.ok.inj ok)
  obtain ⟨inside, rfl, first⟩ := expect_amid opens ((Cursor.le_skipBlank inside).trans (le_of_closedString reads closes))
  obtain ⟨own, after, rfl, second, third⟩ := closedString_alone reads closes
  refine ⟨own, rfl, ?_⟩
  simp only [parenthesizedString, first, second, third, bind, Except.bind]
  rfl

/-! ## Directives without nodes -/

theorem layoutDirective_alone (c : Cursor) :
    AttemptsAlone s (Directive.mapAllOffsets (s.before + ·)) (layoutDirective (c.amid s)) (layoutDirective c) := by
  intro value e ok
  unfold layoutDirective at ok ⊢
  cases opens : (c.amid s).eat? '(' with
  | none =>
    simp only [opens] at ok
    obtain ⟨rfl, ends⟩ := Prod.mk.inj (Except.ok.inj ok)
    have alone := Cursor.eq_none_of_amid (fun _ => Cursor.eat?_amid_of_some) opens
    exact ⟨.layout none, rfl, by rw [alone, Cursor.amid_inj.mp ends]⟩
  | some inside =>
    simp only [opens] at ok
    cases closes : inside.skipBlank.eat? ')' with
    | some after =>
      simp only [closes] at ok
      obtain ⟨rfl, rfl⟩ := Prod.mk.inj (Except.ok.inj ok)
      have onward := (Cursor.le_skipBlank inside).trans (Cursor.lt_of_eat? closes).le
      obtain ⟨inside, rfl, first⟩ := Cursor.eat?_amid opens onward
      obtain ⟨after, same, second⟩ := Cursor.skipWhile_eat?_amid closes (le_refl _)
      obtain rfl := Cursor.amid_inj.mp same
      refine ⟨.layout none, rfl, ?_⟩
      simp only [first, Cursor.skipBlank, second]
    | none =>
      simp only [closes] at ok
      obtain ⟨⟨path, after⟩, reads, ok⟩ := exists_of_bind_ok ok
      obtain ⟨last, closer, ok⟩ := exists_of_bind_ok ok
      obtain ⟨rfl, rfl⟩ := Prod.mk.inj (Except.ok.inj ok)
      obtain ⟨inside, rfl, first⟩ :=
        Cursor.eat?_amid opens ((Cursor.le_skipBlank inside).trans (le_of_closedString reads closer))
      have second : inside.skipBlank.eat? ')' = none :=
        Cursor.eq_none_of_amid (fun _ => Cursor.skipWhile_eat?_amid_of_some) closes
      obtain ⟨own, after, rfl, third, fourth⟩ := closedString_alone reads closer
      refine ⟨.layout (some own), rfl, ?_⟩
      simp only [first, second, third, fourth, bind, Except.bind]
      rfl

theorem componentName_alone (c : Cursor) :
    AttemptsAlone s (Option.map (Fragment.mapOffsets (s.before + ·))) (componentName (c.amid s)) (componentName c) := by
  intro value e ok
  unfold componentName at ok ⊢
  cases word : (c.amid s).skipInlineBlank.eatText? ['a', 's'] with
  | none =>
    simp only [word] at ok
    obtain ⟨rfl, ends⟩ := Prod.mk.inj (Except.ok.inj ok)
    have alone : c.skipInlineBlank.eatText? ['a', 's'] = none :=
      Cursor.eq_none_of_amid (fun _ => Cursor.skipWhile_eatText?_amid_of_some (by simp)) word
    exact ⟨none, rfl, by rw [alone, Cursor.amid_inj.mp ends]⟩
  | some after =>
    simp only [word] at ok
    split at ok
    · next gap =>
      obtain ⟨⟨name, last⟩, reads, ok⟩ := exists_of_bind_ok ok
      obtain ⟨rfl, rfl⟩ := Prod.mk.inj (Except.ok.inj ok)
      have start := lt_of_identifier reads
      have onward := (Cursor.le_skipInlineBlank after).trans_lt start
      obtain ⟨after, rfl, first⟩ := Cursor.skipWhile_eatText?_amid word onward.le
      rw [Cursor.skipInlineBlank_amid_of_le start.le] at reads
      obtain ⟨own, rfl, second⟩ := identifier_alone _ _ _ reads
      rw [Cursor.peek_amid (Cursor.ne_nil_of_lt (Cursor.amid_lt_amid.mp onward))] at gap
      have word : c.skipInlineBlank.eatText? ['a', 's'] = some after := first
      refine ⟨some own, rfl, ?_⟩
      simp only [word, if_pos gap, second, bind, Except.bind]
      rfl
    · next noGap =>
      obtain ⟨rfl, ends⟩ := Prod.mk.inj (Except.ok.inj ok)
      refine ⟨none, rfl, ?_⟩
      rw [← Cursor.amid_inj.mp ends]
      split
      · next own found =>
        have larger := Cursor.skipWhile_eatText?_amid_of_some (s := s) (by simp) found
        obtain rfl : after = own.amid s := Option.some.inj (word.symm.trans larger)
        rw [if_neg fun blank => noGap (Cursor.peek_any_amid blank)]
      · rfl

theorem useDirective_alone (c : Cursor) :
    AttemptsAlone s (Directive.mapAllOffsets (s.before + ·)) (useDirective (c.amid s)) (useDirective c) := by
  intro value e ok
  obtain ⟨⟨path, afterPath⟩, reads, ok⟩ := exists_of_bind_ok ok
  obtain ⟨⟨component, after⟩, names, ok⟩ := exists_of_bind_ok ok
  obtain ⟨rfl, ends⟩ := Prod.mk.inj (Except.ok.inj ok)
  have last : after ≤ e.amid s := ends ▸ Cursor.le_getD_inlineBlank_eat? ';' after
  have name := ((onward_componentName _).of_ok names).1
  have start := ((onward_stringLiteral _).of_ok reads).1
  rw [Cursor.skipInlineBlank_amid_of_le (start.trans (name.trans last))] at reads start
  obtain ⟨afterPath, rfl, _, _⟩ := Cursor.exists_amid start (name.trans last)
  obtain ⟨own, rfl, first⟩ := stringLiteral_alone _ _ _ reads
  obtain ⟨after, rfl, _, _⟩ := Cursor.exists_amid name last
  obtain ⟨ownName, rfl, second⟩ := componentName_alone _ _ _ names
  have third : (after.skipInlineBlank.eat? ';').getD after = e := Cursor.getD_skipWhile_eat?_of_amid ends
  refine ⟨.useFile own ownName, rfl, ?_⟩
  simp only [useDirective, first, second, third, bind, Except.bind]
  rfl

theorem stringDirective_alone {directive : Fragment → Directive Node}
    (shift : ∀ text, directive (text.mapOffsets (s.before + ·)) = (directive text).mapAllOffsets (s.before + ·)) (c : Cursor) :
    AttemptsAlone s (Directive.mapAllOffsets (s.before + ·)) (stringDirective directive (c.amid s))
      (stringDirective directive c) := by
  intro value e ok
  obtain ⟨⟨text, after⟩, reads, ok⟩ := exists_of_bind_ok ok
  obtain ⟨rfl, rfl⟩ := Prod.mk.inj (Except.ok.inj ok)
  obtain ⟨own, rfl, alone⟩ := parenthesizedString_alone _ _ _ reads
  refine ⟨directive own, shift own, ?_⟩
  simp only [stringDirective, alone, bind, Except.bind]
  rfl

theorem bareDirective_alone {directive : Directive Node} (shift : directive = directive.mapAllOffsets (s.before + ·))
    (c : Cursor) :
    AttemptsAlone s (Directive.mapAllOffsets (s.before + ·)) (bareDirective directive (c.amid s))
      (bareDirective directive c) := by
  intro value e ok
  obtain ⟨rfl, ends⟩ := Prod.mk.inj (Except.ok.inj ok)
  have alone : (c.eatText? ['(', ')']).getD c = e :=
    Cursor.getD_of_amid (fun _ => Cursor.eatText?_amid_of_some) (fun _ => Cursor.eatText?_amid) ends
  exact ⟨directive, shift, by rw [bareDirective, alone]⟩

/-! ## Heads of blocks -/

/-- The closing brace of a raw block that lies in the stretch is found there alone. -/
theorem rawClose?_of_amid {depth pos : Nat} {text : List Char} {d : Cursor} (more : d.rest ≠ [])
    (found : rawClose? depth (s.before + pos) (text ++ s.after) = some (d.amid s)) : rawClose? depth pos text = some d := by
  have positive := List.length_pos_iff.mpr more
  fun_induction rawClose? depth pos text with
  | case1 =>
    have short := Cursor.length_le (rawClose?_spec found).1
    simp only [List.nil_append, Cursor.amid_rest, List.length_append] at short
    omega
  | case2 depth pos rest ih =>
    rw [List.cons_append, rawClose?, if_pos rfl, Nat.add_assoc] at found
    exact ih found
  | case3 depth pos rest last other =>
    rw [List.cons_append, rawClose?, if_neg other, if_pos rfl, if_pos last] at found
    have here : (⟨pos, '}' :: rest⟩ : Cursor).amid s = d.amid s := Option.some.inj found
    rw [Cursor.amid_inj.mp here]
  | case4 depth pos rest inner other ih =>
    rw [List.cons_append, rawClose?, if_neg other, if_pos rfl, if_neg inner, Nat.add_assoc] at found
    exact ih found
  | case5 depth pos ch rest opens closes ih =>
    rw [List.cons_append, rawClose?, if_neg opens, if_neg closes, Nat.add_assoc] at found
    exact ih found

theorem sectionHead_of_amid {name : Fragment} (more : e.rest ≠ []) (ok : sectionHead (c.amid s) = .ok (name, e.amid s)) :
    ∃ own, name = own.mapOffsets (s.before + ·) ∧ sectionHead c = .ok (own, e) := by
  obtain ⟨⟨name, after⟩, reads, ok⟩ := exists_of_bind_ok ok
  simp only at ok
  split at ok
  · next opens =>
    obtain ⟨rfl, ends⟩ := Prod.mk.inj (Except.ok.inj ok)
    have last := ends ▸ Cursor.le_skipBlank after
    have start := lt_of_identifier reads
    rw [Cursor.skipInlineBlank_amid_of_le (start.le.trans last)] at reads start
    obtain ⟨after, rfl, _, _⟩ := Cursor.exists_amid start.le last
    obtain ⟨own, rfl, first⟩ := identifier_alone _ _ _ reads
    have second : after.skipBlank = e := Cursor.skipWhile_of_amid ends
    rw [ends, Cursor.peek_amid more] at opens
    refine ⟨own, rfl, ?_⟩
    simp only [sectionHead, first, second, if_pos opens, bind, Except.bind]
  · simp at ok

theorem functionHead_of_amid {room : Nat} {head : Fragment × Fragment} (more : e.rest ≠ [])
    (ok : functionHead room (c.amid s) = .ok (head, e.amid s)) :
    ∃ own, head = mapEntryOffsets (s.before + ·) own ∧ functionHead room c = .ok (own, e) := by
  obtain ⟨⟨name, after⟩, reads, ok⟩ := exists_of_bind_ok ok
  simp only at ok
  split at ok
  · next opens =>
    split at ok
    · next parameters enclosed =>
      split at ok
      · next brace =>
        obtain ⟨rfl, ends⟩ := Prod.mk.inj (Except.ok.inj ok)
        have last : parameters.after ≤ e.amid s := ends ▸ Cursor.le_skipBlank parameters.after
        have start := lt_of_identifier reads
        have opener := (Code.lt_of_enclosed opens rfl enclosed).trans_le last
        have onward := (Cursor.le_skipInlineBlank after).trans opener.le
        rw [Cursor.skipInlineBlank_amid_of_le (start.le.trans onward)] at reads start
        obtain ⟨after, rfl, _, _⟩ := Cursor.exists_amid start.le onward
        obtain ⟨own, rfl, first⟩ := identifier_alone _ _ _ reads
        rw [Cursor.skipInlineBlank_amid_of_le opener.le] at opens enclosed opener
        obtain ⟨inner, close, _, _, second, rfl⟩ := Code.enclosed_amid_of_le opens rfl enclosed last
        rw [Cursor.peek_amid (Cursor.ne_nil_of_lt (Cursor.amid_lt_amid.mp opener))] at opens
        have third : close.skipBlank = e := Cursor.skipWhile_of_amid ends
        rw [ends, Cursor.peek_amid more] at brace
        refine ⟨(own, .trimmed inner), ?_, ?_⟩
        · rw [Fragment.trimmed_moved]
          rfl
        · simp only [functionHead, first, if_pos opens, second, third, if_pos brace, bind, Except.bind]
      · simp at ok
    · simp at ok
  · simp at ok

end SigilTemplate
