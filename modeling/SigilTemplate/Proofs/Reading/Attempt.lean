import SigilTemplate.Proofs.Code.Commas
import SigilTemplate.Proofs.Tree.Fragment
import SigilTemplate.Reading.Declaration
import SigilTemplate.Reading.Flow
import SigilTemplate.Reading.Tag

/-!
Attempts: readings that give a value and the place after it, or the place where
they stopped. Neither place lies before the one where the attempt starts, and
all fragments of the value come from what the attempt has taken.
-/

namespace SigilTemplate
open Text

section

variable {α β : Type}

/-- The attempt ends or stops at or after `c`; the value it gives has the property. -/
def Onward (c : Cursor) (post : α → Cursor → Prop) (attempt : Except Cursor (α × Cursor)) : Prop :=
  match attempt with
  | .ok (value, after) => c ≤ after ∧ post value after
  | .error stop => c ≤ stop

theorem Onward.ok {c after : Cursor} {value : α} {post : α → Cursor → Prop} (le : c ≤ after)
    (holds : post value after) : Onward c post (.ok (value, after)) :=
  ⟨le, holds⟩

theorem Onward.of_ok {c after : Cursor} {value : α} {post : α → Cursor → Prop}
    {attempt : Except Cursor (α × Cursor)} (onward : Onward c post attempt) (read : attempt = .ok (value, after)) :
    c ≤ after ∧ post value after := by
  rw [read] at onward
  exact onward

/-- What follows an attempt goes on from where that has ended. -/
theorem Onward.bind {c d : Cursor} {attempt : Except Cursor (α × Cursor)}
    {next : α × Cursor → Except Cursor (β × Cursor)} {between : α → Cursor → Prop} {post : β → Cursor → Prop}
    (le : c ≤ d) (first : Onward d between attempt)
    (second : ∀ value after, d ≤ after → between value after → Onward c post (next (value, after))) :
    Onward c post (attempt >>= next) := by
  match attempt, first with
  | .ok (value, after), ⟨later, holds⟩ => exact second value after later holds
  | .error _, later => exact le.trans later

theorem Onward.expect {c d : Cursor} {ch : Char} {post : α → Cursor → Prop}
    {next : Cursor → Except Cursor (α × Cursor)} (le : c ≤ d)
    (second : ∀ after, d < after → Onward c post (next after)) : Onward c post (expect ch d >>= next) := by
  unfold SigilTemplate.expect
  cases found : d.eat? ch with
  | none => exact le
  | some after => exact second after (Cursor.lt_of_eat? found)

/-- An attempt in two parts that succeeds has two such parts. -/
theorem exists_of_bind_ok {ε : Type} {first : Except ε α} {next : α → Except ε β} {answer : β}
    (ok : first >>= next = .ok answer) : ∃ between, first = .ok between ∧ next between = .ok answer := by
  cases first with
  | error _ => simp [bind, Except.bind] at ok
  | ok between => exact ⟨between, rfl, ok⟩

end

/-! ## Arguments -/

theorem eat?_of_expect {ch : Char} {c d : Cursor} (ok : expect ch c = .ok d) : c.eat? ch = some d := by
  unfold expect at ok
  split at ok
  · next after found =>
    obtain rfl := Except.ok.inj ok
    exact found
  · simp at ok

theorem lt_of_expect {ch : Char} {c d : Cursor} (ok : expect ch c = .ok d) : c < d :=
  Cursor.lt_of_eat? (eat?_of_expect ok)

theorem lt_of_identifier {name : Fragment} {c d : Cursor} (ok : identifier c = .ok (name, d)) : c < d := by
  unfold identifier at ok
  simp only at ok
  split at ok
  · next gap =>
    obtain ⟨_, rfl⟩ := Prod.mk.inj (Except.ok.inj ok)
    exact Cursor.lt_of_pos_lt (Cursor.le_skipIdent c) gap
  · simp at ok

theorem onward_stringLiteral (c : Cursor) :
    Onward c (fun text after => text.Within (c.upTo after)) (stringLiteral c) := by
  unfold stringLiteral
  split
  · split
    · split
      · next close found =>
        obtain ⟨inside, reads, rest, head⟩ := Code.reads_findQuote? found
        have opens := Cursor.le_next c
        have between : c.next ≤ close := ⟨inside, reads⟩
        have closes := Cursor.le_next close
        exact .ok (opens.trans (between.trans closes)) (Fragment.between_within opens between closes)
      · exact le_refl c
    · exact le_refl c
  · exact le_refl c

theorem lt_of_stringLiteral {value : Fragment} {c d : Cursor} (ok : stringLiteral c = .ok (value, d)) : c < d := by
  unfold stringLiteral at ok
  split at ok
  · next starts =>
    split at ok
    · split at ok
      · next close closes =>
        obtain ⟨_, rfl⟩ := Prod.mk.inj (Except.ok.inj ok)
        obtain ⟨inside, reads, _⟩ := Code.reads_findQuote? closes
        have between : c.next ≤ close := ⟨inside, reads⟩
        exact (Cursor.lt_of_reads (Cursor.reads_next starts) (by simp)).trans_le (between.trans (Cursor.le_next close))
      · simp at ok
    · simp at ok
  · simp at ok

theorem onward_identifier (c : Cursor) :
    Onward c (fun name after => name.Within (c.upTo after)) (identifier c) := by
  unfold identifier
  simp only
  split
  · exact .ok (Cursor.le_skipIdent c) (Fragment.between_within (le_refl c) (Cursor.le_skipIdent c) (le_refl _))
  · exact le_refl c

theorem onward_parenthesizedString (c : Cursor) :
    Onward c (fun text after => text.Within (c.upTo after)) (parenthesizedString c) := by
  unfold parenthesizedString
  apply Onward.expect (le_refl c)
  intro inside opens
  have start : c ≤ inside.skipBlank := opens.le.trans (Cursor.le_skipBlank inside)
  apply Onward.bind start (onward_stringLiteral inside.skipBlank)
  intro text last later within
  apply Onward.expect (start.trans (later.trans (Cursor.le_skipBlank last)))
  intro after closes
  have ends : last ≤ after := (Cursor.le_skipBlank last).trans closes.le
  exact .ok (start.trans (later.trans ends)) (within.widen start later ends)

theorem singleColon?_go_spec {afterColon : Bool} {pos : Nat} {text : List Char} {colon : Cursor}
    (found : singleColon?.go afterColon pos text = some colon) :
    (⟨pos, text⟩ : Cursor) ≤ colon ∧ colon.peek = some ':' := by
  fun_induction singleColon?.go afterColon pos text with
  | case1 => simp at found
  | case2 afterColon pos ch rest here =>
    obtain rfl := Option.some.inj found
    exact ⟨le_refl _, by rw [Cursor.peek, List.head?_cons, here.1]⟩
  | case3 afterColon pos ch rest _ ih =>
    obtain ⟨later, head⟩ := ih found
    exact ⟨le_trans ⟨[ch], rfl, by simp⟩ later, head⟩

theorem singleColon?_spec {part colon : Cursor} (found : singleColon? part = some colon) :
    part ≤ colon ∧ colon.peek = some ':' :=
  singleColon?_go_spec found

/-- Name and value of an entry stand on the two sides of its colon. -/
theorem namedEntry?_within {entry : Cursor} {name value : Fragment}
    (found : namedEntry? entry = some (name, value)) : name.Within entry ∧ value.Within entry := by
  unfold namedEntry? at found
  obtain ⟨colon, here, rest⟩ := Option.bind_eq_some_iff.mp found
  obtain ⟨before, _⟩ := singleColon?_spec here
  simp only at rest
  split at rest
  · simp only [Option.pure_def, Option.some.injEq, Prod.mk.injEq] at rest
    obtain ⟨rfl, rfl⟩ := rest
    refine ⟨(Fragment.trimmed_within _).mono (Cursor.upTo_partOf before), ?_⟩
    exact (Fragment.trimmed_within _).mono (Cursor.partOf_of_le (before.trans (Cursor.le_next colon)))
  · simp at rest

/-- What a map with failures gives comes from something it was given. -/
theorem exists_of_mem_mapM {α β : Type} {f : α → Option β} {list : List α} {results : List β}
    (found : list.mapM f = some results) {result : β} (member : result ∈ results) :
    ∃ item ∈ list, f item = some result := by
  induction list generalizing results with
  | nil =>
    obtain rfl := Option.some.inj found
    simp at member
  | cons item list ih =>
    rw [List.mapM_cons] at found
    obtain ⟨first, head, rest⟩ := Option.bind_eq_some_iff.mp found
    obtain ⟨more, tail, same⟩ := Option.bind_eq_some_iff.mp rest
    obtain rfl := Option.some.inj same
    rcases List.mem_cons.mp member with rfl | among
    · exact ⟨item, by simp, head⟩
    · obtain ⟨other, here, reads⟩ := ih tail among
      exact ⟨other, by simp [here], reads⟩

theorem namedEntries?_within {part : Cursor} {entries : List (Fragment × Fragment)}
    (found : namedEntries? part = some entries) :
    ∀ entry ∈ entries, entry.1.Within part ∧ entry.2.Within part := by
  rintro ⟨name, value⟩ member
  obtain ⟨piece, among, reads⟩ := exists_of_mem_mapM found member
  have inside := Code.split_partOf ',' (List.mem_filter.mp among).1
  obtain ⟨first, second⟩ := namedEntry?_within reads
  exact ⟨first.mono inside, second.mono inside⟩

theorem templateParameters?_within {part : Cursor} {parameters : List Parameter}
    (found : templateParameters? part = some parameters) :
    ∀ parameter ∈ parameters, parameter.name.Within part ∧ parameter.type.Within part := by
  intro parameter member
  unfold templateParameters? at found
  obtain ⟨entries, read, rest⟩ := Option.bind_eq_some_iff.mp found
  split at rest
  · simp at rest
  · obtain rfl := Option.some.inj rest
    obtain ⟨entry, among, rfl⟩ := List.mem_map.mp member
    exact namedEntries?_within read entry among

/-- A value of code is a constant, or it keeps the text of its entry, quotes apart. -/
theorem codeValue_within {value : Fragment} {part : Cursor} (within : value.Within part) :
    (codeValue value).nodes = [] ∧ ∀ fragment ∈ (codeValue value).fragments, fragment.Within part := by
  unfold codeValue
  simp only
  split
  · exact ⟨rfl, by simp [ArgumentValue.fragments]⟩
  · split
    · exact ⟨rfl, by simp [ArgumentValue.fragments]⟩
    · split
      · exact ⟨rfl, by simp [ArgumentValue.fragments]⟩
      · split
        · next quoted =>
          simp only [Bool.and_eq_true] at quoted
          refine ⟨rfl, ?_⟩
          intro fragment member
          obtain rfl : fragment = value.unquoted := by simpa [ArgumentValue.fragments] using member
          exact Fragment.unquoted_within (by decide) quoted.1 within
        · refine ⟨rfl, ?_⟩
          intro fragment member
          obtain rfl : fragment = value := by simpa [ArgumentValue.fragments] using member
          exact within

/-- The arguments of a call hold no nodes, and all they keep stands between its parentheses. -/
theorem callArguments?_within {part : Cursor} {arguments : List (Argument Node)}
    (found : callArguments? part = some arguments) :
    ∀ argument ∈ arguments, argument.value.nodes = [] ∧ argument.span.Within part ∧
      ∀ fragment ∈ argument.fragments, fragment.Within part := by
  intro argument member
  unfold callArguments? at found
  obtain ⟨entries, read, rest⟩ := Option.bind_eq_some_iff.mp found
  obtain rfl := Option.some.inj rest
  obtain ⟨⟨name, value⟩, among, rfl⟩ := List.mem_map.mp member
  obtain ⟨left, right⟩ := namedEntries?_within read _ among
  obtain ⟨none, fragments⟩ := codeValue_within right
  refine ⟨none, left.span.cover right.span, ?_⟩
  intro fragment member
  rcases List.mem_cons.mp member with rfl | member
  · exact left
  · exact fragments fragment member

/-! ## Directives -/

/-- A directive of a keyword that holds no nodes, with fragments from between the two places. -/
structure Directive.Flat (keyword : Keyword) (c : Cursor) (directive : Directive Node) (after : Cursor) : Prop where
  keyword_eq : directive.keyword = keyword
  leaf : directive.children = []
  within : ∀ fragment ∈ directive.fragments, fragment.Within (c.upTo after)

theorem sectionValue?_flat {c d part : Cursor} {directive : Directive Node} (inside : part.PartOf (c.upTo d))
    (found : sectionValue? part = some directive) : directive.Flat .sectionBlock c d := by
  unfold sectionValue? at found
  split at found
  · next first second pieces =>
    have name : (Fragment.trimmed first).Within part :=
      (Fragment.trimmed_within first).mono (Code.split_partOf ',' (by rw [pieces]; simp))
    have value : (Fragment.trimmed second).Within part :=
      (Fragment.trimmed_within second).mono (Code.split_partOf ',' (by rw [pieces]; simp))
    simp only at found
    split at found
    · next quoted =>
      obtain rfl := Option.some.inj found
      simp only [Bool.and_eq_true, Bool.or_eq_true] at quoted
      refine ⟨rfl, rfl, ?_⟩
      intro fragment member
      simp only [Directive.fragments, List.mem_cons, List.not_mem_nil, or_false] at member
      rcases member with rfl | rfl
      · refine Fragment.Within.mono ?_ inside
        rcases quoted.1 with double | single
        · exact Fragment.unquoted_within (by decide) double name
        · exact Fragment.unquoted_within (by decide) single name
      · exact value.mono inside
    · simp at found
  · simp at found

theorem onward_layoutDirective (c : Cursor) : Onward c (Directive.Flat .layout c) (layoutDirective c) := by
  unfold layoutDirective
  split
  · exact .ok (le_refl c) ⟨rfl, rfl, by simp [Directive.fragments]⟩
  · next inside opens =>
    have start := (Cursor.lt_of_eat? opens).le.trans (Cursor.le_skipBlank inside)
    split
    · next after closes =>
      exact .ok (start.trans (Cursor.lt_of_eat? closes).le) ⟨rfl, rfl, by simp [Directive.fragments]⟩
    · apply Onward.bind start (onward_stringLiteral inside.skipBlank)
      intro path last later within
      apply Onward.expect (start.trans (later.trans (Cursor.le_skipBlank last)))
      intro after closes
      have ends : last ≤ after := (Cursor.le_skipBlank last).trans closes.le
      refine .ok (start.trans (later.trans ends)) ⟨rfl, rfl, ?_⟩
      intro fragment member
      obtain rfl : fragment = path := by simpa [Directive.fragments] using member
      exact within.widen start later ends

theorem onward_componentName (c : Cursor) :
    Onward c (fun name after => ∀ fragment ∈ name, fragment.Within (c.upTo after)) (componentName c) := by
  unfold componentName
  split
  · next place found =>
    split
    · have start := (Cursor.le_skipInlineBlank c).trans (Cursor.le_of_reads (Cursor.reads_eatText? found))
      have onto := start.trans (Cursor.le_skipInlineBlank place)
      apply Onward.bind onto (onward_identifier place.skipInlineBlank)
      intro name after later within
      apply Onward.ok (onto.trans later)
      rintro fragment ⟨⟩
      exact within.widen onto later (le_refl after)
    · exact .ok (le_refl c) (by simp)
  · exact .ok (le_refl c) (by simp)

theorem onward_useDirective (c : Cursor) : Onward c (Directive.Flat .useFile c) (useDirective c) := by
  unfold useDirective
  have start := Cursor.le_skipInlineBlank c
  apply Onward.bind start (onward_stringLiteral c.skipInlineBlank)
  intro path middle later within
  have onto := start.trans later
  apply Onward.bind onto (onward_componentName middle)
  intro component last further names
  have ends := Cursor.le_getD_inlineBlank_eat? ';' last
  refine .ok (onto.trans (further.trans ends)) ⟨rfl, rfl, ?_⟩
  intro fragment member
  rcases List.mem_cons.mp member with rfl | member
  · exact within.widen start later (further.trans ends)
  · exact (names fragment (Option.mem_toList.mp member)).widen onto further ends

theorem onward_stringDirective (directive : Fragment → Directive Node) {keyword : Keyword}
    (keyword_eq : ∀ text, (directive text).keyword = keyword) (leaf : ∀ text, (directive text).children = [])
    (fragments : ∀ text, (directive text).fragments = [text]) (c : Cursor) :
    Onward c (Directive.Flat keyword c) (stringDirective directive c) := by
  unfold stringDirective
  apply Onward.bind (le_refl c) (onward_parenthesizedString c)
  intro text after later within
  refine .ok later ⟨keyword_eq text, leaf text, ?_⟩
  intro fragment member
  obtain rfl : fragment = text := by simpa [fragments] using member
  exact within

theorem onward_includeFile (c : Cursor) : Onward c (Directive.Flat .includeFile c) (stringDirective .includeFile c) :=
  onward_stringDirective .includeFile (fun _ => rfl) (fun _ => rfl) (fun _ => rfl) c

theorem onward_render (c : Cursor) : Onward c (Directive.Flat .render c) (stringDirective .render c) :=
  onward_stringDirective .render (fun _ => rfl) (fun _ => rfl) (fun _ => rfl) c

theorem onward_bareDirective (directive : Directive Node) {keyword : Keyword} (keyword_eq : directive.keyword = keyword)
    (leaf : directive.children = []) (fragments : directive.fragments = []) (c : Cursor) :
    Onward c (Directive.Flat keyword c) (bareDirective directive c) := by
  have le : c ≤ (c.eatText? ['(', ')']).getD c := by
    cases found : c.eatText? ['(', ')'] with
    | none => exact le_refl c
    | some after => exact Cursor.le_of_reads (Cursor.reads_eatText? found)
  exact .ok le ⟨keyword_eq, leaf, by simp [fragments]⟩

theorem onward_renderBody (c : Cursor) : Onward c (Directive.Flat .renderBody c) (bareDirective .renderBody c) :=
  onward_bareDirective .renderBody rfl rfl rfl c

theorem onward_childContent (c : Cursor) :
    Onward c (Directive.Flat .childContent c) (bareDirective .childContent c) :=
  onward_bareDirective .childContent rfl rfl rfl c

theorem rawClose?_spec {depth pos : Nat} {text : List Char} {close : Cursor}
    (found : rawClose? depth pos text = some close) : (⟨pos, text⟩ : Cursor) ≤ close ∧ close.peek = some '}' := by
  fun_induction rawClose? depth pos text with
  | case1 => simp at found
  | case2 depth pos rest ih =>
    obtain ⟨later, head⟩ := ih found
    exact ⟨le_trans ⟨['{'], rfl, by simp⟩ later, head⟩
  | case3 depth pos rest =>
    obtain rfl := Option.some.inj found
    exact ⟨le_refl _, rfl⟩
  | case4 depth pos rest _ _ ih =>
    obtain ⟨later, head⟩ := ih found
    exact ⟨le_trans ⟨['}'], rfl, by simp⟩ later, head⟩
  | case5 depth pos ch rest _ _ ih =>
    obtain ⟨later, head⟩ := ih found
    exact ⟨le_trans ⟨[ch], rfl, by simp⟩ later, head⟩

/-- The head of a section or of a helper ends at the `{` of its body. -/
theorem onward_sectionHead (c : Cursor) :
    Onward c (fun name brace => name.Within (c.upTo brace) ∧ brace.peek = some '{') (sectionHead c) := by
  unfold sectionHead
  have start := Cursor.le_skipInlineBlank c
  apply Onward.bind start (onward_identifier c.skipInlineBlank)
  intro name last later within
  have ends := Cursor.le_skipBlank last
  simp only
  split
  · next opens => exact .ok (start.trans (later.trans ends)) ⟨within.widen start later ends, opens⟩
  · exact start.trans (later.trans ends)

theorem onward_functionHead (room : Nat) (c : Cursor) :
    Onward c
      (fun head brace => (head.1.Within (c.upTo brace) ∧ head.2.Within (c.upTo brace)) ∧ brace.peek = some '{')
      (functionHead room c) := by
  unfold functionHead
  have start := Cursor.le_skipInlineBlank c
  apply Onward.bind start (onward_identifier c.skipInlineBlank)
  intro name last later within
  have onto : c ≤ last.skipInlineBlank := start.trans (later.trans (Cursor.le_skipInlineBlank last))
  simp only
  split
  · next opens =>
    have spec := Code.enclosed_spec room opens rfl
    split
    · next parameters ok =>
      rw [ok] at spec
      cases spec with
      | @closed close after _ =>
        have opener := Cursor.le_next last.skipInlineBlank
        have closer := Cursor.le_next close
        have ends := Cursor.le_skipBlank close.next
        have total : last ≤ close.next.skipBlank :=
          (Cursor.le_skipInlineBlank last).trans (opener.trans (after.trans (closer.trans ends)))
        split
        · next here =>
          refine .ok (start.trans (later.trans total)) ⟨⟨within.widen start later total, ?_⟩, here⟩
          exact (Fragment.trimmed_within _).widen (onto.trans opener) after (closer.trans ends)
        · exact onto.trans (opener.trans (after.trans closer))
    · exact onto
  · exact onto

/-! ## Heads and tags -/

/-- The end of a text without its white space lies between what is known to be solid and the end. -/
theorem trimmedEnd_go_spec {d solid : Cursor} {pos : Nat} {text : List Char} (before : solid ≤ ⟨pos, text⟩)
    (limit : (⟨pos, text⟩ : Cursor) ≤ d) :
    solid ≤ Cursor.trimmedEnd.go d solid pos text ∧ Cursor.trimmedEnd.go d solid pos text ≤ d := by
  induction text generalizing solid pos with
  | nil => exact ⟨le_refl solid, before.trans limit⟩
  | cons ch rest ih =>
    unfold Cursor.trimmedEnd.go
    by_cases more : pos < d.pos
    · rw [if_pos more]
      have onward : (⟨pos, ch :: rest⟩ : Cursor) ≤ ⟨pos + ch.utf8Size, rest⟩ := ⟨[ch], rfl, by simp⟩
      have within : (⟨pos + ch.utf8Size, rest⟩ : Cursor) ≤ d := Cursor.next_le_of_lt (Cursor.lt_of_pos_lt limit more)
      by_cases blank : isBlank ch = true
      · simp only [if_pos blank]
        exact ih (before.trans onward) within
      · simp only [if_neg blank]
        have spec := ih (le_refl _) within
        exact ⟨before.trans (onward.trans spec.1), spec.2⟩
    · rw [if_neg more]
      exact ⟨le_refl solid, before.trans limit⟩

theorem le_trimmedEnd {c d : Cursor} (le : c ≤ d) : c ≤ c.trimmedEnd d :=
  (trimmedEnd_go_spec (le_refl c) le).1

/-- A first character that is not white space is kept. -/
theorem lt_trimmedEnd {c d : Cursor} {ch : Char} (head : c.peek = some ch) (solid : isBlank ch = false)
    (lt : c < d) : c < c.trimmedEnd d := by
  obtain ⟨rest, starts⟩ := Cursor.peek_eq_some.mp head
  have first := Cursor.next_le_of_lt lt
  have place : c.next = ⟨c.pos + ch.utf8Size, rest⟩ := by simp only [Cursor.next, starts]
  have keeps : c.trimmedEnd d = Cursor.trimmedEnd.go d c.next c.next.pos c.next.rest := by
    rw [Cursor.trimmedEnd, starts, Cursor.trimmedEnd.go, if_pos (Cursor.pos_lt lt), place]
    simp [solid]
  rw [keeps]
  exact (Cursor.lt_next head).trans_le (trimmedEnd_go_spec (le_refl _) first).1

theorem statementHead_ready {c brace : Cursor} {code : Fragment} (head : statementHead c = .ready code brace) :
    c ≤ brace ∧ brace.peek = some '{' ∧ code = .trimmed (c.upTo brace) := by
  unfold statementHead at head
  split at head
  · next ends =>
    simp only [Head.ready.injEq] at head
    obtain ⟨rfl, rfl⟩ := head
    obtain ⟨later, opens⟩ := Code.headEnd_block ends
    exact ⟨later, opens, rfl⟩
  · simp at head

theorem statementHead_missing {c stop : Cursor} (head : statementHead c = .missing stop) : c ≤ stop := by
  unfold statementHead at head
  split at head
  · simp at head
  · next ends =>
    obtain rfl := Head.missing.inj head
    exact le_trimmedEnd (Code.headEnd_stopped ends)

theorem le_skipBrokenHead (c : Cursor) : c ≤ skipBrokenHead c :=
  (Cursor.le_skipWhile _ c).trans (Cursor.le_getD_eat? '>' _)

/-- A closing tag takes at least its `</`. -/
theorem lt_readCloseTag {c : Cursor} (starts : c.atTagClose = true) : c < (readCloseTag c).after := by
  have head := Cursor.peek_of_atTagClose starts
  have name : c.next ≤ (c.skip 2).skipTagName.skipBlank :=
    (Cursor.le_next c.next).trans ((Cursor.le_skipTagName _).trans (Cursor.le_skipBlank _))
  refine (Cursor.lt_next head).trans_le (name.trans ?_)
  unfold readCloseTag
  simp only
  split
  · next found => exact (Cursor.lt_of_eat? found).le
  · exact le_refl _

end SigilTemplate
