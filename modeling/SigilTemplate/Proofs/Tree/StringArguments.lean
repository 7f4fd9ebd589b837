import Mathlib
import SigilTemplate.Proofs.Code.Nested
import SigilTemplate.Proofs.Tree.Preorder

/-!
Arguments in quotes. Three readings take them: one that looks for the closing
quote, one that takes a value of a call for a string if it begins and ends with
a quote and has none inside, and one that takes the first argument of a section
for a string if it begins and ends with one quote. The first two take single
string literals only; what the third takes stands between quotes as well, but
may be more than one literal.
-/

namespace SigilTemplate
open Text

/-! ## The fragments in quotes -/

section

variable {α : Type}

def Directive.quoted : Directive α → List Fragment
  | layout path => path.toList
  | useFile path _ => [path]
  | includeFile path => [path]
  | render name => [name]
  | sectionValue name _ => [name]
  | renderBody | childContent | sectionBlock _ _ | raw _ | function _ _ _ => []

def ArgumentValue.quoted : ArgumentValue α → List Fragment
  | string text => [text]
  | flag | bool _ | number _ | expression _ | block _ | code _ => []

/-- The fragments that a form takes from between quotes. -/
def Form.quoted : Form α → List Fragment
  | .directive d => d.quoted
  | .component c => c.arguments.flatMap fun argument => argument.value.quoted
  | .text _ | .comment _ | .expression _ | .codeBlock _ | .parameters _ | .statement _ | .error _ _ => []

end

/-- The fragment is all that stands between two quotes of one kind. -/
structure Fragment.StandsBetween (quote : Char) (opening close : Cursor) (fragment : Fragment) : Prop where
  kind : quote = '"' ∨ quote = '\x27'
  opens : opening.peek = some quote
  reads : opening.next.Reads fragment.text.toList close
  closes : close.peek = some quote
  span_eq : fragment.span = opening.next.spanTo close

variable {α : Type} {c d opening close after : Cursor} {quote : Char} {fragment : Fragment}

theorem Fragment.StandsBetween.slash (between : fragment.StandsBetween quote opening close) : quote ≠ '\\' := by
  rcases between.kind with rfl | rfl <;> decide

/-- Reading a string gives what stands between its quote and the next one without a backslash. -/
theorem stringLiteral_eq_ok_iff :
    stringLiteral opening = .ok (fragment, after) ↔
      ∃ quote close, fragment.StandsBetween quote opening close ∧ Code.StringText quote fragment.text.toList ∧
        after = close.next := by
  constructor
  · intro read
    unfold stringLiteral at read
    split at read
    · next quote rest starts =>
      split at read
      · next kind =>
        split at read
        · next close found =>
          obtain ⟨rfl, rfl⟩ := Prod.mk.inj (Except.ok.inj read)
          obtain ⟨inside, reads, body, head⟩ := Code.stringText_of_findQuote? found
          have text : (Fragment.between opening.next close).text.toList = inside := by
            simp [Fragment.between, Fragment.ofChars, Cursor.Reads.textTo_eq reads]
          refine ⟨quote, close, ⟨kind, Cursor.peek_eq_some.mpr ⟨rest, starts⟩, text ▸ reads, head, ?_⟩, text ▸ body, rfl⟩
          simp [Fragment.between, Fragment.ofChars, Cursor.spanTo, Cursor.Reads.textTo_eq reads, reads.pos_eq]
        · simp at read
      · simp at read
    · simp at read
  · rintro ⟨quote, close, between, body, rfl⟩
    obtain ⟨rest, starts⟩ := Cursor.peek_eq_some.mp between.opens
    have found : Code.findQuote? quote opening.next.pos opening.next.rest = some close :=
      body.findQuote?_eq between.slash between.reads between.closes
    have same : Fragment.between opening.next close = fragment := by
      obtain ⟨text, span⟩ := fragment
      have span_eq := between.span_eq
      simp only at span_eq
      simp [Fragment.between, Fragment.ofChars, between.reads.textTo_eq, span_eq, Cursor.spanTo, between.reads.pos_eq]
    simp only [stringLiteral, starts, if_pos between.kind, found, same]

/-- Reading a string from the quote before a fragment gives the fragment just where no quote inside it is a closing one. -/
theorem Fragment.StandsBetween.stringLiteral_eq_iff (between : fragment.StandsBetween quote opening close) :
    stringLiteral opening = .ok (fragment, close.next) ↔ Code.StringText quote fragment.text.toList := by
  rw [stringLiteral_eq_ok_iff]
  constructor
  · rintro ⟨other, _, found, body, _⟩
    obtain rfl := Option.some.inj (found.opens.symm.trans between.opens)
    exact body
  · exact fun body => ⟨quote, close, between, body, rfl⟩

/-- At or after `c` the fragment stands between quotes; if it is said to be a literal, it is a single one. -/
def Fragment.QuotedFrom (c : Cursor) (literal : Prop) (fragment : Fragment) : Prop :=
  ∃ quote opening close, c ≤ opening ∧ fragment.StandsBetween quote opening close ∧
    (literal → Code.StringText quote fragment.text.toList)

theorem Fragment.QuotedFrom.mono {literal : Prop} (quoted : fragment.QuotedFrom d literal) (le : c ≤ d) :
    fragment.QuotedFrom c literal := by
  obtain ⟨quote, opening, close, later, rest⟩ := quoted
  exact ⟨quote, opening, close, le.trans later, rest⟩

theorem quotedFrom_of_stringLiteral (read : stringLiteral c = .ok (fragment, after)) (literal : Prop) :
    fragment.QuotedFrom c literal := by
  obtain ⟨quote, close, between, body, _⟩ := stringLiteral_eq_ok_iff.mp read
  exact ⟨quote, c, close, le_refl c, between, fun _ => body⟩

/-- A fragment without the quotes around it stands between them. -/
theorem Fragment.Within.unquoted_quotedFrom {literal : Prop} (within : fragment.Within c)
    (kind : quote = '"' ∨ quote = '\x27') (quoted : isQuotedBy quote fragment.text.toList = true)
    (body : literal → Code.StringText quote fragment.unquoted.text.toList) : fragment.unquoted.QuotedFrom c literal := by
  have split := Fragment.eq_of_isQuotedBy quoted
  have inner : fragment.unquoted.text.toList = fragment.text.toList.tail.dropLast := String.toList_ofList
  have byte : quote.utf8Size = 1 := by rcases kind with rfl | rfl <;> decide
  obtain ⟨before, after, rest, pos⟩ := within.partOf
  have stop := within.stop_eq
  rw [← inner] at split
  generalize same : fragment.unquoted.text.toList = text at split body
  have length := congrArg byteLength split
  simp only [byteLength_cons, byteLength_append, byteLength_nil, byte] at length
  let opening : Cursor := ⟨fragment.span.start, quote :: (text ++ quote :: after)⟩
  let close : Cursor := ⟨fragment.span.start + 1 + byteLength text, quote :: after⟩
  have onward : opening.next = ⟨fragment.span.start + 1, text ++ quote :: after⟩ := by
    simp only [opening, Cursor.next, byte]
  have starts : c.Reads before opening := by
    refine ⟨?_, pos⟩
    rw [rest, split]
    simp [opening]
  have reads : opening.next.Reads text close := by
    rw [onward]
    exact ⟨rfl, rfl⟩
  have span : fragment.unquoted.span = opening.next.spanTo close := by
    rw [onward]
    simp only [Fragment.unquoted, Cursor.spanTo, close]
    congr 1
    omega
  exact ⟨quote, opening, close, Cursor.le_of_reads starts, ⟨kind, rfl, same ▸ reads, rfl, span⟩, fun holds => same ▸ body holds⟩

/-! ## Values of a call -/

theorem all_isIdentPart_of_isIdentOrEmpty {text : List Char} (ident : isIdentOrEmpty text = true) :
    ∀ ch ∈ text, isIdentPart ch = true := by
  cases text with
  | nil => simp
  | cons first rest =>
    simp only [isIdentOrEmpty, identHead] at ident
    split at ident
    · next start =>
      have whole : rest.takeWhile isIdentPart = rest :=
        (List.takeWhile_prefix isIdentPart).eq_of_length (by simpa using ident)
      refine List.forall_mem_cons.mpr ⟨isIdentPart_of_isIdentStart start, ?_⟩
      exact List.takeWhile_eq_self_iff.mp whole
    · simp at ident

/-- The text of a value is what stands before the white space at the end of its entry, and no quote stands before it. -/
theorem namedEntry?_value {entry : Cursor} {name value : Fragment} (found : namedEntry? entry = some (name, value)) :
    ∃ front place blanks, entry.Reads front place ∧ (∀ ch ∈ front, Code.isQuote ch = false) ∧
      place.rest = value.text.toList ++ blanks ∧ blanks.all isBlank = true := by
  unfold namedEntry? at found
  obtain ⟨colon, here, rest⟩ := Option.bind_eq_some_iff.mp found
  obtain ⟨before, head⟩ := singleColon?_spec here
  simp only at rest
  split at rest
  · next fits =>
    simp only [Option.pure_def, Option.some.injEq, Prod.mk.injEq] at rest
    obtain ⟨rfl, rfl⟩ := rest
    simp only [Bool.and_eq_true] at fits
    obtain ⟨x, y, left, right, first, second, third, leftBlank, rightBlank, _⟩ := Fragment.reads_trimmed before
    obtain ⟨gap, onward, blank⟩ := Cursor.reads_skipBlank colon.next
    obtain ⟨blanks, split, last⟩ := exists_trimEnd_append colon.next.skipBlank.rest
    have whole := (first.trans (second.trans third)).trans ((Cursor.reads_next_of_peek head).trans onward)
    refine ⟨_, colon.next.skipBlank, blanks, whole, ?_, ?_, List.all_eq_true.mpr last⟩
    · have white {text : List Char} (blank : text.all isBlank = true) : ∀ ch ∈ text, Code.isQuote ch = false :=
        fun ch among => Code.not_isQuote_of rfl rfl (List.all_eq_true.mp blank ch among)
      intro ch member
      simp only [List.mem_append, List.mem_singleton] at member
      rcases member with (among | among | among) | rfl | among
      · exact white leftBlank ch among
      · exact Code.not_isQuote_of rfl rfl (all_isIdentPart_of_isIdentOrEmpty fits.1.2 ch among)
      · exact white rightBlank ch among
      · decide
      · exact white blank ch among
    · simpa [Fragment.trimmed, Fragment.ofChars] using split
  · simp at rest

/-- A quote that is alone on both sides is at the same place in both. -/
theorem eq_of_append_quote {first second before after : List Char} (same : first ++ quote :: before = second ++ quote :: after)
    (left : quote ∉ second) (right : quote ∉ after) : first = second := by
  rcases List.append_eq_append_iff.mp same with ⟨more, rfl, rest⟩ | ⟨more, rfl, rest⟩
  · cases more with
    | nil => simp
    | cons ch more =>
      obtain ⟨rfl, _⟩ := List.cons.inj rest
      simp at left
  · cases more with
    | nil => simp
    | cons ch more =>
      obtain ⟨rfl, rfl⟩ := List.cons.inj rest
      simp at right

/-- A value that begins and ends with a quote and has none inside is a single string, if all strings of its entry are
closed. -/
theorem stringText_of_value {entry : Cursor} {name value : Fragment} (lexed : Code.Lexed entry)
    (found : namedEntry? entry = some (name, value)) (quoted : isQuotedBy '"' value.text.toList = true)
    (inside : '"' ∉ value.unquoted.text.toList) : Code.StringText '"' value.unquoted.text.toList := by
  obtain ⟨front, place, blanks, reads, plain, rest, blank⟩ := namedEntry?_value found
  obtain ⟨word, lexes⟩ := lexed
  obtain ⟨word, lexes⟩ := lexes.drop rfl reads plain
  have inner : value.unquoted.text.toList = value.text.toList.tail.dropLast := String.toList_ofList
  rw [Fragment.eq_of_isQuotedBy quoted, ← inner] at rest
  generalize value.unquoted.text.toList = text at rest inside
  have starts : place.rest = '"' :: (text ++ '"' :: blanks) := by simpa using rest
  cases lexes with
  | nil => simp [Cursor.finish] at starts
  | character tick => simp [Cursor.peek, starts] at tick
  | char _ none => simp [Code.literalEnd?_quote starts] at none
  | @string _ after _ _ closed onward =>
    obtain ⟨held, takes, body⟩ := closed
    have both : held ++ '"' :: after.rest = text ++ '"' :: blanks := by simpa [starts] using takes.rest_eq.symm
    have outside : '"' ∉ blanks := by
      intro among
      exact absurd (List.all_eq_true.mp blank '"' among) (by decide)
    rwa [eq_of_append_quote both inside outside] at body

/-- The strings among the arguments of a call are single literals, if all strings between its parentheses are closed. -/
theorem callArguments?_quotedFrom {part : Cursor} {arguments : List (Argument Node)} (lexed : Code.Lexed part)
    (inside : part.PartOf c) (found : callArguments? part = some arguments) :
    ∀ argument ∈ arguments, ∀ fragment ∈ argument.value.quoted, fragment.QuotedFrom c True := by
  intro argument member fragment among
  unfold callArguments? at found
  obtain ⟨entries, read, rest⟩ := Option.bind_eq_some_iff.mp found
  obtain rfl := Option.some.inj rest
  obtain ⟨⟨name, value⟩, listed, rfl⟩ := List.mem_map.mp member
  obtain ⟨entry, piece, reads⟩ := exists_of_mem_mapM read listed
  have divided := (List.mem_filter.mp piece).1
  have within := ((namedEntry?_within reads).2.mono (Code.split_partOf ',' divided)).mono inside
  simp only [codeValue] at among
  split at among
  · simp [ArgumentValue.quoted] at among
  · split at among
    · simp [ArgumentValue.quoted] at among
    · split at among
      · simp [ArgumentValue.quoted] at among
      · split at among
        · next quoted =>
          obtain rfl : fragment = value.unquoted := by simpa [ArgumentValue.quoted] using among
          simp only [Bool.and_eq_true, Bool.not_eq_true', List.contains_eq_mem, decide_eq_false_iff_not] at quoted
          have none : '"' ∉ value.unquoted.text.toList := by
            rw [Fragment.unquoted, String.toList_ofList]
            exact quoted.2
          exact within.unquoted_quotedFrom (.inl rfl) quoted.1 fun _ =>
            stringText_of_value (Code.split_lexed lexed divided) reads quoted.1 none
        · simp [ArgumentValue.quoted] at among

/-! ## Directives and tags -/

theorem parenthesizedString_quotedFrom (read : parenthesizedString c = .ok (fragment, after)) (literal : Prop) :
    fragment.QuotedFrom c literal := by
  obtain ⟨inside, opens, read⟩ := exists_of_bind_ok read
  obtain ⟨⟨text, last⟩, reads, read⟩ := exists_of_bind_ok read
  obtain ⟨_, _, same⟩ := exists_of_bind_ok read
  obtain ⟨rfl, _⟩ := Prod.mk.inj (Except.ok.inj same)
  exact (quotedFrom_of_stringLiteral reads literal).mono ((lt_of_expect opens).le.trans (Cursor.le_skipBlank inside))

theorem layoutDirective_quotedFrom {directive : Directive Node} (read : layoutDirective c = .ok (directive, after))
    (literal : Prop) : ∀ fragment ∈ directive.quoted, fragment.QuotedFrom c literal := by
  unfold layoutDirective at read
  split at read
  · obtain ⟨rfl, _⟩ := Prod.mk.inj (Except.ok.inj read)
    simp [Directive.quoted]
  · next inside opens =>
    have start := (Cursor.lt_of_eat? opens).le.trans (Cursor.le_skipBlank inside)
    split at read
    · obtain ⟨rfl, _⟩ := Prod.mk.inj (Except.ok.inj read)
      simp [Directive.quoted]
    · obtain ⟨⟨path, last⟩, reads, read⟩ := exists_of_bind_ok read
      obtain ⟨_, _, same⟩ := exists_of_bind_ok read
      obtain ⟨rfl, _⟩ := Prod.mk.inj (Except.ok.inj same)
      intro fragment member
      obtain rfl : fragment = path := by simpa [Directive.quoted] using member
      exact (quotedFrom_of_stringLiteral reads literal).mono start

theorem useDirective_quotedFrom {directive : Directive Node} (read : useDirective c = .ok (directive, after))
    (literal : Prop) : ∀ fragment ∈ directive.quoted, fragment.QuotedFrom c literal := by
  obtain ⟨⟨path, last⟩, reads, read⟩ := exists_of_bind_ok read
  obtain ⟨⟨component, _⟩, _, same⟩ := exists_of_bind_ok read
  obtain ⟨rfl, _⟩ := Prod.mk.inj (Except.ok.inj same)
  intro fragment member
  obtain rfl := List.mem_singleton.mp member
  exact (quotedFrom_of_stringLiteral reads literal).mono (Cursor.le_skipInlineBlank c)

theorem sectionValue?_quotedFrom {part : Cursor} {directive : Directive Node} (inside : part.PartOf c)
    (found : sectionValue? part = some directive) :
    ∀ fragment ∈ directive.quoted, fragment.QuotedFrom c (∀ name value, directive ≠ .sectionValue name value) := by
  unfold sectionValue? at found
  split at found
  · next first second pieces =>
    have name : (Fragment.trimmed first).Within part :=
      (Fragment.trimmed_within first).mono (Code.split_partOf ',' (by rw [pieces]; simp))
    simp only at found
    split at found
    · next quoted =>
      obtain rfl := Option.some.inj found
      simp only [Bool.and_eq_true, Bool.or_eq_true] at quoted
      intro fragment member
      obtain rfl := List.mem_singleton.mp member
      rcases quoted.1 with double | single
      · exact (name.mono inside).unquoted_quotedFrom (.inl rfl) double fun other => absurd rfl (other _ _)
      · exact (name.mono inside).unquoted_quotedFrom (.inr rfl) single fun other => absurd rfl (other _ _)
    · simp at found
  · simp at found

theorem DirectiveFrom.quotedFrom {directive : Directive Node} (read : DirectiveFrom c directive after) :
    ∀ fragment ∈ directive.quoted, fragment.QuotedFrom c (∀ name value, directive ≠ .sectionValue name value) := by
  cases read with
  | layout read => exact layoutDirective_quotedFrom read _
  | useFile read => exact useDirective_quotedFrom read _
  | includeFile read | render read =>
    obtain ⟨⟨text, last⟩, reads, same⟩ := exists_of_bind_ok read
    obtain ⟨rfl, _⟩ := Prod.mk.inj (Except.ok.inj same)
    intro fragment member
    obtain rfl := List.mem_singleton.mp member
    exact parenthesizedString_quotedFrom reads _
  | renderBody read | childContent read =>
    obtain ⟨rfl, _⟩ := Prod.mk.inj (Except.ok.inj read)
    simp [Directive.quoted]
  | sectionValue opens enclosed value =>
    have lt := Code.lt_of_enclosed opens rfl enclosed
    have inside := (Code.enclosed_inner_partOf opens rfl enclosed).trans (Cursor.upTo_partOf lt.le)
    exact sectionValue?_quotedFrom inside value
  | sectionBlock | raw | function => simp [Directive.quoted]

theorem AttributeFrom.quotedFrom {argument : Argument Node} (read : AttributeFrom c argument after) :
    ∀ fragment ∈ argument.value.quoted, fragment.QuotedFrom c True := by
  cases read with
  | flag => simp [ArgumentValue.quoted]
  | valued sign reads =>
    have start := (Cursor.le_skipWhile isAttributePart c).trans ((Cursor.le_skipBlank _).trans
      ((Cursor.lt_of_eat? sign).le.trans (Cursor.le_skipBlank _)))
    cases reads with
    | string read =>
      intro fragment member
      obtain rfl := List.mem_singleton.mp member
      exact (quotedFrom_of_stringLiteral read True).mono start
    | block | expression => simp [ArgumentValue.quoted]
    | constant word =>
      rcases constantValue?_eq word with rfl | rfl | ⟨text, rfl⟩ <;> simp [ArgumentValue.quoted]

theorem Attributes.quotedFrom {arguments : List (Argument Node)} (attributes : Attributes c arguments after) :
    ∀ argument ∈ arguments, ∀ fragment ∈ argument.value.quoted, fragment.QuotedFrom c True := by
  induction attributes with
  | start => simp
  | @more arguments argument place after earlier _ _ next ih =>
    intro other member
    rcases List.mem_append.mp member with among | last
    · exact ih other among
    · obtain rfl := List.mem_singleton.mp last
      intro fragment inside
      exact (next.quotedFrom fragment inside).mono (earlier.inOrder.le.trans (Cursor.le_skipBlank place))

theorem Fragment.QuotedFrom.imp {first second : Prop} (quoted : fragment.QuotedFrom c first) (weaker : second → first) :
    fragment.QuotedFrom c second := by
  obtain ⟨quote, opening, close, later, between, body⟩ := quoted
  exact ⟨quote, opening, close, later, between, fun holds => body (weaker holds)⟩

/-- What a construct takes from between quotes is a single literal, unless it is a section with a value. -/
theorem Spells.quotedFrom {node : Node} (spells : Spells c node d) :
    ∀ fragment ∈ node.form.quoted,
      fragment.QuotedFrom c (∀ name value, node.form ≠ .directive (.sectionValue name value)) := by
  have component {arguments : List (Argument Node)} {place : Cursor} {literal : Prop} (le : c ≤ place)
      (each : ∀ argument ∈ arguments, ∀ fragment ∈ argument.value.quoted, fragment.QuotedFrom place True) :
      ∀ fragment ∈ arguments.flatMap fun argument => argument.value.quoted, fragment.QuotedFrom c literal := by
    intro fragment member
    obtain ⟨argument, among, inside⟩ := List.mem_flatMap.mp member
    exact ((each argument among fragment inside).mono le).imp fun _ => trivial
  cases spells with
  | directive opens read =>
    intro fragment member
    refine ((read.quotedFrom fragment member).mono opens.lt.le).imp fun other name value same => ?_
    exact other name value (by rw [Node.form, same])
  | selfClosing opens attributes | tag opens attributes =>
    exact component ((Cursor.le_next c).trans (Cursor.le_skipTagName _)) attributes.quotedFrom
  | call sigil opens enclosed entries =>
    have lt := Code.lt_of_enclosed opens rfl enclosed
    have inside := (Code.enclosed_inner_partOf opens rfl enclosed).trans (Cursor.upTo_partOf lt.le)
    exact component ((Cursor.le_next c).trans (Cursor.le_skipIdent _))
      (callArguments?_quotedFrom (Code.enclosed_lexed opens enclosed) inside entries)
  | comment | codeBlock | paren | simple | parameters | statement | error => simp [Node.form, Form.quoted]

theorem Grown.quotedFrom {source : List Char} {node : Node} (grown : Grown source node) :
    ∀ fragment ∈ node.form.quoted, fragment.QuotedFrom (Cursor.ofText source)
      (∀ name value, node.form ≠ .directive (.sectionValue name value)) := by
  cases grown with
  | text => simp [Node.form, Form.quoted]
  | construct place spells => exact fun fragment member => (spells.quotedFrom fragment member).mono place

/-- Every fragment that a tree takes from between quotes stands right between two quotes of one kind. Reading a string
from the first of them gives the fragment exactly if no quote inside it can close it, and so it does for every path,
every name to be rendered and every string given to a component, in a tag or in a call. The name of a section with a
value is left out there: it may be more than one literal. -/
theorem Tree.read_strings {options : ReadOptions} {source : List Char} {tree : Tree}
    (read : Tree.read options source = .ok tree) :
    ∀ node ∈ tree.preorder, ∀ fragment ∈ node.form.quoted,
      ∃ quote opening close, Cursor.ofText source ≤ opening ∧ fragment.StandsBetween quote opening close ∧
        (stringLiteral opening = .ok (fragment, close.next) ↔ Code.StringText quote fragment.text.toList) ∧
        ((∀ name value, node.form ≠ .directive (.sectionValue name value)) →
          stringLiteral opening = .ok (fragment, close.next)) := by
  intro node member fragment among
  have grown := (Tree.read_grown read).of_mem_preorder node member
  obtain ⟨quote, opening, close, place, between, body⟩ := grown.quotedFrom fragment among
  have whole := between.stringLiteral_eq_iff
  exact ⟨quote, opening, close, place, between, whole, fun other => whole.mpr (body other)⟩

/-- A string in a call that ends with an escaped backslash. -/
theorem Tree.read_strings_sample :
    ∃ tree, Tree.read {} "@C(a: \"x\\\\\") \x7b \x7d".toList = .ok tree ∧
      ∃ node ∈ tree.preorder, ⟨"x\\\\", ⟨7, 10⟩⟩ ∈ node.form.quoted ∧ ∃ quote opening close,
        Fragment.StandsBetween quote opening close ⟨"x\\\\", ⟨7, 10⟩⟩ ∧
          stringLiteral opening = .ok (⟨"x\\\\", ⟨7, 10⟩⟩, close.next) := by
  have read : Tree.read {} "@C(a: \"x\\\\\") \x7b \x7d".toList =
      .ok ⟨[⟨.component ⟨⟨"C", ⟨1, 2⟩⟩, .call, [⟨⟨"a", ⟨3, 4⟩⟩, .string ⟨"x\\\\", ⟨7, 10⟩⟩, ⟨3, 11⟩⟩],
        [⟨.text " ", ⟨14, 15⟩⟩], false⟩, ⟨0, 16⟩⟩], "@C(a: \"x\\\\\") \x7b \x7d".toList, 0⟩ := by cbv
  refine ⟨_, read, _, Tree.mem_preorder_of_mem_nodes List.mem_cons_self, List.mem_cons_self, ?_⟩
  obtain ⟨quote, opening, close, _, between, _, whole⟩ :=
    Tree.read_strings read _ (Tree.mem_preorder_of_mem_nodes List.mem_cons_self) _ List.mem_cons_self
  exact ⟨quote, opening, close, between, whole fun _ _ other => by simp [Node.form] at other⟩

/-- Two literals with a plus between them are taken for one name, and reading a string from the first quote gives the
first of them only. -/
theorem Tree.read_strings_section :
    ∃ tree, Tree.read {} "@section(\"a\" + \"b\", v)".toList = .ok tree ∧
      ∃ node ∈ tree.preorder, ∃ fragment ∈ node.form.quoted,
        ∃ opening, Cursor.ofOffset? "@section(\"a\" + \"b\", v)".toList (fragment.span.start - 1) = some opening ∧
          ∀ after, stringLiteral opening ≠ .ok (fragment, after) := by
  have read : Tree.read {} "@section(\"a\" + \"b\", v)".toList =
      .ok ⟨[⟨.directive (.sectionValue ⟨"a\" + \"b", ⟨10, 17⟩⟩ ⟨"v", ⟨20, 21⟩⟩), ⟨0, 22⟩⟩],
        "@section(\"a\" + \"b\", v)".toList, 0⟩ := by cbv
  have first : stringLiteral ⟨9, "\"a\" + \"b\", v)".toList⟩ = .ok (⟨"a", ⟨10, 11⟩⟩, ⟨12, " + \"b\", v)".toList⟩) := by cbv
  refine ⟨_, read, _, Tree.mem_preorder_of_mem_nodes List.mem_cons_self, _, List.mem_cons_self, _, rfl, ?_⟩
  intro after whole
  have same := Except.ok.inj (first.symm.trans whole)
  simp at same

end SigilTemplate
