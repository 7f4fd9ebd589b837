import Mathlib
import SigilTemplate.Proofs.Code.TypeText
import SigilTemplate.Proofs.Tree.Fragment
import SigilTemplate.Proofs.Tree.Header

/-!
Headers that are written out from names and types. Such a header is read back
with these names and types, unless the end of an arrow in a type is taken for a
closing bracket and lets a comma of the type separate; it is then no header at
all.
-/

namespace SigilTemplate
open Text Code

/-- A parameter as it is to be written. -/
structure HeaderEntry where
  name : List Char
  type : List Char
deriving DecidableEq

namespace HeaderEntry

def text (entry : HeaderEntry) : List Char := entry.name ++ ':' :: ' ' :: entry.type

/-- The name is an identifier, and the type is one with brackets that nest no deeper than `nesting`. -/
structure Written (nesting : Nat) (entry : HeaderEntry) : Prop where
  name : IsIdentifier entry.name
  type : TypeText .type nesting entry.type

end HeaderEntry

/-- A parameter as it would be written. -/
def Parameter.entry (parameter : Parameter) : HeaderEntry :=
  ⟨parameter.name.text.toList, parameter.type.text.toList⟩

/-- The entries of a header, with commas between them. -/
def entriesText (entries : List HeaderEntry) : List Char := [',', ' '].intercalate (entries.map HeaderEntry.text)

/-- A header with the given entries. -/
def headerText (entries : List HeaderEntry) : List Char := '@' :: '(' :: (entriesText entries ++ [')', ';'])

section

variable {entry : HeaderEntry} {entries : List HeaderEntry} {nesting : Nat} {text gap : List Char} {part : Cursor}

/-! ## One entry -/

theorem Fragment.text_trimmed (starts : part.rest = gap ++ text) (blank : gap.all isBlank = true)
    (first : ∀ ch, text.head? = some ch → isBlank ch = false) (last : ∀ ch, text.getLast? = some ch → isBlank ch = false) :
    (trimmed part).text = String.ofList text := by
  have front : part.skipBlank.rest = text := by
    rw [Cursor.skipBlank, Cursor.rest_skipWhile, starts, List.dropWhile_append_of_pos (by simpa using blank)]
    cases text with
    | nil => rfl
    | cons ch rest => rw [List.dropWhile_cons_of_neg (by simp [first ch rfl])]
  have back : trimEnd text = text := by
    unfold trimEnd
    cases backwards : text.reverse with
    | nil => simpa using backwards.symm
    | cons ch rest =>
      have ends : text.getLast? = some ch := by rw [← List.head?_reverse, backwards]; rfl
      rw [List.dropWhile_cons_of_neg (by simp [last ch ends]), ← backwards, List.reverse_reverse]
  simp only [trimmed, ofChars, front, back]

/-- The first colon is a single one where it comes before a space. -/
theorem singleColon?_go_append {before rest : List Char} (none : ':' ∉ before) (pos : Nat) :
    singleColon?.go false pos (before ++ ':' :: ' ' :: rest) = some ⟨pos + byteLength before, ':' :: ' ' :: rest⟩ := by
  induction before generalizing pos with
  | nil => simp [singleColon?.go]
  | cons ch before ih =>
    simp only [List.mem_cons, not_or] at none
    have other : (ch == ':') = false := by simpa using (Ne.symm none.1)
    rw [List.cons_append, singleColon?.go, if_neg (fun colon => none.1 colon.1.symm), other, ih none.2, byteLength_cons,
      Nat.add_assoc]

/-- An entry is read back, also after a space. -/
theorem HeaderEntry.Written.readBack (written : entry.Written nesting) (space : IsGap gap)
    (starts : part.rest = gap ++ entry.text) :
    ∃ found, namedEntry? part = some found ∧ Parameter.entry ⟨found.1, found.2⟩ = entry := by
  have blank : gap.all isBlank = true := space.all (by decide)
  have colonless : ':' ∉ gap ++ entry.name := by
    simp [space.not_mem ':' (by decide), written.name.not_mem ':' rfl]
  have split : part.rest = (gap ++ entry.name) ++ ':' :: ' ' :: entry.type := by rw [starts, HeaderEntry.text, List.append_assoc]
  let colon : Cursor := ⟨part.pos + byteLength (gap ++ entry.name), ':' :: ' ' :: entry.type⟩
  have found : singleColon? part = some colon := by
    rw [singleColon?, split]
    exact singleColon?_go_append colonless part.pos
  have front : part.Reads (gap ++ entry.name) colon := ⟨split, rfl⟩
  have letters := List.all_eq_true.mp (written.name.all (p := isIdentPart) fun _ => id)
  have name : (Fragment.trimmed (part.upTo colon)).text = String.ofList entry.name := by
    have inside : (part.upTo colon).rest = gap ++ entry.name := by rw [Cursor.upTo_eq front]
    apply Fragment.text_trimmed inside blank
    · intro ch head
      exact not_isBlank_of_isIdentPart (letters ch (List.mem_of_head? head))
    · intro ch last
      exact not_isBlank_of_isIdentPart (letters ch (List.mem_of_getLast? last))
  have type : (Fragment.trimmed colon.next).text = String.ofList entry.type := by
    have inside : colon.next.rest = [' '] ++ entry.type := rfl
    apply Fragment.text_trimmed inside (by decide)
    · obtain ⟨ch, rest, same, solid, _⟩ := written.type.startsSolid (by simp)
      rw [same]
      rintro _ ⟨⟩
      exact solid
    · intro ch last
      exact written.type.not_isBlank_of_getLast? (by simp) last
  refine ⟨(.trimmed (part.upTo colon), .trimmed colon.next), ?_, by simp [Parameter.entry, name, type]⟩
  have named : entry.name ≠ [] := written.name.startsSolid.ne_nil
  have typed : entry.type ≠ [] := (written.type.startsSolid (by simp)).ne_nil
  simp [ namedEntry?, found, Fragment.isEmpty, name, type, written.name.isIdentOrEmpty, named, typed]

/-! ## All entries -/

/-- What goes over from texts to their concatenation goes over from entries to the text of them all. -/
theorem entriesText_induct {p : List Char → Prop} (none : p [])
    (append : ∀ first second, p first → p second → p (first ++ second)) (comma : p [',', ' '])
    (each : ∀ entry ∈ entries, p entry.text) : p (entriesText entries) := by
  induction entries with
  | nil => exact none
  | cons entry others ih =>
    have first := each entry List.mem_cons_self
    have behind := ih fun other among => each other (List.mem_cons_of_mem _ among)
    cases others with
    | nil => simpa [entriesText] using first
    | cons other others =>
      simp only [entriesText, List.map_cons, List.intercalate_cons_cons] at behind ⊢
      exact append _ _ (append _ _ first comma) behind

theorem HeaderEntry.Written.passedOver (written : entry.Written nesting) : PassedOver nesting entry.text :=
  (PassedOver.of_ordinary (written.name.all fun _ => isOrdinary_of_isIdentPart) nesting).append
    (.cons (by decide) (.cons (by decide) written.type.passedOver))

theorem HeaderEntry.Written.not_isQuote (written : entry.Written nesting) : entry.text.all (!isQuote ·) = true := by
  have name : TypeText .atom nesting entry.name := .word written.name
  rw [HeaderEntry.text, List.all_append, List.all_cons, List.all_cons, written.type.not_isQuote, name.not_isQuote]
  rfl

theorem passedOver_entriesText (written : ∀ entry ∈ entries, entry.Written nesting) :
    PassedOver nesting (entriesText entries) :=
  entriesText_induct (.of_ordinary (by decide) nesting) (fun _ _ => .append) (.of_ordinary (by decide) nesting)
    fun entry among => (written entry among).passedOver

theorem not_isQuote_entriesText (written : ∀ entry ∈ entries, entry.Written nesting) :
    (entriesText entries).all (!isQuote ·) = true :=
  entriesText_induct (p := fun text => text.all (!isQuote ·) = true) rfl
    (fun _ _ first second => by rw [List.all_append, first, second]; rfl) (by decide)
    fun entry among => (written entry among).not_isQuote

theorem HeaderEntry.append_text (gap : List Char) (entry : HeaderEntry) :
    gap ++ entry.text = gap ++ (entry.name ++ [':', ' ']) ++ entry.type := by
  simp [HeaderEntry.text]

/-- Nothing is counted as open where the type of an entry starts. -/
theorem HeaderEntry.Written.countOver_name (written : entry.Written nesting) (space : IsGap gap) :
    countOver 0 (gap ++ (entry.name ++ [':', ' '])) = 0 := by
  apply countOver_of_isUncounted
  rw [List.all_append, List.all_append, space.all (by decide), written.name.all fun _ => isUncounted_of_isIdentPart]
  rfl

theorem HeaderEntry.Written.countOver_eq_zero (written : entry.Written nesting) (space : IsGap gap) :
    countOver 0 (gap ++ entry.text) = 0 := by
  rw [HeaderEntry.append_text, countOver_append, written.countOver_name space]
  exact Nat.le_zero.mp (written.type.countOver_le 0)

/-- Where the type keeps its commas, the entry is one part. -/
theorem HeaderEntry.Written.commaParts_eq (written : entry.Written nesting) (space : IsGap gap)
    (keeps : KeepsCommas 0 entry.type) : commaParts 0 (gap ++ entry.text) = [gap ++ entry.text] := by
  apply commaParts_of_keepsCommas
  rw [HeaderEntry.append_text]
  refine KeepsCommas.append (.of_not_mem ?_ 0) (by rwa [written.countOver_name space])
  simp [space.not_mem ',' (by decide), written.name.not_mem ',' rfl]

/-- Where it does not, some part is no entry. -/
theorem HeaderEntry.Written.exists_mangled (written : entry.Written nesting) (space : IsGap gap)
    (cut : ¬KeepsCommas 0 entry.type) :
    ∃ part ∈ commaParts 0 (gap ++ entry.text), part.all isBlank = false ∧ Paired part := by
  rw [HeaderEntry.append_text]
  exact written.type.exists_mangled cut (written.countOver_name space)

/-- A text is a written entry, perhaps after a space. -/
def SpellsEntry (text : List Char) (entry : HeaderEntry) : Prop := ∃ gap, IsGap gap ∧ text = gap ++ entry.text

/-- Written entries are split into the parts of each of them. -/
theorem split_entriesText {c : Cursor} (starts : c.rest = entriesText entries) (nonempty : entries ≠ [])
    (written : ∀ entry ∈ entries, entry.Written nesting) :
    ∃ texts, List.Forall₂ SpellsEntry texts entries ∧ (split ',' c).map (·.rest) = texts.flatMap (commaParts 0) := by
  have plain := not_isQuote_entriesText written
  have closed : ∀ entry ∈ entries, countOver 0 entry.text = 0 := fun entry among =>
    (written entry among).countOver_eq_zero (.inl rfl)
  rw [split_rest (by rw [starts]; simpa using plain), starts]
  cases entries with
  | nil => exact absurd rfl nonempty
  | cons entry others =>
    refine ⟨entry.text :: others.map (' ' :: ·.text), .cons ⟨[], .inl rfl, rfl⟩ ?_, ?_⟩
    · rw [List.forall₂_map_left_iff, List.forall₂_same]
      exact fun other _ => ⟨[' '], .inr rfl, rfl⟩
    · rw [entriesText, List.map_cons, commaParts_intercalate (closed entry List.mem_cons_self), List.flatMap_map,
        List.flatMap_cons, List.flatMap_map]
      intro text among
      obtain ⟨other, member, rfl⟩ := List.mem_map.mp among
      exact closed other (List.mem_cons_of_mem _ member)

/-- Where all types keep their commas, the parts are the entries. -/
theorem flatMap_commaParts {texts : List (List Char)} (spelled : List.Forall₂ SpellsEntry texts entries)
    (written : ∀ entry ∈ entries, entry.Written nesting) (keeps : ∀ entry ∈ entries, KeepsCommas 0 entry.type) :
    texts.flatMap (commaParts 0) = texts := by
  induction spelled with
  | nil => rfl
  | cons here _ ih =>
    obtain ⟨gap, space, rfl⟩ := here
    rw [List.flatMap_cons, (written _ List.mem_cons_self).commaParts_eq space (keeps _ List.mem_cons_self),
      ih (fun other among => written other (List.mem_cons_of_mem _ among))
        (fun other among => keeps other (List.mem_cons_of_mem _ among))]
    rfl

/-- Where a type does not, some part is neither blank nor an entry. -/
theorem exists_mangled_flatMap {texts : List (List Char)} (spelled : List.Forall₂ SpellsEntry texts entries)
    (written : ∀ entry ∈ entries, entry.Written nesting) (among : entry ∈ entries) (cut : ¬KeepsCommas 0 entry.type) :
    ∃ part ∈ texts.flatMap (commaParts 0), part.all isBlank = false ∧ Paired part := by
  induction spelled with
  | nil => cases among
  | cons here _ ih =>
    rw [List.flatMap_cons]
    rcases List.mem_cons.mp among with rfl | among
    · obtain ⟨gap, space, rfl⟩ := here
      obtain ⟨part, member, facts⟩ := (written _ List.mem_cons_self).exists_mangled space cut
      exact ⟨part, List.mem_append_left _ member, facts⟩
    · obtain ⟨part, member, facts⟩ := ih (fun other among => written other (List.mem_cons_of_mem _ among)) among
      exact ⟨part, List.mem_append_right _ member, facts⟩

/-- The entries are read back one by one. -/
theorem exists_mapM_eq {parts : List Cursor} (spelled : List.Forall₂ (fun part => SpellsEntry part.rest) parts entries)
    (written : ∀ entry ∈ entries, entry.Written nesting) :
    ∃ found, (parts.filter fun part => !part.rest.all isBlank).mapM namedEntry? = some found ∧
      found.map (fun pair => Parameter.entry ⟨pair.1, pair.2⟩) = entries := by
  induction spelled with
  | nil => exact ⟨[], rfl, rfl⟩
  | @cons part entry parts entries here _ ih =>
    obtain ⟨gap, space, starts⟩ := here
    have whole := written entry List.mem_cons_self
    obtain ⟨first, read, same⟩ := whole.readBack space starts
    obtain ⟨others, reads, further⟩ := ih fun other among => written other (List.mem_cons_of_mem _ among)
    have solid : part.rest.all isBlank = false := by
      obtain ⟨ch, rest, name, solid, _⟩ := whole.name.startsSolid
      rw [List.all_eq_false]
      exact ⟨ch, by simp [starts, HeaderEntry.text, name], by simp [solid]⟩
    refine ⟨first :: others, ?_, by rw [List.map_cons, same, further]⟩
    rw [List.filter_cons_of_pos (by simp [solid]), List.mapM_cons, read, reads]
    rfl

/-- Written entries are read back as parameters if their types keep their commas. -/
theorem templateParameters?_of_keeps {c : Cursor} (starts : c.rest = entriesText entries) (nonempty : entries ≠ [])
    (written : ∀ entry ∈ entries, entry.Written nesting) (keeps : ∀ entry ∈ entries, KeepsCommas 0 entry.type) :
    ∃ list, templateParameters? c = some list ∧ list.map Parameter.entry = entries := by
  obtain ⟨texts, spelled, parts⟩ := split_entriesText starts nonempty written
  rw [flatMap_commaParts spelled written keeps] at parts
  rw [← parts, List.forall₂_map_left_iff] at spelled
  obtain ⟨found, read, same⟩ := exists_mapM_eq spelled written
  have kept : found ≠ [] := by
    rintro rfl
    exact nonempty same.symm
  refine ⟨found.map fun pair => ⟨pair.1, pair.2⟩, ?_, by rw [List.map_map]; exact same⟩
  simp [templateParameters?, namedEntries?, read, kept]

/-- If one type does not keep its commas, there are no parameters. -/
theorem templateParameters?_of_cut {c : Cursor} (starts : c.rest = entriesText entries)
    (written : ∀ entry ∈ entries, entry.Written nesting) (among : entry ∈ entries) (cut : ¬KeepsCommas 0 entry.type) :
    templateParameters? c = none := by
  obtain ⟨texts, spelled, parts⟩ := split_entriesText starts (List.ne_nil_of_mem among) written
  obtain ⟨text, member, solid, paired⟩ := exists_mangled_flatMap spelled written among cut
  rw [← parts] at member
  obtain ⟨part, inside, rfl⟩ := List.mem_map.mp member
  have kept : part ∈ (split ',' c).filter fun part => !part.rest.all isBlank := List.mem_filter.mpr ⟨inside, by simp [solid]⟩
  have unread : namedEntry? part = none := by simp [ namedEntry?, singleColon?_eq_none paired]
  obtain ⟨front, back, around⟩ := List.append_of_mem kept
  have refused : namedEntries? c = none := by
    rw [namedEntries?, around, List.mapM_append, List.mapM_cons, unread]
    cases front.mapM namedEntry? <;> rfl
  simp [templateParameters?, refused]

/-! ## The whole header -/

/-- A written header is one as far as its delimiters go; whether it is a header rests on its entries. -/
theorem readHeader?_headerText {maxDepth : Nat} (written : ∀ entry ∈ entries, entry.Written (maxDepth - 1)) :
    ∃ inner after, inner.rest = entriesText entries ∧ after.rest = [] ∧ after.pos = byteLength (headerText entries) ∧
      readHeader? maxDepth (contentCursor (headerText entries)) =
        (templateParameters? inner).map fun list => ([⟨.parameters list, ⟨0, after.pos⟩⟩], after) := by
  let start := Cursor.ofText (headerText entries)
  have room : maxDepth - 1 + 1 ≤ max maxDepth 1 := by omega
  have sigil : start.next.rest = '(' :: (entriesText entries ++ ')' :: [';']) := rfl
  obtain ⟨close, inside, ends, fragment⟩ :=
    enclosed_of_passedOver (passedOver_entriesText written) room rfl sigil
  have behind : close.next.rest = [';'] := by rw [Cursor.next, ends]
  have solid : close.next.skipBlank = close.next := by
    rw [Cursor.skipBlank, Cursor.skipWhile_eq_iff]
    refine ⟨[], .refl _, rfl, ?_⟩
    intro ch head
    rw [Cursor.peek, behind] at head
    obtain rfl := Option.some.inj head
    decide
  have after : close.next.eat? ';' = some close.next.next := by simp [Cursor.eat?, Cursor.peek, behind]
  have opening : start.Reads ['@', '('] start.next.next :=
    (Cursor.reads_next (c := start) rfl).trans (Cursor.reads_next sigil)
  have closing : close.Reads [')', ';'] close.next.next := (Cursor.reads_next ends).trans (Cursor.reads_next behind)
  have whole : start.Reads (headerText entries) close.next.next := opening.trans (inside.trans closing)
  have nothing : close.next.next.rest = [] := by simp [Cursor.next, ends]
  refine ⟨start.next.next.upTo close, close.next.next, by rw [Cursor.upTo_eq inside], nothing, ?_, ?_⟩
  · rw [whole.pos_eq]
    exact Nat.zero_add _
  · have content : contentCursor (headerText entries) = start := rfl
    have blank : start.skipBlank = start := rfl
    have first : start.eat? '@' = some start.next := rfl
    have paren : start.next.peek = some '(' := rfl
    simp only [readHeader?, content, blank, first, Option.bind_eq_bind, Option.bind_some, paren, ne_eq,
      not_true_eq_false, if_false, fragment, solid, after, leadingText, lt_self_iff_false, List.nil_append]
    cases templateParameters? (start.next.next.upTo close) <;> rfl

/-- A region at the end of the text is empty. -/
theorem Level.region_of_end {room : Nat} {context : Context} {kind : RegionKind} {c : Cursor} (empty : c.rest = []) :
    (Level.withRoom room).region context kind c = pure ⟨[], .textEnd, c⟩ := by
  have head : c.peek = none := Cursor.peek_eq_none.mpr empty
  rw [Level.withRoom_eq]
  change readRegion _ context kind c = _
  have step : regionStep (.ofRoom room) context kind ⟨[], {}, c⟩ = pure (.inr ⟨[], .textEnd, c⟩) := by
    simp only [regionStep, head]
    rfl
  rw [readRegion, Traced.iterate, Traced.iterate.go, step]
  rfl

/-- A header that is written out from names and types is read back if its types keep their commas: the template is then
its parameters, with these names and types in order. Where the end of an arrow makes a comma of some type separate,
there are no parameters at all. A type without arrows keeps its commas. -/
theorem Tree.read_headerText (maxDepth : Nat) (entries : List HeaderEntry) (nonempty : entries ≠ [])
    (written : ∀ entry ∈ entries, entry.Written (maxDepth - 1)) :
    ((∀ entry ∈ entries, KeepsCommas 0 entry.type) → ∃ list,
      Tree.read ⟨maxDepth, true⟩ (headerText entries) =
        .ok ⟨[⟨.parameters list, ⟨0, byteLength (headerText entries)⟩⟩], headerText entries, 0⟩ ∧
        list.map Parameter.entry = entries) ∧
    ((∃ entry ∈ entries, ¬KeepsCommas 0 entry.type) →
      ∀ tree, Tree.read ⟨maxDepth, true⟩ (headerText entries) = .ok tree →
        ∀ node ∈ tree.preorder, ∀ list, node.form ≠ .parameters list) ∧
    ∀ entry ∈ entries, '-' ∉ entry.type → KeepsCommas 0 entry.type := by
  obtain ⟨inner, after, starts, empty, pos, header⟩ := readHeader?_headerText written
  refine ⟨?_, ?_, ?_⟩
  · intro keeps
    obtain ⟨list, read, same⟩ := templateParameters?_of_keeps starts nonempty written keeps
    refine ⟨list, ?_, same⟩
    rw [read, Option.map_some, pos] at header
    simp only [Tree.read, Tree.trace, header, if_true, Option.getD_some, Level.region_of_end empty]
    rfl
  · rintro ⟨entry, among, cut⟩ tree read node member list
    rw [templateParameters?_of_cut starts written among cut, Option.map_none] at header
    obtain ⟨nodes, same, headerless⟩ := Tree.exists_leading read
    simp only [header, if_true, Option.getD_none, List.nil_append] at same
    rw [Tree.preorder, same] at member
    obtain ⟨root, inside, below⟩ := List.mem_flatMap.mp member
    exact headerless root inside node below list
  · intro entry among plain
    exact ((written entry among).type.balanced_of_not_mem plain (by simp)).keeps

end

/-- The type of a function. -/
theorem typeText_function : TypeText .type 127 "fn(u8) -> u8".toList := by
  have none : IsGap [] := .inl rfl
  have space : IsGap [' '] := .inr rfl
  have word : ∀ text, IsIdentifier text → TypeText .atom 127 text := fun _ => .word
  have byte : TypeText .atom 126 ['u', '8'] := .word ⟨_, _, rfl, rfl, rfl⟩
  exact .more (word ['f', 'n'] ⟨_, _, rfl, rfl, rfl⟩) none (.more (.round (.one (.single byte))) space
    (.more .arrow space (.single (word ['u', '8'] ⟨_, _, rfl, rfl, rfl⟩))))

/-- A map from one type to another and a function between two. -/
theorem Tree.read_headerText_sample :
    ∃ list, Tree.read ⟨128, true⟩ "@(map: Map<K, V>, next: fn(u8) -> u8);".toList =
        .ok ⟨[⟨.parameters list, ⟨0, 38⟩⟩], "@(map: Map<K, V>, next: fn(u8) -> u8);".toList, 0⟩ ∧
      list.map Parameter.entry =
        [⟨"map".toList, "Map<K, V>".toList⟩, ⟨"next".toList, "fn(u8) -> u8".toList⟩] := by
  have none : IsGap [] := .inl rfl
  have space : IsGap [' '] := .inr rfl
  have word : ∀ text, IsIdentifier text → TypeText .atom 127 text := fun _ => .word
  have key : TypeText .type 127 ['K'] := .single (.word ⟨_, _, rfl, rfl, rfl⟩)
  have value : TypeText .type 127 ['V'] := .single (.word ⟨_, _, rfl, rfl, rfl⟩)
  have map : TypeText .type 127 "Map<K, V>".toList :=
    .more (word ['M', 'a', 'p'] ⟨_, _, rfl, rfl, rfl⟩) none (.single (.angle (.next key space (.one value))))
  let entries : List HeaderEntry := [⟨"map".toList, "Map<K, V>".toList⟩, ⟨"next".toList, "fn(u8) -> u8".toList⟩]
  have written : ∀ entry ∈ entries, entry.Written 127 := by
    intro entry among
    rcases List.mem_cons.mp among with rfl | among
    · exact ⟨⟨_, _, rfl, rfl, rfl⟩, map⟩
    · obtain rfl := List.mem_singleton.mp among
      exact ⟨⟨_, _, rfl, rfl, rfl⟩, typeText_function⟩
  obtain ⟨reads, _, arrowless⟩ := Tree.read_headerText 128 entries (List.cons_ne_nil _ _) written
  have keeps : ∀ entry ∈ entries, KeepsCommas 0 entry.type := by
    intro entry among
    rcases List.mem_cons.mp among with rfl | other
    · exact arrowless _ among (by decide)
    · obtain rfl := List.mem_singleton.mp other
      exact .of_not_mem (by decide) 0
  exact reads keeps

/-- The arrow closes the angle bracket here, so the comma in it separates, and what is behind it has no name. -/
theorem Tree.read_headerText_cut :
    (⟨"run".toList, "Result<fn(u8) -> u8,Error>".toList⟩ : HeaderEntry).Written 127 ∧
      headerText [⟨"run".toList, "Result<fn(u8) -> u8,Error>".toList⟩] =
        "@(run: Result<fn(u8) -> u8,Error>);".toList ∧
      ∃ tree, Tree.read ⟨128, true⟩ "@(run: Result<fn(u8) -> u8,Error>);".toList = .ok tree ∧
        ∀ node ∈ tree.preorder, ∀ list, node.form ≠ .parameters list := by
  have none : IsGap [] := .inl rfl
  have word : ∀ text, IsIdentifier text → TypeText .atom 127 text := fun _ => .word
  have error : TypeText .type 127 ['E', 'r', 'r', 'o', 'r'] := .single (.word ⟨_, _, rfl, rfl, rfl⟩)
  have result : TypeText .type 127 "Result<fn(u8) -> u8,Error>".toList :=
    .more (word ['R', 'e', 's', 'u', 'l', 't'] ⟨_, _, rfl, rfl, rfl⟩) none
      (.single (.angle (.next typeText_function none (.one error))))
  have read : Tree.read ⟨128, true⟩ "@(run: Result<fn(u8) -> u8,Error>);".toList =
      .ok ⟨[⟨.expression ⟨.paren, "run: Result<fn(u8) -> u8,Error>", false⟩, ⟨0, 34⟩⟩, ⟨.text ";", ⟨34, 35⟩⟩],
        "@(run: Result<fn(u8) -> u8,Error>);".toList, 0⟩ := by cbv
  refine ⟨⟨⟨_, _, rfl, rfl, rfl⟩, result⟩, rfl, _, read, ?_⟩
  simp [Tree.preorder, Node.preorder_eq, Node.children, Node.form, Form.children]

end SigilTemplate
