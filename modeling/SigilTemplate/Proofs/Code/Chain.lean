import SigilTemplate.Proofs.Alone.Code
import SigilTemplate.Proofs.Bytes.Chain
import SigilTemplate.Proofs.Code.Deepening
import SigilTemplate.Proofs.Text.Runs

/-!
What a simple chain says about the text it was read from. Borrows and links are
written back in order, so nothing of the text is lost; the name is the only link
of its kind; and the reading has stopped where no link can start. As it has
looked no further than that, the text of a chain alone is that chain again.
-/

namespace SigilTemplate.Code
open Text

variable {limit : Nat} {c d : Cursor} {segment : Segment} {segments : List Segment} {chain : Chain}

/-! ## What a link can start with -/

/-- The characters from which a link can be read on. -/
inductive StartsLink : List Char → Prop
  | field {ch : Char} {rest : List Char} (letter : isIdentStart ch = true) : StartsLink ('.' :: ch :: rest)
  | path {ch : Char} {rest : List Char} (letter : isIdentStart ch = true) : StartsLink (':' :: ':' :: ch :: rest)
  | borrow {ch : Char} {rest : List Char} (letter : isIdentStart ch = true) : StartsLink ('&' :: ch :: rest)
  | call (rest : List Char) : StartsLink ('(' :: rest)
  | index (rest : List Char) : StartsLink ('[' :: rest)

/-- A name is read where the first character can begin one. -/
theorem named?_ne_none {link : String → Segment} {ch : Char} (head : c.peek = some ch)
    (letter : isIdentStart ch = true) : named? link c ≠ none := by
  obtain ⟨rest, starts⟩ := Cursor.peek_eq_some.mp head
  have lt : c < c.skipIdent := by
    simp only [Cursor.skipIdent, starts, letter, if_true]
    exact (Cursor.lt_next head).trans_le (Cursor.le_skipWhile _ _)
  rw [Ne, named?_eq_none_iff]
  exact lt.ne'

/-- Where a link can start, reading does not end. -/
theorem not_startsLink (last : segment? limit c = .ok none) : ¬StartsLink c.rest := by
  intro begins
  generalize text : c.rest = rest at begins
  unfold segment? at last
  rw [text] at last
  cases begins with
  | field letter => exact named?_ne_none (by simp [Cursor.peek, Cursor.next, text]) letter (Except.ok.inj last)
  | path letter => exact named?_ne_none (by simp [Cursor.peek, Cursor.next, text]) letter (Except.ok.inj last)
  | borrow letter => exact named?_ne_none (by simp [Cursor.peek, Cursor.next, text]) letter (Except.ok.inj last)
  | call => exact delimited?_ne_none last
  | index => exact delimited?_ne_none last

/-! ## The text of a chain -/

/-- The name that a chain starts with. -/
def Segment.isIdent : Segment → Bool
  | .ident _ => true
  | _ => false

/-- How links are written, one after the other. -/
def spellingOf (segments : List Segment) : List Char := segments.flatMap fun segment => segment.spelling.toList

/-- How a chain is written: borrows, and then its links. -/
def Chain.spelling (chain : Chain) : List Char := List.replicate chain.refs '&' ++ spellingOf chain.segments

theorem reads_of_named? {link : String → Segment} (found : named? link c = some (segment, d)) :
    ∃ name, c.Reads name d ∧ segment = link (String.ofList name) := by
  obtain ⟨rfl, _, same⟩ := named?_eq_some_iff.mp found
  exact ⟨_, Cursor.reads_textTo (Cursor.le_skipIdent c), same⟩

theorem reads_of_delimited? {link : String → Segment} {ch : Char} (head : c.peek = some ch) (opens : isOpener ch = true)
    (found : delimited? link limit c = .ok (some (segment, d))) :
    ∃ inner, c.Reads (ch :: inner ++ [closerOf ch]) d ∧ segment = link (String.ofList inner) := by
  unfold delimited? at found
  split at found
  · next fragment ok =>
    obtain ⟨close, onward, closer, rfl⟩ := enclosed_ok head opens ok
    obtain ⟨rfl, rfl⟩ := Prod.mk.inj (Option.some.inj (Except.ok.inj found))
    have inside := Cursor.reads_textTo onward
    exact ⟨_, ((Cursor.reads_next_of_peek head).trans inside).trans (Cursor.reads_next_of_peek closer), rfl⟩
  · simp at found

/-- A link is written as it was read, and it is no first name. -/
theorem reads_of_segment? (found : segment? limit c = .ok (some (segment, d))) :
    c.Reads segment.spelling.toList d ∧ segment.isIdent = false := by
  rw [segment?_eq] at found
  split at found
  · next dot =>
    obtain ⟨name, reads, rfl⟩ := reads_of_named? (Except.ok.inj found)
    exact ⟨by simpa [Segment.spelling] using (Cursor.reads_next_of_peek dot).trans reads, rfl⟩
  split at found
  · next path =>
    obtain ⟨name, reads, rfl⟩ := reads_of_named? (Except.ok.inj found)
    have mark := (Cursor.reads_next_of_peek path.1).trans (Cursor.reads_next_of_peek path.2)
    exact ⟨by simpa [Segment.spelling] using mark.trans reads, rfl⟩
  split at found
  · next borrow =>
    obtain ⟨name, reads, rfl⟩ := reads_of_named? (Except.ok.inj found)
    exact ⟨by simpa [Segment.spelling] using (Cursor.reads_next_of_peek borrow).trans reads, rfl⟩
  split at found
  · next call =>
    obtain ⟨inner, reads, rfl⟩ := reads_of_delimited? call rfl found
    exact ⟨by simpa [Segment.spelling, closerOf] using reads, rfl⟩
  split at found
  · next index =>
    obtain ⟨inner, reads, rfl⟩ := reads_of_delimited? index rfl found
    exact ⟨by simpa [Segment.spelling, closerOf] using reads, rfl⟩
  · simp at found

/-- The links behind those that have been read are all that is read on, up to where no link follows. -/
theorem reads_of_segmentsFrom {done : List Segment} (found : segmentsFrom limit done c = .ok (segments, d)) :
    ∃ links, segments = done.reverse ++ links ∧ c.Reads (spellingOf links) d ∧
      (∀ link ∈ links, link.isIdent = false) ∧ segment? limit d = .ok none := by
  fun_induction segmentsFrom limit done c with
  | case1 => simp at found
  | case2 done c last =>
    obtain ⟨rfl, rfl⟩ := Prod.mk.inj (Except.ok.inj found)
    exact ⟨[], by simp, .refl c, by simp, last⟩
  | case3 done c segment after link ih =>
    obtain ⟨links, rfl, onward, others, last⟩ := ih found
    obtain ⟨reads, other⟩ := reads_of_segment? link
    exact ⟨segment :: links, by simp, reads.trans onward, List.forall_mem_cons.mpr ⟨other, others⟩, last⟩

theorem byteLength_replicate (n : Nat) (ch : Char) : byteLength (List.replicate n ch) = n * ch.utf8Size := by
  induction n with
  | zero => simp
  | succ n ih => rw [List.replicate_succ, byteLength_cons, ih, Nat.succ_mul, Nat.add_comm]

/-- As many borrows are read as there are bytes. -/
theorem reads_borrows (c : Cursor) :
    c.Reads (List.replicate ((c.skipWhile (· == '&')).pos - c.pos) '&') (c.skipWhile (· == '&')) := by
  have runs := Cursor.reads_skipWhile (· == '&') c
  have same : c.rest.takeWhile (· == '&') = List.replicate (c.rest.takeWhile (· == '&')).length '&' := by
    refine List.eq_replicate_of_mem fun ch member => ?_
    simpa using List.all_eq_true.mp List.all_takeWhile ch member
  rw [same] at runs
  have count : (c.skipWhile (· == '&')).pos - c.pos = (c.rest.takeWhile (· == '&')).length := by
    have single : '&'.utf8Size = 1 := rfl
    rw [runs.pos_eq, byteLength_replicate, single]
    omega
  rwa [count]

/-- A chain is a name with the links behind it. It was written as its own spelling, and no link follows. -/
theorem reads_of_chain? (found : chain? limit c = .ok (some chain)) :
    c.Reads chain.spelling chain.after ∧
    (∃ name links, chain.segments = .ident name :: links ∧ ∀ link ∈ links, link.isIdent = false) ∧
    segment? limit chain.after = .ok none := by
  obtain ⟨first, after, named, run, borrows⟩ := exists_of_chain?_eq_some found
  obtain ⟨name, reads, rfl⟩ := reads_of_named? named
  obtain ⟨links, segments, onward, others, ends⟩ := reads_of_segmentsFrom run
  refine ⟨?_, ⟨String.ofList name, links, segments, others⟩, ends⟩
  have text := (reads_borrows c).trans (reads.trans onward)
  simpa [Chain.spelling, borrows, segments, spellingOf, Segment.spelling] using text

/-- A chain loses nothing of the text it was read from: between where it starts and where it ends, the source has the
borrows and the links as they are written, in order. The first link is the only one that is a name alone. Where the
chain ends no further link can start. And its text alone, from the start, is the same chain up to the end of the text,
under the same limit. Byte by byte it is the same. -/
theorem chain_lossless_maximal {source : List Char} (place : Cursor.ofText source ≤ c)
    (found : chain? limit c = .ok (some chain)) :
    slice? source (c.spanTo chain.after) = some chain.spelling ∧
    (∃ name links, chain.segments = .ident name :: links ∧ ∀ link ∈ links, link.isIdent = false) ∧
    ¬StartsLink chain.after.rest ∧
    chain? limit (.ofText chain.spelling) =
      .ok (some ⟨chain.refs, chain.segments, ⟨byteLength chain.spelling, []⟩⟩) ∧
    Bytes.chain source limit c = .ok (.ok (some chain)) ∧
    Bytes.chain chain.spelling limit (.ofText chain.spelling) =
      .ok (.ok (some ⟨chain.refs, chain.segments, ⟨byteLength chain.spelling, []⟩⟩)) := by
  obtain ⟨reads, shape, last⟩ := reads_of_chain? found
  have larger : (Cursor.ofText chain.spelling).amid ⟨c.pos, chain.after.rest⟩ = c := by
    simp only [Cursor.amid, Cursor.ofText, Nat.add_zero, ← reads.rest_eq]
  have ends : chain.after = Cursor.amid ⟨c.pos, chain.after.rest⟩ ⟨byteLength chain.spelling, []⟩ := by
    simp only [Cursor.amid, List.nil_append, ← reads.pos_eq]
  have alone := chain?_of_amid (larger ▸ found) ends
  refine ⟨?_, shape, not_startsLink last, alone, ?_, ?_⟩
  · rw [Cursor.slice?_spanTo place (Cursor.le_of_reads reads), reads.textTo_eq]
  · rw [Bytes.chain_eq limit place, found]
  · rw [Bytes.chain_eq limit (le_refl _), alone]

/-- The closing parenthesis in the string belongs to the call, and `::` without a name behind it does not belong to the
chain. -/
theorem chain_lossless_maximal_sample :
    Cursor.ofText "é &a(\")\"):: c".toList ≤ ⟨3, "&a(\")\"):: c".toList⟩ ∧
    chain? 1 ⟨3, "&a(\")\"):: c".toList⟩ = .ok (some ⟨1, [.ident "a", .call "\")\""], ⟨10, ":: c".toList⟩⟩) ∧
    slice? "é &a(\")\"):: c".toList ⟨3, 10⟩ = some "&a(\")\")".toList ∧ ¬StartsLink ":: c".toList := by
  have place : Cursor.ofText "é &a(\")\"):: c".toList ≤ ⟨3, "&a(\")\"):: c".toList⟩ := ⟨['é', ' '], rfl, rfl⟩
  have name : named? .ident (Cursor.skipWhile (· == '&') ⟨3, "&a(\")\"):: c".toList⟩) =
      some (.ident "a", ⟨5, "(\")\"):: c".toList⟩) := by cbv
  have call : segment? 1 ⟨5, "(\")\"):: c".toList⟩ = .ok (some (.call "\")\"", ⟨10, ":: c".toList⟩)) := by cbv
  have last : segment? 1 ⟨10, ":: c".toList⟩ = .ok none := by cbv
  have found : chain? 1 ⟨3, "&a(\")\"):: c".toList⟩ =
      .ok (some ⟨1, [.ident "a", .call "\")\""], ⟨10, ":: c".toList⟩⟩) := by
    simp only [chain?, name, segmentsFrom_eq, call, last]
    rfl
  obtain ⟨text, _, ends, _⟩ := chain_lossless_maximal place found
  exact ⟨place, found, text, ends⟩

end SigilTemplate.Code
