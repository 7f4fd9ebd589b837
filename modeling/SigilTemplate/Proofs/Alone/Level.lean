import SigilTemplate.Proofs.Alone.Attempt
import SigilTemplate.Proofs.Reading.Clean
import SigilTemplate.Proofs.Reading.Statements

/-!
Levels over a stretch of a text. `Level.ReadsAlone` says that a level reads of a
stretch alone what it reads of it in a larger text: whatever it reads there
without giving anything up, and up to a place of the stretch, it reads alone
with other offsets. A region must end inside for that, at a mark that belongs to
the stretch.
-/

namespace SigilTemplate
open Text

/-- A text stands in a source, with so much around it. -/
def StandsIn (part source : List Char) (s : Surroundings) : Prop := Cursor.ofText source ≤ (Cursor.ofText part).amid s

theorem StandsIn.place {part source : List Char} {s : Surroundings} {c : Cursor} (stands : StandsIn part source s)
    (place : Cursor.ofText part ≤ c) : Cursor.ofText source ≤ c.amid s :=
  le_trans stands (Cursor.amid_le_amid.mpr place)

/-- The same context in a source of another size. -/
def Context.sized (size : Nat) (context : Context) : Context := { context with size := size }

/-- What a reading in the larger text gives up to a place of the stretch, giving nothing up, a reading of the stretch
alone gives with other offsets. -/
def Traced.ReadsAlone {α : Type} (s : Surroundings) (shift : α → α) (amid alone : Traced (α × Cursor)) : Prop :=
  ∀ value e, amid = pure (value, e.amid s) → ∃ own, value = shift own ∧ alone = pure (own, e)

/-- What ends a region belongs to the stretch. -/
def EndsInside (stop : RegionEnd) (c : Cursor) : Prop :=
  match stop with
  | .closeBrace | .comma => c.rest ≠ []
  | .closeTag => c.atTagClose = true
  | .textEnd | .unbalanced _ => False

/-- A region of the larger text that ends inside the stretch is read alone in the same way. -/
def RegionsAlone (source part : List Char) (s : Surroundings) (read : Context → RegionKind → Cursor → Traced Region) : Prop :=
  ∀ context kind c region e, context.size = byteLength source → Cursor.ofText part ≤ c →
    read context kind (c.amid s) = pure region → region.after = e.amid s → EndsInside region.stop e →
    ∃ own, region.nodes = own.map (Node.mapOffsets (s.before + ·)) ∧
      read (context.sized (byteLength part)) kind c = pure ⟨own, region.stop, e⟩

structure Level.ReadsAlone (source part : List Char) (s : Surroundings) (level : Level) : Prop where
  amid : level.Sound source
  sound : level.Sound part
  region : RegionsAlone source part s level.region
  nested : RegionsAlone source part s level.nested
  sigil : ∀ context c, context.size = byteLength source → Cursor.ofText part ≤ c → (c.amid s).atSigil = true →
    Traced.ReadsAlone s (Node.mapOffsets (s.before + ·)) (level.sigil context (c.amid s))
      (level.sigil (context.sized (byteLength part)) c)
  conditional : ∀ context start c, context.size = byteLength source → Cursor.ofText part ≤ start →
    Opens .ifBlock (start.amid s) (c.amid s) →
    Traced.ReadsAlone s (Node.mapOffsets (s.before + ·)) (level.conditional context (start.amid s) (c.amid s))
      (level.conditional (context.sized (byteLength part)) start c)
  /-- An `if` goes on after the place where its condition starts. -/
  goesOn : ∀ context start c node d, context.size = byteLength source → Cursor.ofText source ≤ start →
    Opens .ifBlock start c → level.conditional context start c = pure (node, d) → c < d

def Below.ReadsAlone (source part : List Char) (s : Surroundings) (below : Below) : Prop :=
  ∀ level ∈ below.next, (level ()).ReadsAlone source part s

section

variable {source part : List Char} {s : Surroundings} {context : Context} {below : Below}

theorem Below.ReadsAlone.amid (alone : below.ReadsAlone source part s) : below.Sound source := fun level here =>
  (alone level here).amid

theorem Below.ReadsAlone.sound (alone : below.ReadsAlone source part s) : below.Sound part := fun level here =>
  (alone level here).sound

/-- A level that is entered in the larger text is entered alone. -/
theorem Below.ReadsAlone.enter {c d : Cursor} {level : Level} (alone : below.ReadsAlone source part s)
    (clean : below.enter context c = pure level) (other : Context) :
    level.ReadsAlone source part s ∧ below.enter other d = pure level := by
  unfold Below.enter at clean ⊢
  split at clean
  · next next here =>
    obtain rfl := Traced.pure_inj.mp clean
    exact ⟨alone next here, rfl⟩
  · exact absurd clean Traced.fail_ne_pure

theorem Below.ReadsAlone.nested (alone : below.ReadsAlone source part s) :
    RegionsAlone source part s below.nested := by
  intro context kind c region e size place clean after ends
  obtain ⟨level, enters, reads⟩ := Traced.exists_of_bind_eq_pure clean
  obtain ⟨holds, entersAlone⟩ := alone.enter (d := c) enters (context.sized (byteLength part))
  obtain ⟨own, nodes, readsAlone⟩ := holds.region context kind c region e size place reads after ends
  refine ⟨own, nodes, ?_⟩
  rw [Below.nested, entersAlone, Traced.pure_bind]
  exact readsAlone

/-- A block that ends in the stretch is read alone. -/
theorem readBlock_alone {nested : Context → RegionKind → Cursor → Traced Region} {role : BlockRole} {brace : Cursor}
    (stands : StandsIn part source s) (sound : ReadsRegions source nested) (alone : RegionsAlone source part s nested)
    (size : context.size = byteLength source) (place : Cursor.ofText part ≤ brace)
    (opens : (brace.amid s).peek = some '{') :
    Traced.ReadsAlone s (List.map (Node.mapOffsets (s.before + ·))) (readBlock nested context role (brace.amid s))
      (readBlock nested (context.sized (byteLength part)) role brace) := by
  intro value e clean
  obtain ⟨region, reads, rest⟩ := Traced.exists_of_bind_eq_pure clean
  have here := stands.place place
  have lt := Cursor.lt_next opens
  obtain ⟨⟨state, items, ends⟩, _⟩ :=
    (sound context.insideBraces .braced _ size (here.trans (Cursor.le_next _))).of_clean reads
  cases stop : region.stop with
  | closeBrace =>
    simp only [stop] at rest
    obtain ⟨rfl, last⟩ := Prod.mk.inj (Traced.pure_inj.mp rest)
    rw [stop] at ends
    obtain ⟨closes, _⟩ := ends.brace (by simp) (by simp) (by simp)
    have order := items.inOrder.le
    have before : region.after < e.amid s := last ▸ Cursor.lt_next closes
    have more := Cursor.ne_nil_of_lt (Cursor.amid_lt_amid.mp (lt.trans (order.trans_lt before)))
    rw [Cursor.next_amid more] at reads order
    obtain ⟨after, same, _, _⟩ := Cursor.exists_amid order before.le
    rw [same] at last before
    have further := Cursor.ne_nil_of_lt (Cursor.amid_lt_amid.mp before)
    rw [Cursor.next_amid further, Cursor.amid_inj] at last
    obtain ⟨own, nodes, readsAlone⟩ := alone context.insideBraces .braced brace.next region after size
      (place.trans (Cursor.le_next brace)) reads same (by simpa [stop, EndsInside] using further)
    refine ⟨own, nodes, ?_⟩
    have inside : nested (context.sized (byteLength part)).insideBraces .braced brace.next = pure ⟨own, region.stop, after⟩ :=
      readsAlone
    rw [readBlock, inside, Traced.pure_bind, stop, ← last]
  | _ =>
    simp only [stop] at rest
    exact absurd rest Traced.fail_ne_pure

end

end SigilTemplate
