/-!
Sets of names. A set lists its names in ascending order by code point, each
once, so a set has one representation and two sets with the same members are
equal.
-/

namespace SigilTemplate

structure NameSet where
  names : List String
  ascending : names.Pairwise (· < ·)

namespace NameSet

instance : EmptyCollection NameSet := ⟨[], List.Pairwise.nil⟩

instance : Inhabited NameSet := ⟨∅⟩

instance : Membership String NameSet := ⟨fun set name => name ∈ set.names⟩

instance (name : String) (set : NameSet) : Decidable (name ∈ set) :=
  inferInstanceAs (Decidable (name ∈ set.names))

@[simp]
theorem notMem_empty (name : String) : name ∉ (∅ : NameSet) := List.not_mem_nil

/-- A name at its place among ascending names. -/
def place (name : String) : List String → List String
  | [] => [name]
  | first :: rest =>
    if name < first then name :: first :: rest
    else if name = first then first :: rest
    else first :: place name rest

@[simp]
theorem mem_place (name other : String) (names : List String) :
    other ∈ place name names ↔ other = name ∨ other ∈ names := by
  induction names with
  | nil => simp [place]
  | cons first rest ih =>
    simp only [place]
    split
    · simp
    · split
      · rename_i same
        subst same
        simp
      · simp only [List.mem_cons, ih]
        constructor <;> (rintro (h | h | h) <;> simp [h])

theorem place_ascending (name : String) {names : List String} (ascending : names.Pairwise (· < ·)) :
    (place name names).Pairwise (· < ·) := by
  induction names with
  | nil => simp [place]
  | cons first rest ih =>
    obtain ⟨below, tail⟩ := List.pairwise_cons.mp ascending
    simp only [place]
    split
    · rename_i less
      refine List.pairwise_cons.mpr ⟨?_, ascending⟩
      intro other member
      rcases List.mem_cons.mp member with rfl | later
      · exact less
      · exact String.lt_trans less (below other later)
    · split
      · exact ascending
      · rename_i notLess different
        have more : first < name := by
          rcases Decidable.em (first < name) with less | notMore
          · exact less
          · exact absurd (String.le_antisymm (String.not_lt.mp notMore) (String.not_lt.mp notLess)) different
        refine List.pairwise_cons.mpr ⟨?_, ih tail⟩
        intro other member
        rcases (mem_place name other rest).mp member with rfl | later
        · exact more
        · exact below other later

/-- The set with one more name. -/
def insert (name : String) (set : NameSet) : NameSet :=
  ⟨place name set.names, place_ascending name set.ascending⟩

@[simp]
theorem mem_insert (name other : String) (set : NameSet) :
    other ∈ set.insert name ↔ other = name ∨ other ∈ set :=
  mem_place name other set.names

/-- Ascending lists with the same members are equal. -/
theorem names_ext {a b : List String} (ascendingA : a.Pairwise (· < ·)) (ascendingB : b.Pairwise (· < ·))
    (same : ∀ name, name ∈ a ↔ name ∈ b) : a = b := by
  induction a generalizing b with
  | nil =>
    cases b with
    | nil => rfl
    | cons y b => exact absurd ((same y).mpr List.mem_cons_self) (by simp)
  | cons x a ih =>
    cases b with
    | nil => exact absurd ((same x).mp List.mem_cons_self) (by simp)
    | cons y b =>
      obtain ⟨belowA, tailA⟩ := List.pairwise_cons.mp ascendingA
      obtain ⟨belowB, tailB⟩ := List.pairwise_cons.mp ascendingB
      have heads : x = y := by
        rcases List.mem_cons.mp ((same x).mp List.mem_cons_self) with first | laterB
        · exact first
        · rcases List.mem_cons.mp ((same y).mpr List.mem_cons_self) with first | laterA
          · exact first.symm
          · exact absurd (belowA y laterA) (String.lt_asymm (belowB x laterB))
      subst heads
      have tails : a = b := by
        apply ih tailA tailB
        intro name
        constructor
        · intro member
          rcases List.mem_cons.mp ((same name).mp (List.mem_cons_of_mem _ member)) with rfl | later
          · exact absurd (belowA name member) (String.lt_irrefl name)
          · exact later
        · intro member
          rcases List.mem_cons.mp ((same name).mpr (List.mem_cons_of_mem _ member)) with rfl | later
          · exact absurd (belowB name member) (String.lt_irrefl name)
          · exact later
      rw [tails]

@[ext]
theorem ext {a b : NameSet} (same : ∀ name, name ∈ a ↔ name ∈ b) : a = b := by
  have names : a.names = b.names := names_ext a.ascending b.ascending same
  cases a
  cases b
  simpa using names

end NameSet

end SigilTemplate
