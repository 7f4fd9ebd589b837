import SigilTemplate.Batch

/-!
What many workers do together. However a list is dealt out, its shares are the
list in order, none of them is empty and there are no more of them than
workers; so the answers are those of one worker who goes through the list.
-/

namespace SigilTemplate.Batch

variable {α β : Type}

/-! ## Chunks -/

theorem flatten_chunks (size : Nat) (items : List α) : (chunks size items).flatten = items := by
  fun_induction chunks size items with
  | case1 => rfl
  | case2 item rest ih => rw [List.flatten_cons, ih, List.cons_append, List.take_append_drop]

theorem ne_nil_of_mem_chunks {size : Nat} {items chunk : List α} (among : chunk ∈ chunks size items) :
    chunk ≠ [] := by
  fun_induction chunks size items with
  | case1 => simp at among
  | case2 item rest ih =>
    rcases List.mem_cons.mp among with rfl | later
    · simp
    · exact ih later

theorem length_le_of_mem_chunks {size : Nat} {items chunk : List α} (among : chunk ∈ chunks size items) :
    chunk.length ≤ size + 1 := by
  fun_induction chunks size items with
  | case1 => simp at among
  | case2 item rest ih =>
    rcases List.mem_cons.mp among with rfl | later
    · rw [List.length_cons, List.length_take]
      omega
    · exact ih later

/-- Items that fit into so many chunks are not spread over more. -/
theorem length_chunks_le {size count : Nat} {items : List α} (fits : items.length ≤ count * (size + 1)) :
    (chunks size items).length ≤ count := by
  fun_induction chunks size items generalizing count with
  | case1 => simp
  | case2 item rest ih =>
    cases count with
    | zero => simp at fits
    | succ count =>
      have left : (rest.drop size).length ≤ count * (size + 1) := by
        rw [Nat.succ_mul] at fits
        simp only [List.length_cons, List.length_drop] at fits ⊢
        omega
      simpa using ih left

/-! ## Shares -/

/-- Shares of the size that is dealt out hold all items. -/
theorem le_mul_chunkSize (count workers : Nat) : count ≤ max workers 1 * chunkSize count workers := by
  have positive : 0 < max workers 1 := by omega
  have above := Nat.lt_mul_div_succ (count + (max workers 1 - 1)) positive
  rw [Nat.mul_succ] at above
  rw [chunkSize]
  omega

/-- Of a list that is not empty a worker gets something. -/
theorem chunkSize_pos {count : Nat} (workers : Nat) (positive : 0 < count) : 0 < chunkSize count workers := by
  have enough := le_mul_chunkSize count workers
  apply Nat.pos_of_ne_zero
  intro nothing
  rw [nothing, Nat.mul_zero] at enough
  omega

/-- A worker gets no more than the size that is dealt out. -/
theorem length_le_of_mem_shares {workers : Nat} {items share : List α} (among : share ∈ shares workers items) :
    share.length ≤ chunkSize items.length workers := by
  have nonempty : items ≠ [] := by
    rintro rfl
    simp [shares, chunks] at among
  have positive := chunkSize_pos workers (List.length_pos_iff.mpr nonempty)
  calc
    share.length ≤ chunkSize items.length workers - 1 + 1 := length_le_of_mem_chunks among
    _ = chunkSize items.length workers := Nat.sub_add_cancel positive

theorem length_shares_le (workers : Nat) (items : List α) : (shares workers items).length ≤ max workers 1 := by
  apply length_chunks_le
  calc
    items.length ≤ max workers 1 * chunkSize items.length workers := le_mul_chunkSize items.length workers
    _ ≤ max workers 1 * (chunkSize items.length workers - 1 + 1) := Nat.mul_le_mul_left _ (by omega)

theorem answers_eq_map (work : α → β) (workers : Nat) (items : List α) :
    answers work workers items = items.map work := by
  calc
    answers work workers items = ((shares workers items).map (List.map work)).flatten := List.flatMap_def
    _ = (shares workers items).flatten.map work := List.map_flatten.symm
    _ = items.map work := by rw [shares, flatten_chunks]

/-- Whatever the number of workers, every source has the answer in its place that it has on its own.
The sources are dealt out in order to no more workers than there are, and to none of them nothing; a
source has no bearing on the answers in other places. -/
theorem read_eq_map (options : ReadOptions) (workers : Nat) (sources : List (List Char)) :
    read options workers sources = sources.map (Tree.read options) ∧
      (shares workers sources).flatten = sources ∧
      (shares workers sources).length ≤ max workers 1 ∧
      (∀ share ∈ shares workers sources, share ≠ []) ∧
      ∀ place other, read options workers (sources.set place other) =
        (read options workers sources).set place (Tree.read options other) := by
  have each (sources : List (List Char)) : read options workers sources = sources.map (Tree.read options) :=
    answers_eq_map (Tree.read options) workers sources
  refine ⟨each sources, flatten_chunks _ sources, length_shares_le workers sources, ?_, ?_⟩
  · intro share among
    exact ne_nil_of_mem_chunks among
  · intro place other
    rw [each, each, List.map_set]

end SigilTemplate.Batch
