import SigilTemplate.Reading.Template

/-!
Many templates at once. The sources are dealt out to workers in consecutive
chunks of one size, the last perhaps shorter, and the answers of the chunks are
put together again in order.
-/

namespace SigilTemplate

namespace Batch

variable {α β : Type}

/-- How many items a worker gets. No workers count as one. -/
def chunkSize (count workers : Nat) : Nat := (count + (max workers 1 - 1)) / max workers 1

/-- A list in consecutive chunks of `size + 1` items. -/
def chunks (size : Nat) (items : List α) : List (List α) :=
  match items with
  | [] => []
  | item :: rest => (item :: rest.take size) :: chunks size (rest.drop size)
termination_by items.length
decreasing_by simp only [List.length_drop, List.length_cons]; omega

/-- What each worker gets of a list. If there is something to deal out, no worker's part is of size zero. -/
def shares (workers : Nat) (items : List α) : List (List α) :=
  chunks (chunkSize items.length workers - 1) items

/-- Every share is worked off on its own, and the answers come in the order of the items. -/
def answers (work : α → β) (workers : Nat) (items : List α) : List β :=
  (shares workers items).flatMap fun share => share.map work

/-- The trees of some sources, or why there are none, each in the place of its source. -/
def read (options : ReadOptions) (workers : Nat) (sources : List (List Char)) :
    List (Except Fault Tree) :=
  answers (Tree.read options) workers sources

end Batch

end SigilTemplate
