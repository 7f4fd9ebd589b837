import Mathlib
import SigilTemplate.Proofs.Tree.Partition
import SigilTemplate.Proofs.Tree.Slots

/-!
What a walk visits. The visits tell by themselves where in the tree each of them
is: a node that is entered comes next among the nodes on its level, and what is
visited before it is left stands below it. Read in this way, a walk enters each
node that it can reach at its own address and nowhere else, in the order of the
addresses, and leaves it once.
-/

namespace SigilTemplate

/-- The visits of some trees, one after the other. -/
def walk (descend : Node → Bool) (nodes : List Node) : List Visit := nodes.flatMap (Node.visits descend)

/-- The node at an address: its place among the roots, then that of a child on each level further down. -/
def nodeAt? : List Nat → List Node → Option Node
  | [], _ => none
  | [i], nodes => nodes[i]?
  | i :: j :: below, nodes => (nodes[i]?).bind fun node => nodeAt? (j :: below) node.children

/-- The node stands at the address, and none of those above it is refused. -/
structure Reached (descend : Node → Bool) (nodes : List Node) (address : List Nat) (node : Node) : Prop where
  stands : nodeAt? address nodes = some node
  allowed : ∀ upper ancestor, upper <+: address → upper ≠ address → nodeAt? upper nodes = some ancestor →
    descend ancestor = true

/-- A visit and the address of the node that is visited. -/
abbrev AddressedVisit := List Nat × Visit

/-- The addresses of some visits, read off the visits alone. The places of the nodes that have been entered and not
left are given, the last one first, and the place that is next among the nodes on this level. -/
def addressed : List Nat → Nat → List Visit → List AddressedVisit
  | _, _, [] => []
  | path, next, .enter node :: rest => ((next :: path).reverse, .enter node) :: addressed (next :: path) 0 rest
  | [], next, .leave node :: rest => ([], .leave node) :: addressed [] next rest
  | place :: path, _, .leave node :: rest =>
    ((place :: path).reverse, .leave node) :: addressed path (place + 1) rest

/-- The nodes that are entered, with their addresses. -/
def entries (visits : List AddressedVisit) : List (List Nat × Node) :=
  visits.filterMap fun
    | (address, .enter node) => some (address, node)
    | (_, .leave _) => none

/-- The nodes that are left, with their addresses. -/
def exits (visits : List AddressedVisit) : List (List Nat × Node) :=
  visits.filterMap fun
    | (_, .enter _) => none
    | (address, .leave node) => some (address, node)

/-- Visits that are nested as the addresses are: between entering a node and leaving it stand just the visits of what
is below it. -/
inductive Nested : List AddressedVisit → Prop
  | nil : Nested []
  | around {address : List Nat} {node : Node} {inside rest : List AddressedVisit} (inner : Nested inside)
      (below : ∀ visit ∈ inside, address <+: visit.1 ∧ address ≠ visit.1) (outer : Nested rest)
      (apart : ∀ visit ∈ rest, ¬ address <+: visit.1) :
      Nested ((address, .enter node) :: inside ++ (address, .leave node) :: rest)

/-! ## Walks over neighbours -/

section

variable {descend : Node → Bool} {node : Node} {nodes : List Node} {base address : List Nat} {next : Nat}
  {visits : List AddressedVisit}

@[simp]
theorem walk_nil : walk descend [] = [] := rfl

theorem walk_cons : walk descend (node :: nodes) =
    .enter node :: walk descend (if descend node then node.children else []) ++ .leave node :: walk descend nodes := by
  rw [walk, List.flatMap_cons, Node.visits_eq]
  cases descend node <;> simp [walk]

/-- Induction over neighbours in a tree: first what is below a node, then what is behind it. -/
theorem Node.inductForest {motive : List Node → Prop} (nil : motive [])
    (cons : ∀ node nodes, motive node.children → motive nodes → motive (node :: nodes)) (nodes : List Node) :
    motive nodes := by
  have forest : ∀ nodes : List Node, (∀ node ∈ nodes, motive node.children) → motive nodes := by
    intro nodes below
    induction nodes with
    | nil => exact nil
    | cons node nodes ih =>
      exact cons node nodes (below node (by simp)) (ih fun other among => below other (by simp [among]))
  have each : ∀ node : Node, motive node.children := by
    intro node
    induction node using Node.induct with
    | step node ih => exact forest node.children ih
  exact forest nodes fun node _ => each node

/-- The visits of neighbours, with their addresses: `base` is that of the node above them, and the first of them has
the place `next` below it. -/
inductive Tour (descend : Node → Bool) : List Nat → Nat → List Node → List AddressedVisit → Prop
  | nil {base : List Nat} {next : Nat} : Tour descend base next [] []
  | cons {base : List Nat} {next : Nat} {node : Node} {nodes : List Node} {inside rest : List AddressedVisit}
      (inner : Tour descend (base ++ [next]) 0 (if descend node then node.children else []) inside)
      (outer : Tour descend base (next + 1) nodes rest) :
      Tour descend base next (node :: nodes)
        ((base ++ [next], .enter node) :: inside ++ (base ++ [next], .leave node) :: rest)

/-- The addresses that are read off a walk are those of the nodes that are visited. -/
theorem exists_tour (descend : Node → Bool) (nodes : List Node) (path : List Nat) (next : Nat) (rest : List Visit) :
    ∃ visits, Tour descend path.reverse next nodes visits ∧
      addressed path next (walk descend nodes ++ rest) = visits ++ addressed path (next + nodes.length) rest := by
  induction nodes using Node.inductForest generalizing path next rest with
  | nil => exact ⟨[], .nil, rfl⟩
  | cons node nodes below behind =>
    have inner (rest : List Visit) : ∃ visits last,
        Tour descend (next :: path).reverse 0 (if descend node then node.children else []) visits ∧
          addressed (next :: path) 0 (walk descend (if descend node then node.children else []) ++ rest) =
            visits ++ addressed (next :: path) last rest := by
      cases descend node with
      | true =>
        obtain ⟨visits, tour, read⟩ := below (next :: path) 0 rest
        exact ⟨visits, _, tour, read⟩
      | false => exact ⟨[], 0, .nil, rfl⟩
    obtain ⟨inside, last, tour, here⟩ := inner (.leave node :: (walk descend nodes ++ rest))
    obtain ⟨visits, further, later⟩ := behind path (next + 1) rest
    rw [List.reverse_cons] at tour
    refine ⟨_, .cons tour further, ?_⟩
    rw [walk_cons, List.append_assoc, List.cons_append, addressed, List.cons_append, here, addressed, later,
      List.length_cons, List.reverse_cons]
    simp [Nat.add_comm, Nat.add_left_comm]

theorem Tour.map_snd (tour : Tour descend base next nodes visits) : visits.map Prod.snd = walk descend nodes := by
  induction tour with
  | nil => rfl
  | cons _ _ inside behind => simp [walk_cons, inside, behind]

/-- What is visited is one of the neighbours, or below one of them. -/
theorem Tour.exists_address (tour : Tour descend base next nodes visits) :
    ∀ visit ∈ visits, ∃ place below, visit.1 = base ++ (next + place) :: below := by
  induction tour with
  | nil => simp
  | @cons base next node nodes inside rest _ _ inner outer =>
    intro visit among
    simp only [List.cons_append, List.mem_cons, List.mem_append] at among
    rcases among with rfl | within | rfl | later
    · exact ⟨0, [], rfl⟩
    · obtain ⟨place, below, same⟩ := inner visit within
      exact ⟨0, (0 + place) :: below, by simp [same]⟩
    · exact ⟨0, [], rfl⟩
    · obtain ⟨place, below, same⟩ := outer visit later
      exact ⟨place + 1, below, by rw [same, Nat.add_right_comm, Nat.add_assoc]⟩

theorem Tour.prefix_of_mem (tour : Tour descend (base ++ [next]) 0 nodes visits) :
    ∀ visit ∈ visits, base ++ [next] <+: visit.1 ∧ base ++ [next] ≠ visit.1 := by
  intro visit among
  obtain ⟨place, below, same⟩ := tour.exists_address visit among
  rw [same]
  exact ⟨List.prefix_append _ _, by simp⟩

/-- What is visited behind a node does not stand below it. -/
theorem Tour.not_prefix_of_mem (tour : Tour descend base (next + 1) nodes visits) :
    ∀ visit ∈ visits, ¬ base ++ [next] <+: visit.1 := by
  rintro visit among ⟨more, same⟩
  obtain ⟨place, below, other⟩ := tour.exists_address visit among
  rw [other, List.append_assoc, List.append_cancel_left_eq, List.singleton_append, List.cons.injEq] at same
  omega

theorem Tour.nested (tour : Tour descend base next nodes visits) : Nested visits := by
  induction tour with
  | nil => exact .nil
  | cons inner outer inside behind => exact .around inside inner.prefix_of_mem behind outer.not_prefix_of_mem

@[simp]
theorem entries_nil : entries [] = [] := rfl

@[simp]
theorem entries_append (first second : List AddressedVisit) : entries (first ++ second) = entries first ++ entries second :=
  List.filterMap_append

@[simp]
theorem entries_enter (rest : List AddressedVisit) :
    entries ((address, .enter node) :: rest) = (address, node) :: entries rest := rfl

@[simp]
theorem entries_leave (rest : List AddressedVisit) : entries ((address, .leave node) :: rest) = entries rest := rfl

@[simp]
theorem exits_nil : exits [] = [] := rfl

@[simp]
theorem exits_append (first second : List AddressedVisit) : exits (first ++ second) = exits first ++ exits second :=
  List.filterMap_append

@[simp]
theorem exits_enter (rest : List AddressedVisit) : exits ((address, .enter node) :: rest) = exits rest := rfl

@[simp]
theorem exits_leave (rest : List AddressedVisit) :
    exits ((address, .leave node) :: rest) = (address, node) :: exits rest := rfl

theorem mem_entries : (address, node) ∈ entries visits ↔ (address, .enter node) ∈ visits := by
  simp only [entries, List.mem_filterMap]
  constructor
  · rintro ⟨⟨place, visit⟩, among, same⟩
    cases visit with
    | enter other =>
      obtain ⟨rfl, rfl⟩ := Prod.mk.inj (Option.some.inj same)
      exact among
    | leave other => simp at same
  · intro among
    exact ⟨_, among, rfl⟩

/-- Each node that is entered is left, and no other. -/
theorem Tour.exits_perm (tour : Tour descend base next nodes visits) : (exits visits).Perm (entries visits) := by
  induction tour with
  | nil => exact .nil
  | @cons base next node nodes inside rest _ _ inner outer =>
    simp only [List.cons_append, entries_enter, exits_enter, entries_append, exits_append, entries_leave, exits_leave]
    exact List.perm_middle.trans ((inner.append outer).cons _)

/-- Nodes are entered in the order of their addresses: each before what is below it, and this before what is behind it. -/
theorem Tour.ordered (tour : Tour descend base next nodes visits) :
    (entries visits).Pairwise fun first second => first.1 < second.1 := by
  induction tour with
  | nil => exact .nil
  | @cons base next node nodes inside rest inner outer ordered further =>
    have inside_ (entry : List Nat × Node) (among : entry ∈ entries inside) :
        ∃ place below, entry.1 = (base ++ [next]) ++ place :: below := by
      obtain ⟨place, below, same⟩ := inner.exists_address _ (mem_entries.mp among)
      exact ⟨_, _, same⟩
    have behind (entry : List Nat × Node) (among : entry ∈ entries rest) :
        ∃ place below, next < place ∧ entry.1 = base ++ place :: below := by
      obtain ⟨place, below, same⟩ := outer.exists_address _ (mem_entries.mp among)
      exact ⟨_, _, by omega, same⟩
    simp only [List.cons_append, entries_enter, entries_append, entries_leave, List.pairwise_cons,
      List.pairwise_append]
    refine ⟨?_, ordered, further, ?_⟩
    · intro entry among
      rcases List.mem_append.mp among with within | later
      · obtain ⟨place, below, same⟩ := inside_ entry within
        have lt : (base ++ [next]) ++ [] < (base ++ [next]) ++ place :: below := List.append_left_lt (List.nil_lt_cons _ _)
        rw [List.append_nil] at lt
        rw [same]
        exact lt
      · obtain ⟨place, below, lt, same⟩ := behind entry later
        rw [same]
        exact List.append_left_lt (List.cons_lt_cons_iff.mpr (.inl lt))
    · intro first within second later
      obtain ⟨_, below, same⟩ := inside_ first within
      obtain ⟨place, _, lt, other⟩ := behind second later
      rw [same, other, List.append_assoc]
      exact List.append_left_lt (List.cons_lt_cons_iff.mpr (.inl lt))

/-! ## The nodes that are reached -/

theorem nodeAt?_zero (below : List Nat) :
    nodeAt? (0 :: below) (node :: nodes) = if below = [] then some node else nodeAt? below node.children := by
  cases below <;> rfl

theorem nodeAt?_succ (place : Nat) (below : List Nat) :
    nodeAt? ((place + 1) :: below) (node :: nodes) = nodeAt? (place :: below) nodes := by
  cases below <;> simp [nodeAt?]

variable {other : Node} {below : List Nat} {place : Nat}

theorem not_reached_of_nil : ¬ Reached descend [] address other := by
  rintro ⟨stands, _⟩
  match address with
  | [] | [_] | _ :: _ :: _ => simp [nodeAt?] at stands

theorem reached_root_iff : Reached descend (node :: nodes) [0] other ↔ other = node := by
  constructor
  · rintro ⟨stands, _⟩
    simpa [nodeAt?, eq_comm] using stands
  · rintro rfl
    refine ⟨rfl, fun upper ancestor isPrefix proper at_ => ?_⟩
    rcases List.prefix_cons_iff.mp isPrefix with rfl | ⟨more, rfl, shorter⟩
    · simp [nodeAt?] at at_
    · exact absurd (congrArg (List.cons 0) (List.prefix_nil.mp shorter)) proper

/-- Below the first of some neighbours. -/
theorem reached_below_iff (inside : below ≠ []) : Reached descend (node :: nodes) (0 :: below) other ↔
    descend node = true ∧ Reached descend node.children below other := by
  constructor
  · rintro ⟨stands, allowed⟩
    rw [nodeAt?_zero, if_neg inside] at stands
    refine ⟨allowed [0] node (by simp) (by simpa using inside.symm) rfl, stands, ?_⟩
    intro upper ancestor isPrefix proper at_
    have nonempty : upper ≠ [] := by
      rintro rfl
      simp [nodeAt?] at at_
    exact allowed (0 :: upper) ancestor (by simpa using isPrefix) (by simpa using proper)
      (by rw [nodeAt?_zero, if_neg nonempty, at_])
  · rintro ⟨allows, stands, allowed⟩
    refine ⟨by rw [nodeAt?_zero, if_neg inside, stands], fun upper ancestor isPrefix proper at_ => ?_⟩
    rcases List.prefix_cons_iff.mp isPrefix with rfl | ⟨more, rfl, shorter⟩
    · simp [nodeAt?] at at_
    · rw [nodeAt?_zero] at at_
      split at at_
      · obtain rfl := Option.some.inj at_
        exact allows
      · exact allowed more ancestor shorter (by simpa using proper) at_

/-- Behind the first of some neighbours. -/
theorem reached_behind_iff : Reached descend (node :: nodes) ((place + 1) :: below) other ↔
    Reached descend nodes (place :: below) other := by
  constructor
  · rintro ⟨stands, allowed⟩
    refine ⟨(nodeAt?_succ place below).symm.trans stands, fun upper ancestor isPrefix proper at_ => ?_⟩
    rcases List.prefix_cons_iff.mp isPrefix with rfl | ⟨more, rfl, shorter⟩
    · simp [nodeAt?] at at_
    · exact allowed ((place + 1) :: more) ancestor (by simpa using shorter) (by simpa using proper)
        ((nodeAt?_succ place more).trans at_)
  · rintro ⟨stands, allowed⟩
    refine ⟨(nodeAt?_succ place below).trans stands, fun upper ancestor isPrefix proper at_ => ?_⟩
    rcases List.prefix_cons_iff.mp isPrefix with rfl | ⟨more, rfl, shorter⟩
    · simp [nodeAt?] at at_
    · exact allowed (place :: more) ancestor (by simpa using shorter) (by simpa using proper)
        ((nodeAt?_succ place more).symm.trans at_)

/-- A walk enters the nodes that are reached. -/
theorem Tour.mem_entries_iff (tour : Tour descend base next nodes visits) : (address, other) ∈ entries visits ↔
    ∃ place below, address = base ++ (next + place) :: below ∧ Reached descend nodes (place :: below) other := by
  induction tour generalizing address with
  | nil =>
    constructor
    · simp
    · rintro ⟨place, below, _, reached⟩
      exact absurd reached not_reached_of_nil
  | @cons base next node nodes inside rest _ _ inner outer =>
    simp only [List.cons_append, entries_enter, entries_append, entries_leave, List.mem_cons, List.mem_append,
      Prod.mk.injEq]
    constructor
    · rintro (⟨rfl, rfl⟩ | within | behind)
      · exact ⟨0, [], rfl, reached_root_iff.mpr rfl⟩
      · obtain ⟨place, below, rfl, reached⟩ := inner.mp within
        cases allows : descend node with
        | false =>
          rw [allows, if_neg (by simp)] at reached
          exact absurd reached not_reached_of_nil
        | true =>
          rw [allows, if_pos rfl] at reached
          exact ⟨0, place :: below, by simp, (reached_below_iff (by simp)).mpr ⟨allows, reached⟩⟩
      · obtain ⟨place, below, rfl, reached⟩ := outer.mp behind
        exact ⟨place + 1, below, by rw [Nat.add_right_comm, Nat.add_assoc], reached_behind_iff.mpr reached⟩
    · rintro ⟨place, below, rfl, reached⟩
      cases place with
      | succ place =>
        refine .inr (.inr (outer.mpr ⟨place, below, ?_, reached_behind_iff.mp reached⟩))
        rw [Nat.add_right_comm, Nat.add_assoc]
      | zero =>
        cases below with
        | nil => exact .inl ⟨rfl, reached_root_iff.mp reached⟩
        | cons first below =>
          obtain ⟨allows, further⟩ := (reached_below_iff (by simp)).mp reached
          refine .inr (.inl (inner.mpr ⟨first, below, by simp, ?_⟩))
          rw [allows, if_pos rfl]
          exact further

/-- What a walk enters is among all nodes, in their order. -/
theorem Tour.sublist_preorder (tour : Tour descend base next nodes visits) :
    ((entries visits).map Prod.snd).Sublist (nodes.flatMap Node.preorder) := by
  induction tour with
  | nil => exact .slnil
  | @cons base next node nodes inside rest _ _ inner outer =>
    have below : ((entries inside).map Prod.snd).Sublist (node.children.flatMap Node.preorder) := by
      cases allows : descend node with
      | true => simpa [allows] using inner
      | false =>
        rw [allows, if_neg (by simp), List.flatMap_nil] at inner
        rw [List.eq_nil_of_sublist_nil inner]
        exact List.nil_sublist _
    simp only [List.cons_append, entries_enter, entries_append, entries_leave, List.map_cons, List.map_append,
      List.flatMap_cons, node.preorder_eq]
    exact (below.append outer).cons_cons node

/-- A walk that refuses no node enters all of them. -/
theorem Tour.map_snd_entries (tour : Tour (fun _ => true) base next nodes visits) :
    (entries visits).map Prod.snd = nodes.flatMap Node.preorder := by
  induction tour with
  | nil => rfl
  | @cons base next node nodes inside rest _ _ inner outer =>
    rw [if_pos rfl] at inner
    simp [inner, outer, node.preorder_eq]

end

/-! ## Document order -/

/-- The order in which a document is read: the second span starts no earlier than the first, and lies inside it or behind
it. -/
def Span.Precedes (first second : Span) : Prop :=
  first.start ≤ second.start ∧ (first.contains second = true ∨ first.stop ≤ second.start)

theorem Span.contains_iff {outer inner : Span} :
    outer.contains inner = true ↔ outer.start ≤ inner.start ∧ inner.stop ≤ outer.stop := by
  simp [contains]

/-- A node comes in document order with all that is below it: none of this is empty, and all of it lies in the node. -/
structure Node.Ordered (node : Node) : Prop where
  precedes : node.preorder.Pairwise fun first second => first.span.Precedes second.span
  within : ∀ inner ∈ node.preorder, node.span.contains inner.span = true
  solid : ∀ inner ∈ node.preorder, inner.span.start < inner.span.stop

/-- Neighbours that follow each other come in document order with all that is below them. -/
theorem SpansOrdered.preorder {start stop : Nat} {nodes : List Node}
    (ordered : SpansOrdered start (nodes.map (·.span)) stop) (each : ∀ node ∈ nodes, node.Ordered) :
    ((nodes.flatMap Node.preorder).Pairwise fun first second => first.span.Precedes second.span) ∧
      ∀ inner ∈ nodes.flatMap Node.preorder, start ≤ inner.span.start ∧ inner.span.stop ≤ stop := by
  induction nodes generalizing start with
  | nil => simp
  | cons node nodes ih =>
    simp only [List.map_cons, SpansOrdered] at ordered
    obtain ⟨after, lt, further⟩ := ordered
    have le := further.le
    have own := each node (by simp)
    obtain ⟨later, bounds⟩ := ih further fun other among => each other (by simp [among])
    have here (inner : Node) (inside : inner ∈ node.preorder) := Span.contains_iff.mp (own.within inner inside)
    rw [List.flatMap_cons]
    constructor
    · refine List.pairwise_append.mpr ⟨own.precedes, later, fun first inside second behind => ?_⟩
      have ends := here first inside
      have nonempty := own.solid first inside
      have starts := bounds second behind
      exact ⟨by omega, .inr (by omega)⟩
    · intro inner among
      rcases List.mem_append.mp among with inside | behind
      · have bound := here inner inside
        omega
      · have bound := bounds inner behind
        omega

theorem Grown.ordered {source : List Char} {node : Node} (grown : Grown source node) : node.Ordered := by
  induction node using Node.induct with
  | step node ih =>
    obtain ⟨c, d, _, lt, span, order⟩ := grown.exists_inOrder
    have nonempty : node.span.start < node.span.stop := by
      rw [span]
      exact Cursor.pos_lt lt
    have children : SpansOrdered node.span.start (node.children.map (·.span)) node.span.stop := by
      rw [span]
      exact order.spansOrdered
    have each (child : Node) (among : child ∈ node.children) := ih child among (grown.children child among)
    obtain ⟨below, bounds⟩ := children.preorder each
    have inside (inner : Node) (among : inner ∈ node.children.flatMap Node.preorder) :
        node.span.contains inner.span = true := Span.contains_iff.mpr (bounds inner among)
    constructor
    · rw [node.preorder_eq]
      refine List.pairwise_cons.mpr ⟨fun inner among => ?_, below⟩
      exact ⟨(bounds inner among).1, .inl (inside inner among)⟩
    · intro inner among
      rcases List.mem_cons.mp (node.preorder_eq ▸ among) with rfl | among
      · simp [Span.contains]
      · exact inside inner among
    · intro inner among
      rcases List.mem_cons.mp (node.preorder_eq ▸ among) with rfl | among
      · exact nonempty
      · obtain ⟨child, member, deeper⟩ := List.mem_flatMap.mp among
        exact (each child member).solid inner deeper

/-- All nodes of a tree that has been read come in document order. -/
theorem Tree.read_preorder_precedes {options : ReadOptions} {source : List Char} {tree : Tree}
    (read : Tree.read options source = .ok tree) :
    tree.preorder.Pairwise fun first second => first.span.Precedes second.span := by
  have grown := Tree.read_grown read
  exact (grown.spans_tile.spansOrdered.preorder fun node among => (grown.grown node among).ordered).1

/-- A walk visits exactly the right nodes. The children of a form are the nodes in all of its places, each once. A
walk enters a node, at its address, just if no node above it is refused, in the order of the addresses and so each once;
it leaves the nodes that it enters, each once; and its visits are nested as the tree is. In a tree that has been read
the nodes that are entered come in document order, and so do the errors, which are those of the nodes that are entered
if none is refused. -/
theorem walk_visits_reached :
    (∀ (form : Form Node) (values : List Node), values.length = form.children.length →
      ∃! other : Form Node, other.shape = form.shape ∧ other.children = values) ∧
    (∀ (descend : Node → Bool) (nodes : List Node),
      let visits := addressed [] 0 (walk descend nodes)
      visits.map Prod.snd = walk descend nodes ∧
        (∀ address node, (address, node) ∈ entries visits ↔ Reached descend nodes address node) ∧
        ((entries visits).Pairwise fun first second => first.1 < second.1) ∧
        (exits visits).Perm (entries visits) ∧ Nested visits) ∧
    ∀ (options : ReadOptions) (source : List Char) (tree : Tree), Tree.read options source = .ok tree →
      (∀ descend, (entries (addressed [] 0 (walk descend tree.nodes))).Pairwise fun first second =>
        first.2.span.Precedes second.2.span) ∧
      tree.errors = ((entries (addressed [] 0 (walk (fun _ => true) tree.nodes))).filterMap fun entry =>
        entry.2.malformation?.map (·, entry.2.span)) ∧
      tree.errors.Pairwise fun first second => first.2.Precedes second.2 := by
  have tour (descend : Node → Bool) (nodes : List Node) :
      Tour descend [] 0 nodes (addressed [] 0 (walk descend nodes)) := by
    obtain ⟨visits, tour, read⟩ := exists_tour descend nodes [] 0 []
    have same : addressed [] 0 (walk descend nodes) = visits := by simpa [addressed] using read
    rw [same]
    exact tour
  refine ⟨fun form values => form.existsUnique_refill values, fun descend nodes => ?_, fun options source tree read => ?_⟩
  · have visits := tour descend nodes
    refine ⟨visits.map_snd, fun address node => ?_, visits.ordered, visits.exits_perm, visits.nested⟩
    rw [visits.mem_entries_iff]
    constructor
    · rintro ⟨place, below, rfl, reached⟩
      simpa using reached
    · intro reached
      cases address with
      | nil => simpa [nodeAt?] using reached.stands
      | cons place below => exact ⟨place, below, by simp, reached⟩
  · have order := Tree.read_preorder_precedes read
    refine ⟨fun descend => ?_, ?_, ?_⟩
    · have entered := order.sublist (tour descend tree.nodes).sublist_preorder
      rwa [List.pairwise_map] at entered
    · rw [Tree.errors, Tree.preorder, ← (tour _ tree.nodes).map_snd_entries, List.filterMap_map]
      rfl
    · refine List.Pairwise.filterMap _ ?_ order
      intro first second precedes error found other same
      simp only [Option.map_eq_some_iff] at found same
      obtain ⟨_, _, rfl⟩ := found
      obtain ⟨_, _, rfl⟩ := same
      exact precedes

/-- A conditional and a component that is refused. -/
theorem walk_visits_reached_sample :
    ∃ tree, Tree.read {} "@if a \x7b@x\x7d<Card>@y</Card>".toList = .ok tree ∧
      let visits := addressed [] 0 (walk (fun node => node.form.typeName != "component") tree.nodes)
      (entries visits).map Prod.fst = [[0], [0, 0], [1]] ∧
        ((entries visits).Pairwise fun first second => first.2.span.Precedes second.2.span) ∧
        tree.errors.Pairwise fun first second => first.2.Precedes second.2 := by
  have read : Tree.read {} "@if a \x7b@x\x7d<Card>@y</Card>".toList =
      .ok ⟨[⟨.statement (.conditional ⟨"a", ⟨4, 5⟩⟩
        [⟨.expression ⟨.simple 0 [.ident "x"], "x", false⟩, ⟨7, 9⟩⟩] none), ⟨0, 10⟩⟩,
        ⟨.component ⟨⟨"Card", ⟨11, 15⟩⟩, .tag, [], [⟨.expression ⟨.simple 0 [.ident "y"], "y", false⟩, ⟨16, 18⟩⟩], false⟩,
          ⟨10, 25⟩⟩], "@if a \x7b@x\x7d<Card>@y</Card>".toList, 0⟩ := by cbv
  obtain ⟨entered, errors⟩ : _ ∧ _ ∧ _ := walk_visits_reached.2.2 {} _ _ read
  refine ⟨_, read, ?_, entered _, errors.2⟩
  simp [walk_cons, Node.children, Node.form, Form.children, Statement.children, Form.typeName, addressed]

end SigilTemplate
