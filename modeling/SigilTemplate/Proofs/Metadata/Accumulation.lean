import Mathlib.Data.List.Nodup
import SigilTemplate.Metadata.Survey

/-!
How metadata accumulate. A finding touches only fields of its own survey, so
findings of different surveys may be recorded in any order; metadata depend on
nothing but what each survey finds, in its own order. The order of the surveys
therefore has no bearing on the metadata, and trees that are surveyed one after
the other count as one tree, apart from the number of errors.
-/

namespace SigilTemplate

/-- The survey that a finding belongs to. -/
def Finding.survey : Finding → Survey
  | .layout _ | .usedFile _ | .includedFile _ => .dependencies
  | .definedSection _ | .renderedSection _ | .renderedBody => .sections
  | .component _ => .components
  | .parameter _ | .function _ => .signature

theorem Survey.survey_of_mem_findings {α : Type} {survey : Survey} {form : Form α} {finding : Finding}
    (among : finding ∈ survey.findings form) : finding.survey = survey := by
  unfold findings at among
  split at among
  case h_10 =>
    obtain ⟨parameter, _, rfl⟩ := List.mem_map.mp among
    rfl
  case h_12 => simp at among
  all_goals
    obtain rfl := List.mem_singleton.mp among
    rfl

namespace Metadata

/-! ## Findings in another order -/

theorem record_includedFile (metadata : Metadata) (path : String) :
    metadata.record (.includedFile path) =
      { metadata with includes := if path ∈ metadata.includes then metadata.includes else metadata.includes ++ [path] } := by
  simp only [record]
  split <;> rfl

/-- Findings of different surveys are recorded in either order. -/
theorem record_comm {first second : Finding} (apart : first.survey ≠ second.survey) (metadata : Metadata) :
    (metadata.record first).record second = (metadata.record second).record first := by
  cases first with
  | includedFile path =>
    cases second <;> first
      | exact absurd rfl apart
      | (rw [record_includedFile, record_includedFile]; rfl)
  | _ =>
    cases second with
    | includedFile path =>
      first
      | exact absurd rfl apart
      | (rw [record_includedFile, record_includedFile]; rfl)
    | _ =>
      first
      | exact absurd rfl apart
      | rfl

/-- A finding may be recorded after others of different surveys instead of before them. -/
theorem foldl_record_comm {finding : Finding} {others : List Finding}
    (apart : ∀ other ∈ others, other.survey ≠ finding.survey) (metadata : Metadata) :
    others.foldl record (metadata.record finding) = (others.foldl record metadata).record finding := by
  induction others generalizing metadata with
  | nil => rfl
  | cons other others ih =>
    have first : other.survey ≠ finding.survey := apart other List.mem_cons_self
    have later : ∀ other ∈ others, other.survey ≠ finding.survey :=
      fun other among => apart other (List.mem_cons_of_mem _ among)
    calc
      others.foldl record ((metadata.record finding).record other)
        = others.foldl record ((metadata.record other).record finding) := by rw [record_comm first]
      _ = (others.foldl record (metadata.record other)).record finding := ih later _

/-- Metadata depend only on what each survey finds, in the order in which it finds it. -/
theorem foldl_record_eq {findings others : List Finding}
    (same : ∀ survey, findings.filter (·.survey = survey) = others.filter (·.survey = survey))
    (metadata : Metadata) : findings.foldl record metadata = others.foldl record metadata := by
  induction findings generalizing others metadata with
  | nil =>
    have none : others = [] := by
      rw [List.eq_nil_iff_forall_not_mem]
      intro other among
      have found : other ∈ others.filter (·.survey = other.survey) := by simp [among]
      rw [← same] at found
      simp at found
    rw [none]
  | cons finding findings ih =>
    -- The finding comes first among those of its survey, so that it commutes with all that stand before it.
    have own := same finding.survey
    rw [List.filter_cons_of_pos (by simp), eq_comm, List.filter_eq_cons_iff] at own
    obtain ⟨before, after, rfl, others, _, left⟩ := own
    have none : before.filter (·.survey = finding.survey) = [] := List.filter_eq_nil_iff.mpr others
    have apart : ∀ other ∈ before, other.survey ≠ finding.survey := by simpa using others
    have rest : ∀ survey, findings.filter (·.survey = survey) = (before ++ after).filter (·.survey = survey) := by
      intro survey
      by_cases here : finding.survey = survey
      · subst here
        rw [List.filter_append, none, List.nil_append, left]
      · simpa [List.filter_append, here] using same survey
    calc
      findings.foldl record (metadata.record finding)
        = (before ++ after).foldl record (metadata.record finding) := ih rest _
      _ = after.foldl record ((before.foldl record metadata).record finding) := by
        rw [List.foldl_append, foldl_record_comm apart]
      _ = (before ++ finding :: after).foldl record metadata := by rw [List.foldl_append, List.foldl_cons]

end Metadata

/-! ## Findings of surveys and trees -/

/-- What some surveys find in a tree, one survey after the other. -/
def Tree.allFindings (surveys : List Survey) (tree : Tree) : List Finding :=
  surveys.flatMap fun survey => tree.findings survey

theorem Tree.filter_findings (tree : Tree) (survey kind : Survey) :
    (tree.findings survey).filter (·.survey = kind) = if survey = kind then tree.findings kind else [] := by
  have own : ∀ finding ∈ tree.findings survey, finding.survey = survey := by
    intro finding among
    obtain ⟨node, _, found⟩ := List.mem_flatMap.mp among
    exact Survey.survey_of_mem_findings found
  split
  · next same =>
    subst same
    exact List.filter_eq_self.mpr (by simpa using own)
  · next other =>
    refine List.filter_eq_nil_iff.mpr fun finding among => ?_
    simpa [own finding among] using other

/-- A survey that is made so many times finds the same so many times. -/
theorem Tree.filter_allFindings (tree : Tree) (surveys : List Survey) (kind : Survey) :
    (tree.allFindings surveys).filter (·.survey = kind) =
      (List.replicate (surveys.count kind) (tree.findings kind)).flatten := by
  induction surveys with
  | nil => rfl
  | cons survey surveys ih =>
    have first : tree.allFindings (survey :: surveys) = tree.findings survey ++ tree.allFindings surveys := rfl
    rw [first, List.filter_append, ih, tree.filter_findings, List.count_cons]
    by_cases same : survey = kind
    · simp [same, List.replicate_succ]
    · simp [same]

/-- A tree with the nodes of some others, one after the other. -/
def Tree.joined (trees : List Tree) (source : List Char) (contentStart : Nat) : Tree :=
  ⟨trees.flatMap (·.nodes), source, contentStart⟩

theorem Tree.findings_joined (trees : List Tree) (source : List Char) (contentStart : Nat) (survey : Survey) :
    (Tree.joined trees source contentStart).findings survey = trees.flatMap fun tree => tree.findings survey := by
  simp only [findings, preorder, joined, List.flatMap_assoc]

namespace Metadata

/-! ## Trees one after the other -/

/-- The metadata of some trees that are surveyed one after the other. -/
def ofTrees (surveys : List Survey) (trees : List Tree) : Metadata := trees.foldl (addTree surveys) {}

/-- The same metadata with another number of errors. -/
def withErrorCount (count : Nat) (metadata : Metadata) : Metadata := { metadata with errorCount := count }

theorem record_withErrorCount (count : Nat) (metadata : Metadata) (finding : Finding) :
    (metadata.withErrorCount count).record finding = (metadata.record finding).withErrorCount count := by
  cases finding with
  | includedFile path =>
    rw [record_includedFile, record_includedFile]
    rfl
  | _ => rfl

theorem foldl_record_withErrorCount (count : Nat) (metadata : Metadata) (findings : List Finding) :
    findings.foldl record (metadata.withErrorCount count) = (findings.foldl record metadata).withErrorCount count := by
  induction findings generalizing metadata with
  | nil => rfl
  | cons finding findings ih => rw [List.foldl_cons, List.foldl_cons, record_withErrorCount, ih]

theorem addTree_eq (surveys : List Survey) (metadata : Metadata) (tree : Tree) :
    metadata.addTree surveys tree =
      ((tree.allFindings surveys).foldl record metadata).withErrorCount tree.errors.length := by
  rw [Tree.allFindings, List.foldl_flatMap]
  rfl

/-- The order of the surveys has no bearing on what a tree adds. -/
theorem addTree_perm {surveys others : List Survey} (same : surveys.Perm others) :
    addTree surveys = addTree others := by
  funext metadata tree
  rw [addTree_eq, addTree_eq, foldl_record_eq]
  intro survey
  rw [Tree.filter_allFindings, Tree.filter_allFindings, same.count_eq]

/-- Apart from the number of errors, trees add what is found in all of them. -/
theorem foldl_addTree_eq (surveys : List Survey) (metadata : Metadata) (trees : List Tree) :
    (trees.foldl (addTree surveys) metadata).withErrorCount 0 =
      ((trees.flatMap (Tree.allFindings surveys)).foldl record metadata).withErrorCount 0 := by
  induction trees generalizing metadata with
  | nil => rfl
  | cons tree trees ih =>
    rw [List.foldl_cons, ih, addTree_eq, foldl_record_withErrorCount, List.flatMap_cons, List.foldl_append]
    rfl

/-- The number of errors is that of the last tree. -/
theorem errorCount_ofTrees {surveys : List Survey} {trees : List Tree} {last : Tree} (ends : last ∈ trees.getLast?) :
    (ofTrees surveys trees).errorCount = last.errors.length := by
  obtain ⟨before, rfl⟩ := List.getLast?_eq_some_iff.mp ends
  rw [ofTrees, List.foldl_append]
  rfl

theorem length_errors (tree : Tree) :
    tree.errors.length = tree.preorder.countP fun node => node.malformation?.isSome := by
  rw [Tree.errors, List.length_filterMap_eq_countP]
  congr 1
  funext node
  cases node.malformation? <;> rfl

/-- Surveys without repetition find in all trees together what they find in the trees joined. -/
theorem filter_joined {surveys : List Survey} (once : surveys.Nodup) (trees : List Tree) (source : List Char)
    (contentStart : Nat) (kind : Survey) :
    (trees.flatMap (Tree.allFindings surveys)).filter (·.survey = kind) =
      ((Tree.joined trees source contentStart).allFindings surveys).filter (·.survey = kind) := by
  rw [Tree.filter_allFindings, Tree.findings_joined, List.filter_flatMap]
  simp only [Tree.filter_allFindings]
  by_cases among : kind ∈ surveys
  · simp only [List.count_eq_one_of_mem once among, List.replicate_one, List.flatten_singleton]
  · simp [List.count_eq_zero_of_not_mem among]

/-- The order of the surveys has no bearing on the metadata of some trees. Trees that are surveyed one
after the other, by surveys of which none is made twice, have the metadata of the trees joined, apart
from the number of errors, which is the number of error nodes of the last tree. -/
theorem ofTrees_accumulates {surveys others : List Survey} (same : surveys.Perm others) (trees : List Tree) :
    ofTrees surveys trees = ofTrees others trees ∧
      (surveys.Nodup → ∀ source contentStart,
        (ofTrees surveys trees).withErrorCount 0 =
          (ofTrees surveys [Tree.joined trees source contentStart]).withErrorCount 0 ∧
        ∀ last ∈ trees.getLast?, (ofTrees surveys trees).errorCount =
          last.preorder.countP fun node => node.malformation?.isSome) := by
  refine ⟨by rw [ofTrees, addTree_perm same, ofTrees], ?_⟩
  intro once source contentStart
  constructor
  · rw [ofTrees, ofTrees, foldl_addTree_eq, foldl_addTree_eq, List.flatMap_singleton,
      foldl_record_eq (filter_joined once trees source contentStart)]
  · intro last ends
    rw [errorCount_ofTrees ends, length_errors]

theorem ofTrees_accumulates_sample :
    let first : Tree :=
      ⟨[⟨.directive (.useFile ⟨"a", ⟨6, 7⟩⟩ none), ⟨0, 8⟩⟩, ⟨.directive .renderBody, ⟨8, 20⟩⟩],
        "@use \"a\"@render_body".toList, 0⟩
    let second : Tree :=
      ⟨[⟨.directive (.useFile ⟨"b", ⟨6, 7⟩⟩ none), ⟨0, 8⟩⟩, ⟨.error .invalidSigil [], ⟨8, 9⟩⟩],
        "@use \"b\"@".toList, 0⟩
    ofTrees Survey.all [first, second] = ofTrees Survey.all.reverse [first, second] ∧
      (ofTrees Survey.all [first, second]).withErrorCount 0 =
        (ofTrees Survey.all [Tree.joined [first, second] [] 0]).withErrorCount 0 ∧
      (ofTrees Survey.all [first, second]).errorCount = 1 := by
  intro first second
  obtain ⟨order, accumulate⟩ := ofTrees_accumulates Survey.all.reverse_perm.symm [first, second]
  obtain ⟨joined, errors⟩ := accumulate (by decide) [] 0
  refine ⟨order, joined, (errors second rfl).trans ?_⟩
  simp [second, Tree.preorder, Node.preorder, Node.visits_eq, Node.children, Node.form, Form.children,
    Directive.children, Node.malformation?]

end Metadata

end SigilTemplate
