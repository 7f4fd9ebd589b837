import SigilTemplate.Metadata.Basic
import SigilTemplate.Tree.Visit

/-!
Surveys of a tree. A survey looks for findings of its own kind at every node,
in document order, and each finding goes into one field of the metadata.
Metadata accumulate over the trees that are surveyed, apart from the number of
errors, which is that of the last tree.
-/

namespace SigilTemplate

/-- One fact about a template. -/
inductive Finding where
  | layout (reference : LayoutReference)
  | usedFile (file : UsedFile)
  | includedFile (path : String)
  | definedSection (name : String)
  | renderedSection (name : String)
  | renderedBody
  | component (name : String)
  | parameter (parameter : DeclaredParameter)
  | function (name : String)
deriving DecidableEq

namespace Metadata

def record (metadata : Metadata) : Finding → Metadata
  | .layout reference => { metadata with layout := some reference }
  | .usedFile file => { metadata with uses := metadata.uses ++ [file] }
  | .includedFile path =>
    if path ∈ metadata.includes then metadata
    else { metadata with includes := metadata.includes ++ [path] }
  | .definedSection name =>
    { metadata with sectionsDefined := metadata.sectionsDefined.insert name }
  | .renderedSection name =>
    { metadata with sectionsRendered := metadata.sectionsRendered.insert name }
  | .renderedBody => { metadata with rendersBody := true }
  | .component name => { metadata with components := metadata.components.insert name }
  | .parameter parameter => { metadata with parameters := metadata.parameters ++ [parameter] }
  | .function name => { metadata with functions := metadata.functions ++ [name] }

end Metadata

/-- What a survey looks for. -/
inductive Survey where
  /-- Layouts, used files and included files. -/
  | dependencies
  /-- Sections, and whether the body of a child is rendered. -/
  | sections
  | components
  /-- Parameters and functions. -/
  | signature
deriving DecidableEq

namespace Survey

/-- All surveys, in the order in which they are made. -/
def all : List Survey := [dependencies, sections, components, signature]

def layoutReference (path : Option Fragment) : LayoutReference :=
  match path with
  | none => .standard
  | some path => .path path.text

/-- What a survey finds at one node. -/
def findings {α : Type} (survey : Survey) (form : Form α) : List Finding :=
  match survey, form with
  | dependencies, .directive (.layout path) => [.layout (layoutReference path)]
  | dependencies, .directive (.useFile path component) =>
    [.usedFile ⟨path.text, component.map (·.text)⟩]
  | dependencies, .directive (.includeFile path) => [.includedFile path.text]
  | sections, .directive (.sectionBlock name _) => [.definedSection name.text]
  | sections, .directive (.sectionValue name _) => [.definedSection name.text]
  | sections, .directive (.render name) => [.renderedSection name.text]
  | sections, .directive .renderBody => [.renderedBody]
  | sections, .directive .childContent => [.renderedBody]
  | components, .component component => [.component component.name.text]
  | signature, .parameters parameters =>
    parameters.map fun parameter => .parameter ⟨parameter.name.text, parameter.type.text⟩
  | signature, .directive (.function name _ _) => [.function name.text]
  | _, _ => []

end Survey

/-- What a survey finds in a tree. -/
def Tree.findings (survey : Survey) (tree : Tree) : List Finding :=
  tree.preorder.flatMap fun node => survey.findings node.form

namespace Metadata

/-- Metadata after one survey of a tree. -/
def addSurvey (tree : Tree) (metadata : Metadata) (survey : Survey) : Metadata :=
  (tree.findings survey).foldl record metadata

/-- Metadata after some surveys of a tree, one after the other. -/
def addTree (surveys : List Survey) (metadata : Metadata) (tree : Tree) : Metadata :=
  { surveys.foldl (addSurvey tree) metadata with errorCount := tree.errors.length }

end Metadata

/-- The metadata of a template, from all surveys. -/
def Tree.metadata (tree : Tree) : Metadata := Metadata.addTree Survey.all {} tree

end SigilTemplate
