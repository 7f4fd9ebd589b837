import SigilTemplate.Metadata.NameSet

/-!
What a template says about itself: the files it needs, the sections it defines
and renders, the components it uses and what it declares. Paths stand as they
are written; finding the files is up to whoever reads the metadata.
-/

namespace SigilTemplate

/-- The layout that a template asks for. -/
inductive LayoutReference where
  | standard
  | path (path : String)
deriving DecidableEq

/-- A file whose component a template uses, perhaps under a name of its own choice. -/
structure UsedFile where
  path : String
  rename : Option String
deriving DecidableEq

/-- What follows the last slash or backslash of a path. -/
def fileName (path : List Char) : List Char :=
  (path.reverse.takeWhile fun ch => ch != '/' && ch != '\\').reverse

/-- What stands before the first dot. -/
def beforeDot (text : List Char) : List Char := text.takeWhile (· != '.')

/-- The name that a used component goes by: the chosen one, or the file's name up to its first dot. -/
def UsedFile.name (file : UsedFile) : String :=
  file.rename.getD (String.ofList (beforeDot (fileName file.path.toList)))

structure DeclaredParameter where
  name : String
  type : String
deriving DecidableEq

structure Metadata where
  /-- The last layout that is asked for. -/
  layout : Option LayoutReference := none
  /-- Used files in document order, with repetitions. -/
  uses : List UsedFile := []
  /-- Included files in the order of their first mention. -/
  includes : List String := []
  sectionsDefined : NameSet := ∅
  sectionsRendered : NameSet := ∅
  rendersBody : Bool := false
  components : NameSet := ∅
  parameters : List DeclaredParameter := []
  functions : List String := []
  /-- The number of error nodes in the tree that was surveyed last. -/
  errorCount : Nat := 0

namespace Metadata

/-- The template fills in the sections of a layout. -/
def isLayoutChild (metadata : Metadata) : Bool := metadata.layout.isSome

/-- Sections that are rendered here and defined elsewhere. -/
def openSections (metadata : Metadata) : List String :=
  metadata.sectionsRendered.names.filter (· ∉ metadata.sectionsDefined)

/-- Components that no used file provides. A component belongs to the file that the part before its
first dot names. -/
def unresolvedComponents (metadata : Metadata) : List String :=
  metadata.components.names.filter fun name =>
    metadata.uses.all fun file => file.name.toList != beforeDot name.toList

end Metadata

end SigilTemplate
