import SigilTemplate.Json
import SigilTemplate.Metadata.Basic

/-!
Metadata as JSON, one member for each field.
-/

namespace SigilTemplate

def LayoutReference.toJson : LayoutReference → Json
  | .standard => .object [("kind", .string "default")]
  | .path file => .object [("kind", .string "path"), ("path", .string file)]

def UsedFile.toJson (file : UsedFile) : Json :=
  .object [("path", .string file.path), ("alias", .ofStringOption file.rename)]

def DeclaredParameter.toJson (parameter : DeclaredParameter) : Json :=
  .object [("name", .string parameter.name), ("ty", .string parameter.type)]

/-- The members of the object that metadata are written as. -/
def Metadata.members (metadata : Metadata) : List (String × Json) :=
  [("layout", .ofOption (metadata.layout.map LayoutReference.toJson)),
    ("uses", .array (metadata.uses.map UsedFile.toJson)),
    ("includes", .strings metadata.includes),
    ("sections_defined", .strings metadata.sectionsDefined.names),
    ("sections_rendered", .strings metadata.sectionsRendered.names),
    ("renders_body", .bool metadata.rendersBody),
    ("components", .strings metadata.components.names),
    ("parameters", .array (metadata.parameters.map DeclaredParameter.toJson)),
    ("functions", .strings metadata.functions),
    ("error_count", .number metadata.errorCount)]

def Metadata.toJson (metadata : Metadata) : Json := .object metadata.members

end SigilTemplate
