import SigilTemplate.Text.Span

/-!
Files as the command sees them. What stands at a path is an entry: a file, a
device, or a directory with all files below it. A file table gives entries
without a disk; it follows a path name by name, as an operating system does,
with the same limits on names and paths.
-/

namespace SigilTemplate.Command

open Text

/-- Why a file gives no text. -/
inductive ReadFailure where
  | notFound
  | notDirectory
  | isDirectory
  | nameTooLong
  | invalidText
  | other (reason : String)
deriving DecidableEq

def ReadFailure.message : ReadFailure → String
  | notFound => "No such file or directory (os error 2)"
  | notDirectory => "Not a directory (os error 20)"
  | isDirectory => "Is a directory (os error 21)"
  | nameTooLong => "File name too long (os error 36)"
  | invalidText => "stream did not contain valid UTF-8"
  | other reason => reason

/-- The bytes of a file, or why they cannot be read. -/
abbrev Content := Except ReadFailure ByteArray

/-- The text of a file. -/
def Content.text (content : Content) : Except ReadFailure (List Char) :=
  content.bind fun bytes =>
    match String.fromUTF8? bytes with
    | some text => .ok text.toList
    | none => .error .invalidText

/-- The names from a directory down to something below it. -/
abbrev Names := List String

/-- What stands at a path. -/
inductive Entry where
  | file (content : Content)
  /-- A directory, with the files in it and below. -/
  | directory (files : List (Names × Content))
  /-- Something that can be read but is not a file. -/
  | device (content : Content)

/-- The content of an entry that is to be read. -/
def Entry.content : Entry → Content
  | file content | device content => content
  | directory _ => .error .isDirectory

/-- The longest name that a directory takes, in bytes. -/
def nameLimit : Nat := 255

/-- The longest path that can be followed, in bytes. -/
def pathLimit : Nat := 4095

/-- The path of a file below a directory. -/
def joinPath (directory : String) (names : Names) : String :=
  let path := "/".intercalate names
  if directory.toList.getLast? = some '/' then directory ++ path else directory ++ "/" ++ path

/-- A path without some leading names. -/
def below? : Names → Names → Option Names
  | [], names => some names
  | _ :: _, [] => none
  | first :: parent, name :: names => if first = name then below? parent names else none

/-- A file below a directory, as it is reached through the path of the directory. Where the path of
its own directory is too long it is not found, and where only its own path is it cannot be read. -/
def reached? (path : String) (names : Names) (content : Content) : Option (Names × Content) :=
  let fits (names : Names) := (joinPath path names).utf8ByteSize ≤ pathLimit
  if fits names then some (names, content)
  else if names.length ≤ 1 ∨ fits names.dropLast then some (names, .error .nameTooLong)
  else none

/-- What an entry shows of itself through its path. -/
def Entry.through (path : String) : Entry → Entry
  | directory files => directory (files.filterMap fun (names, content) => reached? path names content)
  | entry => entry

/-- Files and devices below one directory, and further directories whether or not they hold any. -/
structure FileTree where
  files : List (Names × Content) := []
  directories : List Names := []
  devices : List (Names × Content) := []

namespace FileTree

/-- The names at which something is known to stand, other than files. -/
def landmarks (tree : FileTree) : List Names := tree.directories ++ tree.devices.map (·.1)

/-- What stands at some names below the top of a tree. -/
def at? (tree : FileTree) (names : Names) : Option Entry :=
  match tree.files.find? fun file => file.1 = names with
  | some (_, content) => some (.file content)
  | none =>
    match tree.devices.find? fun device => device.1 = names with
    | some (_, content) => some (.device content)
    | none =>
      let files := tree.files.filterMap fun (path, content) =>
        (below? names path).map (·, content)
      let known := names.isEmpty || !files.isEmpty || tree.landmarks.any fun landmark =>
        (below? names landmark).isSome
      if known then some (.directory files) else none

/-- The root of a system, with what stands there on every one: the usual directories, the device
that holds nothing, and the one that gives what is sent to the command. -/
def usualRoot (standardInput : Content) : FileTree where
  directories := [["bin"], ["dev"], ["etc"], ["lib"], ["opt"], ["sbin"], ["tmp"], ["usr"], ["var"]]
  devices := [(["dev", "null"], .ok .empty), (["dev", "stdin"], standardInput)]

end FileTree

/-- The tree below the working directory, and the one below the root as far as it is known. Nothing
is known of what lies between them. -/
structure FileTable where
  working : FileTree
  root : FileTree

/-- A place that a path has led to. -/
inductive Place where
  | working (names : Names)
  | root (names : Names)
  /-- A directory above the working directory. -/
  | between

namespace Place

/-- The directory that a place is in. The root is in itself. -/
def parent : Place → Place
  | working [] => between
  | working names => working names.dropLast
  | root names => root names.dropLast
  | between => between

/-- A place by its name in a directory. -/
def child? (name : String) : Place → Option Place
  | working names => some (working (names ++ [name]))
  | root names => some (root (names ++ [name]))
  | between => none

end Place

namespace FileTable

/-- The entry at a place. -/
def entry? (table : FileTable) : Place → Option Entry
  | .working names => table.working.at? names
  | .root names => table.root.at? names
  | .between => some (.directory [])

/-- One step along a path, from a place that must be a directory. -/
def step (table : FileTable) (place : Place) (name : String) : Except ReadFailure Place :=
  match table.entry? place with
  | none => .error .notFound
  | some (.file _) | some (.device _) => .error .notDirectory
  | some (.directory _) =>
    if name = "" ∨ name = "." then .ok place
    else if name = ".." then .ok place.parent
    else if nameLimit < name.utf8ByteSize then .error .nameTooLong
    else
      match (place.child? name).filter fun child => (table.entry? child).isSome with
      | some child => .ok child
      | none => .error .notFound

/-- The names of a path. An absolute path starts with an empty one. -/
def namesOf (path : String) : Names := (path.toList.splitOn '/').map String.ofList

/-- Follows a path to what stands there. -/
def find (table : FileTable) (path : String) : Except ReadFailure Entry :=
  if pathLimit < path.utf8ByteSize then .error .nameTooLong
  else do
    let start : Place := if path.toList.head? = some '/' then .root [] else .working []
    let place ← (namesOf path).foldlM table.step start
    match table.entry? place with
    | some entry => .ok (entry.through path)
    | none => .error .notFound

end FileTable

/-- The ending that the names of templates have. -/
def extension : String := ".rs.html"

def isTemplateName (name : String) : Bool := extension.toList.isSuffixOf name.toList

/-- What stands behind the last slash of a path. -/
def lastName (path : String) : String := (FileTable.namesOf path).getLastD ""

/-- The templates among some files, in the order of their names from the top down. -/
def templates (files : List (Names × Content)) : List (Names × Content) :=
  (files.filter fun file => isTemplateName (file.1.getLastD "")).mergeSort
    fun a b => !b.1.lex a.1

end SigilTemplate.Command
