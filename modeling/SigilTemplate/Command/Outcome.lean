import SigilTemplate.Batch
import SigilTemplate.Command.Files
import SigilTemplate.Command.Invocation
import SigilTemplate.Command.Message
import SigilTemplate.Diagnostic.Render
import SigilTemplate.Metadata.Encoding
import SigilTemplate.Metadata.Survey
import SigilTemplate.Tree.Encoding
import SigilTemplate.Tree.Outline

/-!
What comes out of an invocation: an exit code, what is printed, and messages.
The work succeeds if every template could be read and has no error nodes.
-/

namespace SigilTemplate.Command

open Text

structure Outcome where
  success : Bool
  /-- What goes to standard output. -/
  printed : String := ""
  messages : List Message := []

namespace Outcome

def exitCode (outcome : Outcome) : Nat := if outcome.success then 0 else 1

def failed (text : String) : Outcome := { success := false, messages := [.failure text] }

def unreadable (name : String) (failure : ReadFailure) : Outcome :=
  failed ("failed to read " ++ name ++ ": " ++ failure.message)

/-- What goes to standard error. -/
def messageText (verbosity : Nat) (stamp elapsed : String) (outcome : Outcome) : String :=
  String.join ((outcome.messages.filter (Message.isShown verbosity)).map (Message.written stamp elapsed))

end Outcome

/-- A template and the name it goes by in messages. -/
structure NamedSource where
  name : String
  source : List Char

def recoveryText (recovery : Recovery) : String :=
  "recovered from malformed construct kind=\"" ++ recovery.kind.title ++ "\" start=" ++
    toString recovery.span.start ++ " end=" ++ toString recovery.span.stop

/-- What is logged while a template is read. -/
def readingLog (source : List Char) (reading : Traced Tree) : List Message :=
  .log .debug ("parsing template bytes=" ++ toString (byteLength source)) ::
    reading.recoveries.map (fun recovery => .log .trace (recoveryText recovery)) ++
    match reading.outcome with
    | .ok tree => [.log .debug ("parsed template nodes=" ++ toString tree.nodes.length)]
    | .error _ => []

/-- Everything that is wrong with a template, or with its reading. -/
def diagnostics : Except Fault Tree → List Diagnostic
  | .ok tree => tree.errors.map fun (cause, span) => cause.diagnostic span
  | .error fault => [fault.diagnostic]

/-- Messages about everything that is wrong with a template. -/
def report (file : NamedSource) (outcome : Except Fault Tree) : List Message :=
  (diagnostics outcome).map fun diagnostic =>
    .diagnostic (diagnostic.render .plain file.source file.name)

def print (format : Format) (tree : Tree) : String :=
  match format with
  | .outline => tree.outlineText
  | .json => tree.toJson.pretty
  | .metadata => tree.metadata.toJson.pretty

/-- Reads one template and prints it. -/
def parse (options : ReadOptions) (format : Format) (file : NamedSource) : Outcome :=
  let reading := Tree.trace options file.source
  let problems := report file reading.outcome
  { success := problems.isEmpty
    printed :=
      match reading.outcome with
      | .ok tree => print format tree ++ "\n"
      | .error _ => ""
    messages := readingLog file.source reading ++ problems }

/-- The messages about one template that was checked. -/
def checkReport (file : NamedSource) (outcome : Except Fault Tree) : List Message :=
  match report file outcome with
  | [] => [.checked file.name]
  | problems => problems

/-- Checks some templates, shared out among workers. -/
def checkAll (options : ReadOptions) (workers : Nat) (files : List NamedSource) : Outcome :=
  let readings := Batch.answers (fun file => (file, Tree.trace options file.source)) workers files
  let bad := readings.filter fun (_, reading) => !(diagnostics reading.outcome).isEmpty
  let count := toString files.length
  { success := bad.isEmpty
    messages :=
      [.log .debug ("checking templates files=" ++ count),
        .log .debug ("batch parse templates=" ++ count ++ " chunk_size=" ++
          toString (Batch.chunkSize files.length workers))] ++
      readings.flatMap (fun (file, reading) => readingLog file.source reading) ++
      readings.flatMap (fun (file, reading) => checkReport file reading.outcome) ++
      [.summary files.length bad.length] }

/-- The texts of some files, or the first failure and the name it goes with. -/
def decodeAll : List (String × Content) → Except (String × ReadFailure) (List NamedSource)
  | [] => .ok []
  | (name, content) :: rest =>
    match content.text with
    | .error failure => .error (name, failure)
    | .ok source => (decodeAll rest).map (⟨name, source⟩ :: ·)

/-- Checks the files that were found at a path. -/
def checkFiles (options : ReadOptions) (workers : Nat) (path : String)
    (files : List (String × Content)) : Outcome :=
  if files.isEmpty then Outcome.failed ("no " ++ extension ++ " files found in " ++ path)
  else
    match decodeAll files with
    | .error (name, failure) => Outcome.unreadable name failure
    | .ok sources => checkAll options workers sources

/-- Checks what stands at a path. -/
def check (options : ReadOptions) (workers : Nat) (path : String) (entry : Except ReadFailure Entry) :
    Outcome :=
  match entry with
  | .error _ | .ok (.device _) => Outcome.failed (path ++ " does not exist")
  | .ok (.file content) =>
    if isTemplateName (lastName path) then checkFiles options workers path [(path, content)]
    else Outcome.failed (path ++ " is not a " ++ extension ++ " file")
  | .ok (.directory files) =>
    checkFiles options workers path
      ((templates files).map fun (names, content) => (joinPath path names, content))

/-- Reads and prints a template from its content. Messages about the template give it a name, and
one about its content says where that comes from. -/
def parseContent (options : ReadOptions) (format : Format) (name origin : String) (content : Content) :
    Outcome :=
  match content.text with
  | .ok source => parse options format ⟨name, source⟩
  | .error failure => Outcome.unreadable origin failure

/-- Does what an invocation asks for. The entry is that of the path to be looked up, if there is one. -/
def Invocation.outcome (invocation : Invocation) (workers : Nat) (standardInput : Content)
    (entry : Except ReadFailure Entry) : Outcome :=
  match invocation.task with
  | .parse .standardInput format =>
    parseContent invocation.options format "<stdin>" "stdin" standardInput
  | .parse (.file path) format =>
    parseContent invocation.options format path path (entry.bind Entry.content)
  | .check path => check invocation.options workers path entry

end SigilTemplate.Command
