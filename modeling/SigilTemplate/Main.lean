import SigilTemplate.Command.Arguments
import SigilTemplate.Command.Outcome

/-!
The command line. It looks up the path that an invocation names, lets the
invocation give its outcome, and writes that out.
-/

namespace SigilTemplate.Command

def usage : String :=
  "usage: sigil-template [--max-depth N] [--no-header] [-v] parse (FILE | --stdin) [--json | --outline | --metadata]\n" ++
  "       sigil-template [--max-depth N] [--no-header] [-v] check PATH"

/-- The operating system's numbers for a path that goes on behind a file, and for one that is too long. -/
def notDirectoryNumber : UInt32 := 20

def nameTooLongNumber : UInt32 := 36

/-- The number of an error, which some calls give negated. -/
def errorNumber (code : UInt32) : UInt32 := if code < 0x80000000 then code else 0 - code

def failureOf : IO.Error → ReadFailure
  | .noFileOrDirectory _ _ _ => .notFound
  | .inappropriateType _ code _ =>
    if errorNumber code = notDirectoryNumber then .notDirectory else .isDirectory
  | error@(.invalidArgument _ code _) =>
    if errorNumber code = nameTooLongNumber then .nameTooLong else .other (toString error)
  | error => .other (toString error)

def contentAt (path : String) : IO Content := do
  try
    return .ok (← IO.FS.readBinFile path)
  catch error =>
    return .error (failureOf error)

/-- The templates in a directory and below, as far as it can be listed. Links are not followed. -/
partial def templatesBelow (names : Names) (directory : String) : IO (List (Names × Content)) := do
  try
    let entries ← (← IO.FS.realPath directory).readDir
    let mut files := []
    for entry in entries do
      let inner := names ++ [entry.fileName]
      let path := joinPath directory [entry.fileName]
      match (← entry.path.symlinkMetadata).type with
      | .dir => files := files ++ (← templatesBelow inner path)
      | .file =>
        if isTemplateName entry.fileName then files := files ++ [(inner, ← contentAt path)]
      | _ => pure ()
    return files
  catch _ =>
    return []

/-- What stands at a path on the disk. -/
def entryAt (path : String) : IO (Except ReadFailure Entry) := do
  if pathLimit < path.utf8ByteSize then return .error .nameTooLong
  try
    match (← (← IO.FS.realPath path).metadata).type with
    | .dir => return .ok (.through path (.directory (← templatesBelow [] path)))
    | .file => return .ok (.file (← contentAt path))
    | _ => return .ok (.device (← contentAt path))
  catch _ =>
    return (← contentAt path).map fun bytes => .file (.ok bytes)

/-- A duration in the largest unit that it reaches. -/
def durationText (microseconds : Nat) : String :=
  if microseconds < 1000 then toString microseconds ++ "μs"
  else if microseconds < 1000000 then toString (microseconds / 1000) ++ "ms"
  else toString (microseconds / 1000000) ++ "s"

/-- Does what an invocation asks for. -/
def perform (invocation : Invocation) : IO UInt32 := do
  let started ← IO.monoNanosNow
  let input : Content ←
    if invocation.path?.isNone then pure (.ok (← (← IO.getStdin).readBinToEnd)) else pure (.ok .empty)
  let entry ← (invocation.path?.map entryAt).getD (pure (.error .notFound))
  let outcome := invocation.outcome 1 input entry
  IO.print outcome.printed
  let elapsed := durationText (((← IO.monoNanosNow) - started) / 1000)
  IO.eprint (outcome.messageText invocation.verbosity elapsed elapsed)
  return UInt32.ofNat outcome.exitCode

end SigilTemplate.Command

open SigilTemplate.Command in
def main (arguments : List String) : IO UInt32 := do
  match Invocation.ofArguments? arguments with
  | some invocation => perform invocation
  | none =>
    IO.eprintln usage
    return 2
