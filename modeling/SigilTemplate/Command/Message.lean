/-!
Messages of the command, each on lines of its own. Time stamps and durations
are known only where the program runs, so a message is written with them.
-/

namespace SigilTemplate.Command

inductive LogLevel where
  | debug
  | trace
deriving DecidableEq

/-- The verbosity from which a level is logged. -/
def LogLevel.threshold : LogLevel → Nat
  | debug => 1
  | trace => 2

def LogLevel.word : LogLevel → String
  | debug => "DEBUG"
  | trace => "TRACE"

inductive Message where
  | log (level : LogLevel) (text : String)
  /-- A diagnostic, with the line end behind it. -/
  | diagnostic (text : String)
  /-- A template without errors. -/
  | checked (path : String)
  /-- How many templates were checked, and how many of them had errors. -/
  | summary (files failed : Nat)
  /-- Why the command could not do its work. -/
  | failure (text : String)
deriving DecidableEq

namespace Message

/-- The message is written at a verbosity. Only logs depend on it. -/
def isShown (verbosity : Nat) : Message → Bool
  | log level _ => level.threshold ≤ verbosity
  | _ => true

def filesNoun (count : Nat) : String := if count = 1 then "file" else "files"

/-- A message as it is written, where logs are stamped with `stamp` and the work took `elapsed`. -/
def written (stamp elapsed : String) : Message → String
  | log level text => stamp ++ " " ++ level.word ++ " " ++ text ++ "\n"
  | diagnostic text => text
  | checked path => "  ✓ " ++ path ++ "\n"
  | summary files failed =>
    "\nChecked " ++ toString files ++ " " ++ filesNoun files ++ " in " ++ elapsed ++
      (if failed = 0 then "" else ", " ++ toString failed ++ " with errors") ++ "\n"
  | failure text => "Error: " ++ text ++ "\n"

end Message

end SigilTemplate.Command
