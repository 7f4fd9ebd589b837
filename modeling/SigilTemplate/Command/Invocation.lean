import SigilTemplate.Reading.Template

/-!
What the command line asks for: to read one template and print it, or to check
all templates at a path.
-/

namespace SigilTemplate.Command

/-- What is printed of a template. -/
inductive Format where
  | outline
  | json
  | metadata
deriving DecidableEq

/-- Where a template comes from. -/
inductive Input where
  | standardInput
  | file (path : String)
deriving DecidableEq

inductive Task where
  | parse (input : Input) (format : Format)
  | check (path : String)
deriving DecidableEq

structure Invocation where
  task : Task
  options : ReadOptions
  /-- How much is logged: nothing, then what is done, then every recovery. -/
  verbosity : Nat
deriving DecidableEq

/-- The path that has to be looked up. -/
def Invocation.path? (invocation : Invocation) : Option String :=
  match invocation.task with
  | .parse .standardInput _ => none
  | .parse (.file path) _ | .check path => some path

end SigilTemplate.Command
