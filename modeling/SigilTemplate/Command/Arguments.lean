import SigilTemplate.Command.Invocation

/-!
Reading the arguments of the command line. The general options may stand before
the command or after it; what is said after it counts. No option but the
verbosity may be given twice in one of these places. Any misuse is answered
alike, so there is one refusal.
-/

namespace SigilTemplate.Command

/-- The options that only the `parse` command has. -/
inductive Flag where
  | stdin
  | json
  | outline
  | metadata
deriving DecidableEq

def Flag.word : Flag → String
  | stdin => "stdin"
  | json => "json"
  | outline => "outline"
  | metadata => "metadata"

/-- What has been given in one place. -/
structure Given where
  maxDepth : Option Nat := none
  noHeader : Bool := false
  verbosity : Nat := 0
  flags : List Flag := []
  words : List String := []

namespace Given

/-- What is given after the command, over what is given before it. -/
def orElse (later earlier : Given) : Given :=
  { later with
    maxDepth := later.maxDepth.orElse fun _ => earlier.maxDepth
    noHeader := later.noHeader || earlier.noHeader
    verbosity := if later.verbosity = 0 then earlier.verbosity else later.verbosity }

def setMaxDepth? (given : Given) (depth : Nat) : Option Given :=
  if given.maxDepth.isSome then none else some { given with maxDepth := some depth }

def setNoHeader? (given : Given) : Option Given :=
  if given.noHeader then none else some { given with noHeader := true }

def setFlag? (given : Given) (flag : Flag) : Option Given :=
  if flag ∈ given.flags then none else some { given with flags := flag :: given.flags }

def addWord (given : Given) (word : String) : Given := { given with words := given.words ++ [word] }

def addVerbosity (given : Given) (count : Nat) : Given :=
  { given with verbosity := given.verbosity + count }

end Given

/-- A number that an option takes is below this. -/
def numberLimit : Nat := UInt64.size

/-- A number in decimal digits, perhaps after a plus sign. -/
def number? (text : List Char) : Option Nat :=
  let digits :=
    match text with
    | '+' :: digits => digits
    | digits => digits
  if digits.isEmpty || !digits.all Char.isDigit then none
  else
    let value := digits.foldl (fun value digit => value * 10 + (digit.toNat - 48)) 0
    if value < numberLimit then some value else none

/-- An argument, taken by its look. -/
inductive Shape where
  /-- Two dashes alone: all that follows are words. -/
  | separator
  | long (name : List Char) (value : Option (List Char))
  /-- One dash and some letters. -/
  | short (letters : List Char)
  | word

def Shape.of (argument : List Char) : Shape :=
  match argument with
  | ['-', '-'] => separator
  | '-' :: '-' :: option =>
    let name := option.takeWhile (· != '=')
    long name (if name.length < option.length then some (option.drop (name.length + 1)) else none)
  | ['-'] => word
  | '-' :: letters => short letters
  | _ => word

/-- An option without a value, by its name. -/
def setLong? (flags : List Flag) (given : Given) (name : List Char) : Option Given :=
  if name = "no-header".toList then given.setNoHeader?
  else if name = "verbose".toList then some (given.addVerbosity 1)
  else (flags.find? fun flag => flag.word.toList = name).bind given.setFlag?

def maxDepthName : List Char := "max-depth".toList

/-- Reads arguments for a place that has the given flags. The place before the command ends at the
first word; what it leaves is the command's name and the arguments of the command. -/
def readGiven? (flags : List Flag) (beforeCommand : Bool) (given : Given) :
    List String → Option (Given × List String)
  | [] => some (given, [])
  | argument :: rest =>
    match Shape.of argument.toList with
    | .separator => if beforeCommand then none else some (rest.foldl Given.addWord given, [])
    | .word =>
      if beforeCommand then some (given, argument :: rest)
      else readGiven? flags beforeCommand (given.addWord argument) rest
    | .short letters =>
      if letters.all (· == 'v') then
        readGiven? flags beforeCommand (given.addVerbosity letters.length) rest
      else none
    | .long name (some value) =>
      if name = maxDepthName then do
        readGiven? flags beforeCommand (← given.setMaxDepth? (← number? value)) rest
      else none
    | .long name none =>
      if name = maxDepthName then
        match rest with
        | [] => none
        | value :: rest => do
          readGiven? flags beforeCommand (← given.setMaxDepth? (← number? value.toList)) rest
      else do
        readGiven? flags beforeCommand (← setLong? flags given name) rest

/-- The one word that a command was given. An empty one is no path. -/
def path? (words : List String) : Option String :=
  match words with
  | [path] => if path.isEmpty then none else some path
  | _ => none

/-- What is to be printed. At most one way may be asked for; the outline is the usual one. -/
def format? (flags : List Flag) : Option Format :=
  match flags.filter (· ≠ .stdin) with
  | [] | [.outline] => some .outline
  | [.json] => some .json
  | [.metadata] => some .metadata
  | _ => none

/-- Where the template comes from. Standard input goes before a file that is named as well. -/
def input? (given : Given) : Option Input :=
  if given.words.isEmpty then
    if Flag.stdin ∈ given.flags then some .standardInput else none
  else
    (path? given.words).map fun path =>
      if Flag.stdin ∈ given.flags then .standardInput else .file path

def invocation (given : Given) (task : Task) : Invocation :=
  ⟨task, { maxDepth := given.maxDepth.getD 128, header := !given.noHeader }, given.verbosity⟩

/-- A command by its name, with what was given before it. -/
def readCommand? (earlier : Given) (name : String) (arguments : List String) : Option Invocation :=
  if name = "parse" then do
    let (given, _) ← readGiven? [.stdin, .json, .outline, .metadata] false {} arguments
    let format ← format? given.flags
    let input ← input? given
    pure (invocation (given.orElse earlier) (.parse input format))
  else if name = "check" then do
    let (given, _) ← readGiven? [] false {} arguments
    let path ← path? given.words
    pure (invocation (given.orElse earlier) (.check path))
  else none

/-- What the arguments ask for; none if they are misused. -/
def Invocation.ofArguments? (arguments : List String) : Option Invocation := do
  let (earlier, command) ← readGiven? [] true {} arguments
  match command with
  | name :: arguments => readCommand? earlier name arguments
  | [] => none

end SigilTemplate.Command
