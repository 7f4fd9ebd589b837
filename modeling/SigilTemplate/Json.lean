import SigilTemplate.Text.Span

/-!
Values written as JSON. Members keep the order in which they are given. Written
on one line nothing but the values and their marks is there; written on several
lines each element stands on its own, two spaces further in than its container,
and an empty container stays closed.
-/

namespace SigilTemplate

inductive Json where
  | null
  | bool (value : Bool)
  | number (value : Nat)
  | string (text : String)
  | array (elements : List Json)
  | object (members : List (String × Json))

namespace Json

def ofOption (value : Option Json) : Json := value.getD null

def ofStringOption (text : Option String) : Json := ofOption (text.map string)

def strings (texts : List String) : Json := array (texts.map string)

/-- Two hexadecimal digits of a number below 256. -/
def hexPair (n : Nat) : List Char := [Nat.digitChar (n / 16), Nat.digitChar (n % 16)]

/-- A character between quotes: quotes, backslashes and controls are escaped, all else stands for itself. -/
def escapeChar (c : Char) : List Char :=
  if c = '"' then ['\\', '"']
  else if c = '\\' then ['\\', '\\']
  else if c = '\n' then ['\\', 'n']
  else if c = '\r' then ['\\', 'r']
  else if c = '\t' then ['\\', 't']
  else if c = '\x08' then ['\\', 'b']
  else if c = '\x0c' then ['\\', 'f']
  else if c.toNat < 0x20 then ['\\', 'u', '0', '0'] ++ hexPair c.toNat
  else [c]

def quoted (text : String) : String :=
  String.ofList ('"' :: text.toList.flatMap escapeChar ++ ['"'])

mutual

/-- Writes a value on one line, after what is already written. -/
def writeLine (out : String) : Json → String
  | null => out ++ "null"
  | bool value => out ++ if value then "true" else "false"
  | number value => out ++ toString value
  | string text => out ++ quoted text
  | array elements => (writeLineElements (out ++ "[") true elements) ++ "]"
  | object members => (writeLineMembers (out ++ "\x7b") true members) ++ "\x7d"

def writeLineElements (out : String) (first : Bool) : List Json → String
  | [] => out
  | value :: rest =>
    writeLineElements (writeLine (if first then out else out ++ ",") value) false rest

def writeLineMembers (out : String) (first : Bool) : List (String × Json) → String
  | [] => out
  | (name, value) :: rest =>
    let out := if first then out else out ++ ","
    writeLineMembers (writeLine (out ++ quoted name ++ ":") value) false rest

end

def indentation (depth : Nat) : String := String.ofList (List.replicate (2 * depth) ' ')

mutual

/-- Writes a value on several lines, after what is already written on lines indented by `depth` steps. -/
def writeLines (depth : Nat) (out : String) : Json → String
  | null => out ++ "null"
  | bool value => out ++ if value then "true" else "false"
  | number value => out ++ toString value
  | string text => out ++ quoted text
  | array [] => out ++ "[]"
  | object [] => out ++ "\x7b\x7d"
  | array elements =>
    writeElements (depth + 1) (out ++ "[") true elements ++ "\n" ++ indentation depth ++ "]"
  | object members =>
    writeMembers (depth + 1) (out ++ "\x7b") true members ++ "\n" ++ indentation depth ++ "\x7d"

def writeElements (depth : Nat) (out : String) (first : Bool) : List Json → String
  | [] => out
  | value :: rest =>
    let out := (if first then out else out ++ ",") ++ "\n" ++ indentation depth
    writeElements depth (writeLines depth out value) false rest

def writeMembers (depth : Nat) (out : String) (first : Bool) : List (String × Json) → String
  | [] => out
  | (name, value) :: rest =>
    let out := (if first then out else out ++ ",") ++ "\n" ++ indentation depth ++ quoted name ++ ": "
    writeMembers depth (writeLines depth out value) false rest

end

/-- The value on one line. -/
def compact (value : Json) : String := writeLine "" value

/-- The value on several lines. -/
def pretty (value : Json) : String := writeLines 0 "" value

end Json

end SigilTemplate
