import SigilTemplate.Text.Printable

/-!
Quoted text. Quotes and backslashes are escaped, the common controls have a
letter, and any other character that cannot be shown is given by its code point
in hexadecimal between braces.
-/

namespace SigilTemplate.Text

/-- A hexadecimal digit, lower case. -/
def hexDigit (n : Nat) : Char := if n < 10 then Char.ofNat (48 + n) else Char.ofNat (87 + n)

/-- The hexadecimal digits of a number, without leading zeros, in front of others. -/
def hexDigitsOnto (digits : List Char) (n : Nat) : List Char :=
  if n < 16 then hexDigit n :: digits
  else hexDigitsOnto (hexDigit (n % 16) :: digits) (n / 16)
termination_by n

/-- A character as it stands between quotes. -/
def quoteChar (c : Char) : List Char :=
  if c = '\x00' then ['\\', '0']
  else if c = '\t' then ['\\', 't']
  else if c = '\r' then ['\\', 'r']
  else if c = '\n' then ['\\', 'n']
  else if c = '"' then ['\\', '"']
  else if c = '\\' then ['\\', '\\']
  else if isPrintable c then [c]
  else ['\\', 'u', '{'] ++ hexDigitsOnto ['}'] c.toNat

def quote (text : List Char) : List Char := '"' :: text.flatMap quoteChar ++ ['"']

end SigilTemplate.Text
