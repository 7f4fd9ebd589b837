/-!
White space is the Unicode property White_Space: 25 characters. The blanks and
line ends of ASCII are among them, the byte order mark and the zero-width space
are not.
-/

namespace SigilTemplate.Text

def isBlank (c : Char) : Bool :=
  let n := c.toNat
  (9 ≤ n && n ≤ 13) || n == 0x20 || n == 0x85 || n == 0xA0 || n == 0x1680 ||
    (0x2000 ≤ n && n ≤ 0x200A) || n == 0x2028 || n == 0x2029 || n == 0x202F || n == 0x205F ||
    n == 0x3000

/-- A space or a tab: blanks that stay on their line. -/
def isInlineBlank (c : Char) : Bool := c == ' ' || c == '\t'

def trimStart (text : List Char) : List Char := text.dropWhile isBlank

def trimEnd (text : List Char) : List Char := (text.reverse.dropWhile isBlank).reverse

def trim (text : List Char) : List Char := trimEnd (trimStart text)

end SigilTemplate.Text
