/-!
# Blank characters

Two classes of white space: the four characters that may stand between the tokens of a JSON text,
and the white space of Unicode, which may surround the parts of a date.
-/

namespace RowStream.Text

/-- The white space of JSON: space, tab, line feed and carriage return. -/
def isJsonBlank (c : Char) : Bool :=
  c == ' ' || c == '\t' || c == '\n' || c == '\r'

/-- The white space of Unicode. -/
def isBlank (c : Char) : Bool :=
  let n := c.toNat
  (0x9 ≤ n && n ≤ 0xd) || n == 0x20 || n == 0x85 || n == 0xa0 || n == 0x1680 ||
    (0x2000 ≤ n && n ≤ 0x200a) || n == 0x2028 || n == 0x2029 || n == 0x202f || n == 0x205f ||
    n == 0x3000

/-- The text after its leading white space. -/
def dropBlank (s : List Char) : List Char := s.dropWhile isBlank

end RowStream.Text
