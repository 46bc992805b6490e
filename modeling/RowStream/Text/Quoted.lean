import RowStream.Text.Invisible

/-!
# Quoted text in messages

A text quoted inside a message stands between double quotes; a quote, a backslash and the common
controls are written with a backslash, and every other character that cannot be shown is written
by its code point in hexadecimal.
-/

namespace RowStream.Text

/-- One character of a quoted text. -/
def quotedChar (c : Char) : List Char :=
  if c = '\x00' then ['\\', '0']
  else if c = '\t' then ['\\', 't']
  else if c = '\r' then ['\\', 'r']
  else if c = '\n' then ['\\', 'n']
  else if c = '"' then ['\\', '"']
  else if c = '\\' then ['\\', '\\']
  else if isInvisible c then
    ['\\', 'u', '\x7b'] ++ Nat.toDigits 16 c.toNat ++ ['\x7d']
  else [c]

/-- A text in double quotes. -/
def quoted (s : String) : String :=
  String.ofList (['"'] ++ s.toList.flatMap quotedChar ++ ['"'])

example : quoted "a\"\n" = "\"a\\\"\\n\"" := by decide +kernel
example : quotedChar '\u0301' = ['\\', 'u', '\x7b', '3', '0', '1', '\x7d'] := by decide +kernel

end RowStream.Text
