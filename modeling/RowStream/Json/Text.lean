import RowStream.Json.Number

/-!
# JSON values as text

The compact text of a value.  In a string only the quote, the backslash and the control characters
are escaped.
-/

namespace RowStream.Json

/-- One character of a string. -/
def stringChar (c : Char) : List Char :=
  if c = '"' then ['\\', '"']
  else if c = '\\' then ['\\', '\\']
  else if c = '\x08' then ['\\', 'b']
  else if c = '\x0c' then ['\\', 'f']
  else if c = '\n' then ['\\', 'n']
  else if c = '\r' then ['\\', 'r']
  else if c = '\t' then ['\\', 't']
  else if c < ' ' then
    ['\\', 'u', '0', '0', Nat.digitChar (c.toNat / 16), Nat.digitChar (c.toNat % 16)]
  else [c]

/-- The characters of a string with its quotes. -/
def stringChars (s : String) : List Char := '"' :: (s.toList.flatMap stringChar ++ ['"'])

mutual

/-- The characters of a value. -/
def chars : Json → List Char
  | null => ['n', 'u', 'l', 'l']
  | bool true => ['t', 'r', 'u', 'e']
  | bool false => ['f', 'a', 'l', 's', 'e']
  | number n => n.chars
  | string s => stringChars s
  | array [] => ['[', ']']
  | array (item :: items) => '[' :: (item.chars ++ itemsChars items)
  | object [] => ['{', '}']
  | object ((key, value) :: members) =>
    '{' :: (stringChars key ++ ':' :: (value.chars ++ membersChars members))

/-- The characters of the items that follow one, with the end of the array. -/
def itemsChars : List Json → List Char
  | [] => [']']
  | item :: items => ',' :: (item.chars ++ itemsChars items)

/-- The characters of the members that follow one, with the end of the object. -/
def membersChars : List (String × Json) → List Char
  | [] => ['}']
  | (key, value) :: members =>
    ',' :: (stringChars key ++ ':' :: (value.chars ++ membersChars members))

end

/-- The text of a value. -/
def text (v : Json) : String := String.ofList v.chars

end RowStream.Json
