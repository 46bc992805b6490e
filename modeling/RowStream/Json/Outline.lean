import RowStream.Json.Number
import RowStream.Text.Blank
import RowStream.Text.Digit

/-!
# Outlines of JSON texts

The outline of a text is what its grammar says, leaves still as they are spelled: numbers are not
evaluated, surrogates not paired, keys not compared and nesting not limited.  Where the text stops
being JSON the outline is broken off, so a reader that goes through an outline from left to right
meets whatever is wrong with the text in the order in which it stands there.
-/

namespace RowStream.Json

open Text

/-- One unit of a spelled string: a character, or an escape that gives a UTF-16 code unit. -/
inductive Unit16
  | char (c : Char)
  | escape (code : Nat)
deriving DecidableEq, Repr

/-- The characters of a spelled string. -/
abbrev Spelled := List Unit16

mutual

/-- The outline of a value. -/
inductive Outline
  /-- There is no value here. -/
  | broken
  | null
  | bool (b : Bool)
  | number (spelling : Number.Spelling)
  | string (body : Spelled)
  | array (items : Outline.Items)
  | object (members : Outline.Members)

/-- The outline of the rest of an array, an item being due or the end. -/
inductive Outline.Items
  | broken
  | close
  /-- An item, with its text. -/
  | item (text : List Char) (value : Outline) (rest : Outline.Items)

/-- The outline of the rest of an object, a member being due or the end. -/
inductive Outline.Members
  | broken
  | close
  | member (key : Spelled) (value : Outline) (rest : Outline.Members)

end

namespace Outline

/-! ## 1. Leaves -/

/-- Takes an optional sign and at least one digit. -/
def takeExponent? (s : List Char) : Option (Int × List Char) :=
  let (negative, rest) := match s with
    | '+' :: r => (false, r)
    | '-' :: r => (true, r)
    | r => (false, r)
  match takeDigits rest with
  | ([], _) => none
  | (ds, after) => some (if negative then -(numeral ds : Int) else numeral ds, after)

/-- Takes the digits before the point: one zero, or digits that do not begin with zero. -/
def takeWhole? (s : List Char) : Option (List Nat × List Char) :=
  match takeDigits s with
  | ([], _) => none
  | (0 :: _ :: _, _) => none
  | (ds, after) => some (ds, after)

/-- Takes a number from its first digit on. -/
def takeNumber? (negative : Bool) (s : List Char) : Option (Number.Spelling × List Char) := do
  let (whole, s) ← takeWhole? s
  let (fraction, s) ← match s with
    | '.' :: rest =>
      match takeDigits rest with
      | ([], _) => none
      | (ds, after) => some (ds, after)
    | _ => some ([], s)
  match s with
  | c :: rest =>
    if c = 'e' ∨ c = 'E' then
      let (exponent, after) ← takeExponent? rest
      return (⟨negative, whole, fraction, some exponent⟩, after)
    else return (⟨negative, whole, fraction, none⟩, s)
  | [] => return (⟨negative, whole, fraction, none⟩, [])

/-- The character that a letter after a backslash stands for. -/
def simpleEscape? : Char → Option Char
  | '"' => some '"'
  | '\\' => some '\\'
  | '/' => some '/'
  | 'b' => some '\x08'
  | 'f' => some '\x0c'
  | 'n' => some '\n'
  | 'r' => some '\r'
  | 't' => some '\t'
  | _ => none

/-- The number that four hexadecimal digits denote. -/
def hexCode? (a b c d : Char) : Option Nat := do
  let a ← hexDigit? a
  let b ← hexDigit? b
  let c ← hexDigit? c
  let d ← hexDigit? d
  return ((a * 16 + b) * 16 + c) * 16 + d

/-- Takes a string from after its opening quote to its closing quote. -/
def takeString? : List Char → Option (Spelled × List Char)
  | '"' :: rest => some ([], rest)
  | '\\' :: 'u' :: a :: b :: c :: d :: rest => do
    let code ← hexCode? a b c d
    let (body, after) ← takeString? rest
    return (.escape code :: body, after)
  | '\\' :: e :: rest => do
    let c ← simpleEscape? e
    let (body, after) ← takeString? rest
    return (.char c :: body, after)
  | c :: rest =>
    if c < ' ' ∨ c = '\\' then none
    else do
      let (body, after) ← takeString? rest
      return (.char c :: body, after)
  | [] => none

/-! ## 2. Values -/

/-- The text after its leading white space. -/
def skip (s : List Char) : List Char := s.dropWhile isJsonBlank

/-- The part of a text before a later part of it. -/
def textBefore (s rest : List Char) : List Char := s.take (s.length - rest.length)

mutual

/-- Takes a value off a text; nothing is left of the text when the value is broken off.  The fuel
goes down by one at each value, item and member; twice the length of the text is enough. -/
def takeValue : Nat → List Char → Outline × List Char
  | 0, _ => (.broken, [])
  | fuel + 1, s =>
    match skip s with
    | '[' :: rest =>
      match skip rest with
      | ']' :: after => (.array .close, after)
      | _ => let (items, after) := takeItems fuel rest; (.array items, after)
    | '{' :: rest =>
      match skip rest with
      | '}' :: after => (.object .close, after)
      | _ => let (members, after) := takeMembers fuel rest; (.object members, after)
    | '"' :: rest =>
      match takeString? rest with
      | some (body, after) => (.string body, after)
      | none => (.broken, [])
    | 'n' :: 'u' :: 'l' :: 'l' :: after => (.null, after)
    | 't' :: 'r' :: 'u' :: 'e' :: after => (.bool true, after)
    | 'f' :: 'a' :: 'l' :: 's' :: 'e' :: after => (.bool false, after)
    | '-' :: rest =>
      match takeNumber? true rest with
      | some (spelling, after) => (.number spelling, after)
      | none => (.broken, [])
    | rest =>
      match takeNumber? false rest with
      | some (spelling, after) => (.number spelling, after)
      | none => (.broken, [])

/-- Takes the items of an array from where an item is due to its end. -/
def takeItems : Nat → List Char → Outline.Items × List Char
  | 0, _ => (.broken, [])
  | fuel + 1, s =>
    let (value, after) := takeValue fuel s
    let text := textBefore (skip s) after
    match skip after with
    | ',' :: rest => let (items, after) := takeItems fuel rest; (.item text value items, after)
    | ']' :: after => (.item text value .close, after)
    | _ => (.item text value .broken, [])

/-- Takes the members of an object from where a member is due to its end. -/
def takeMembers : Nat → List Char → Outline.Members × List Char
  | 0, _ => (.broken, [])
  | fuel + 1, s =>
    match skip s with
    | '"' :: rest =>
      match takeString? rest with
      | none => (.broken, [])
      | some (key, after) =>
        match skip after with
        | ':' :: rest =>
          let (value, after) := takeValue fuel rest
          match skip after with
          | ',' :: rest =>
            let (members, after) := takeMembers fuel rest
            (.member key value members, after)
          | '}' :: after => (.member key value .close, after)
          | _ => (.member key value .broken, [])
        | _ => (.member key .broken .broken, [])
    | _ => (.broken, [])

end

/-! ## 3. Whole texts -/

/-- The outline of a text that should be one value. -/
structure Document where
  value : Outline
  /-- Whether nothing but white space follows the value. -/
  ended : Bool

/-- The outline of a text. -/
def ofChars (s : List Char) : Document :=
  let (value, rest) := takeValue (2 * s.length + 1) s
  ⟨value, (skip rest).isEmpty⟩

/-- The outline of a text. -/
def ofText (s : String) : Document := ofChars s.toList

end Outline

/-! ## 4. Complete outlines -/

mutual

/-- Whether an outline is nowhere broken off. -/
def Outline.isComplete : Outline → Bool
  | .broken => false
  | .array items => items.isComplete
  | .object members => members.isComplete
  | _ => true

/-- Whether the rest of an array is nowhere broken off. -/
def Outline.Items.isComplete : Outline.Items → Bool
  | .broken => false
  | .close => true
  | .item _ value rest => value.isComplete && rest.isComplete

/-- Whether the rest of an object is nowhere broken off. -/
def Outline.Members.isComplete : Outline.Members → Bool
  | .broken => false
  | .close => true
  | .member _ value rest => value.isComplete && rest.isComplete

end

end RowStream.Json
