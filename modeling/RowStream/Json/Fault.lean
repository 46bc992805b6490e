import RowStream.Json.Number
import RowStream.Text.Quoted
import RowStream.Time.Rfc3339

/-!
# Faults of JSON texts

Why a JSON text, or a JSON value, does not give what was wanted of it.
-/

namespace RowStream.Json

/-- What stands where something else was expected. -/
inductive Found
  | null
  | bool (b : Bool)
  | integer (n : Int)
  | binary (x : Double)
  | string (s : String)
  | sequence
  | map
deriving DecidableEq

/-- How messages describe what was found. -/
def Found.description : Found → String
  | null => "null"
  | bool b => "boolean `" ++ (if b then "true" else "false") ++ "`"
  | integer n => "integer `" ++ String.ofList (Decimal.intChars n) ++ "`"
  | binary x => "floating point `" ++ String.ofList (x.chars .document) ++ "`"
  | string s => "string " ++ Text.quoted s
  | sequence => "sequence"
  | map => "map"

/-- The description of a number: by its value, and by its form if it is not an integer form. -/
def Found.ofNumber : Number → Found
  | .natural n => integer n.val
  | .negative m => integer (-((m.val : Int) + 1))
  | .binary x => binary x

/-- Why a text or value is refused. -/
inductive Fault
  /-- The text is not JSON. -/
  | grammar
  /-- A number is spelled whose magnitude no finite binary number has. -/
  | numberOutOfRange
  /-- Arrays and objects are nested too deep. -/
  | tooDeep
  /-- A required member is absent. -/
  | missingField (name : String)
  /-- A known member occurs twice. -/
  | duplicateField (name : String)
  /-- A value is of the wrong kind. -/
  | invalidType (found : Found) (expected : String)
  /-- An integer is out of range. -/
  | invalidValue (n : Int) (expected : String)
  /-- An array has the wrong number of items. -/
  | invalidLength (n : Nat) (expected : String)
  /-- A name is none of the known ones. -/
  | unknownVariant (name : String) (known : List String)
  /-- A number denotes no kind of reply. -/
  | unknownReplyKind (n : Int)
  /-- A text is not a time. -/
  | time (fault : Time.Fault)
deriving DecidableEq

/-- The text of a fault. -/
def Fault.message : Fault → String
  | grammar => "invalid JSON"
  | numberOutOfRange => "number out of range"
  | tooDeep => "recursion limit exceeded"
  | missingField name => "missing field `" ++ name ++ "`"
  | duplicateField name => "duplicate field `" ++ name ++ "`"
  | invalidType found expected => "invalid type: " ++ found.description ++ ", expected " ++ expected
  | invalidValue n expected =>
    "invalid value: integer `" ++ String.ofList (Decimal.intChars n) ++ "`, expected " ++ expected
  | invalidLength n expected => "invalid length " ++ Nat.repr n ++ ", expected " ++ expected
  | unknownVariant name known =>
    "unknown variant `" ++ name ++ "`, expected " ++
      " or ".intercalate (known.map fun k => "`" ++ k ++ "`")
  | unknownReplyKind n => "Unknown response type: " ++ String.ofList (Decimal.intChars n)
  | time fault => fault.message

end RowStream.Json
