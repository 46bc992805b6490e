import RowStream.Base64
import RowStream.Json.Basic
import RowStream.Time.Rfc3339

/-!
# Row values

A row value is JSON with two further kinds of leaf, times and byte strings.
-/

namespace RowStream

/-- A row value. -/
inductive Datum
  | null
  | bool (b : Bool)
  | number (n : Number)
  | string (s : String)
  | array (items : List Datum)
  | object (members : List (String × Datum))
  | time (t : Time)
  | binary (bytes : List UInt8)
deriving Inhabited

namespace Datum

/-! ## 1. Kinds -/

/-- The kind of a row value. -/
inductive Kind
  | null | bool | number | string | array | object | time | binary
deriving DecidableEq, Repr

/-- How messages name a kind. -/
def Kind.name : Kind → String
  | null => "null"
  | bool => "bool"
  | number => "number"
  | string => "string"
  | array => "array"
  | object => "object"
  | time => "time"
  | binary => "binary"

/-- The kind of a row value. -/
def kind : Datum → Kind
  | null => .null
  | bool _ => .bool
  | number _ => .number
  | string _ => .string
  | array _ => .array
  | object _ => .object
  | time _ => .time
  | binary _ => .binary

/-- Whether a row value is null. -/
def isNull : Datum → Bool
  | null => true
  | _ => false

/-! ## 2. From and to JSON -/

mutual

/-- A JSON value as it stands. -/
def ofJson : Json → Datum
  | .null => null
  | .bool b => bool b
  | .number n => number n
  | .string s => string s
  | .array items => array (ofJsonItems items)
  | .object members => object (ofJsonMembers members)

/-- JSON values as they stand. -/
def ofJsonItems : List Json → List Datum
  | [] => []
  | item :: items => ofJson item :: ofJsonItems items

/-- Members with JSON values as they stand. -/
def ofJsonMembers : List (String × Json) → List (String × Datum)
  | [] => []
  | (key, value) :: members => (key, ofJson value) :: ofJsonMembers members

end

mutual

/-- A row value as JSON: a time is written as text, a byte string in base64. -/
def toJson : Datum → Json
  | null => .null
  | bool b => .bool b
  | number n => .number n
  | string s => .string s
  | array items => .array (toJsonItems items)
  | object members => .object (toJsonMembers members)
  | time t => .string t.text
  | binary bytes => .string (Base64.encode bytes)

/-- Row values as JSON. -/
def toJsonItems : List Datum → List Json
  | [] => []
  | item :: items => toJson item :: toJsonItems items

/-- Members with row values as JSON. -/
def toJsonMembers : List (String × Datum) → List (String × Json)
  | [] => []
  | (key, value) :: members => (key, toJson value) :: toJsonMembers members

end

/-! ## 3. Comparison -/

mutual

/-- Whether two row values are the same: numbers within one form, times as instants. -/
def same : Datum → Datum → Bool
  | null, null => true
  | bool a, bool b => a == b
  | number a, number b => a.same b
  | string a, string b => a == b
  | array as, array bs => sameItems as bs
  | object as, object bs => sameMembers as bs
  | time a, time b => a.sameInstant b
  | binary a, binary b => a == b
  | _, _ => false

/-- Whether two lists hold the same row values in the same order. -/
def sameItems : List Datum → List Datum → Bool
  | [], [] => true
  | a :: as, b :: bs => same a b && sameItems as bs
  | _, _ => false

/-- Whether two lists hold the same members in the same order. -/
def sameMembers : List (String × Datum) → List (String × Datum) → Bool
  | [], [] => true
  | (k, a) :: as, (l, b) :: bs => k == l && same a b && sameMembers as bs
  | _, _ => false

end

/-! ## 4. Small facts -/

mutual

/-- Taking JSON as it stands loses nothing. -/
theorem toJson_ofJson : ∀ v : Json, (ofJson v).toJson = v
  | .null | .bool _ | .number _ | .string _ => rfl
  | .array items => by simp [ofJson, toJson, toJsonItems_ofJsonItems items]
  | .object members => by simp [ofJson, toJson, toJsonMembers_ofJsonMembers members]

theorem toJsonItems_ofJsonItems : ∀ items : List Json, toJsonItems (ofJsonItems items) = items
  | [] => rfl
  | item :: items => by
    simp [ofJsonItems, toJsonItems, toJson_ofJson item, toJsonItems_ofJsonItems items]

theorem toJsonMembers_ofJsonMembers :
    ∀ members : List (String × Json), toJsonMembers (ofJsonMembers members) = members
  | [] => rfl
  | (key, value) :: members => by
    simp [ofJsonMembers, toJsonMembers, toJson_ofJson value, toJsonMembers_ofJsonMembers members]

end

end Datum
end RowStream
