import RowStream.Datum
import RowStream.Decode.IntKind

/-!
# Decode targets

The types that a row can be decoded into, and for each of them the values that a destination of
that type holds.
-/

namespace RowStream

/-- A record with a required number and name, read from the JSON form of a row. -/
structure User where
  id : IntKind.u64.Value
  name : String
  created : Option Time

/-- The type of a destination. -/
inductive Target
  /-- The row itself. -/
  | datum
  /-- The JSON form of the row. -/
  | value
  | bool
  | string
  | int (kind : IntKind)
  /-- A 64-bit binary number. -/
  | double
  /-- A 32-bit binary number. -/
  | single
  /-- A time with its offset. -/
  | time
  /-- A time in universal time. -/
  | universalTime
  | option (t : Target)
  | list (t : Target)
  | map (t : Target)
  /-- A map whose keys have no order of their own; they are listed in increasing order. -/
  | unorderedMap (t : Target)
  | user
  /-- A value read from the JSON form of the row. -/
  | json (t : Target)
deriving DecidableEq, Repr

namespace Target

/-! ## 1. Values -/

/-- What a destination holds. -/
abbrev Slot : Target → Type
  | datum => Datum
  | value => Json
  | bool => Bool
  | string => String
  | int kind => kind.Value
  | double => Double
  | single => Binary.Extended .single
  | time => Time
  | universalTime => Time
  | option t => Option (Slot t)
  | list t => List (Slot t)
  | map t => List (String × Slot t)
  | unorderedMap t => List (String × Slot t)
  | user => User
  | json t => Slot t

/-- What a fresh destination holds. -/
def blank : (t : Target) → t.Slot
  | datum => .null
  | value => .null
  | bool => false
  | string => ""
  | int kind => kind.zero
  | double => (default : Double)
  | single => .finite ⟨false, 0, by decide⟩
  | time => Time.epoch
  | universalTime => Time.epoch
  | option _ => none
  | list _ => []
  | map _ => []
  | unorderedMap _ => []
  | user => ⟨IntKind.u64.zero, "", none⟩
  | json t => blank t

/-! ## 2. Names -/

/-- The target of a name without parameters. -/
def ofSimpleName? (s : String) : Option Target :=
  match s with
  | "datum" => some datum
  | "value" => some value
  | "bool" => some bool
  | "string" => some string
  | "f64" => some double
  | "f32" => some single
  | "time" => some time
  | "utc" => some universalTime
  | "user" => some user
  | s => (IntKind.all.find? fun kind => kind.name == s).map int

/-- The target of a name with a parameter. -/
def ofParametricName? (s : String) : Option (Target → Target) :=
  match s with
  | "option" => some option
  | "vec" => some list
  | "map" => some map
  | "hashmap" => some unorderedMap
  | "json" => some json
  | _ => none

/-- The target of the names of its constructors from the outside in. -/
def ofNames? : List String → Option Target
  | [] => none
  | [name] => ofSimpleName? name
  | name :: names => do
    let build ← ofParametricName? name
    return build (← ofNames? names)

/-- The target of a name such as `vec<option<i64>>`. -/
def ofName? (s : String) : Option Target :=
  ofNames? ((s.toList.splitOn '<').map fun part => String.ofList (part.filter (· != '>')))

end Target
end RowStream
