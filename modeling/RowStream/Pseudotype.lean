import RowStream.Options
import RowStream.Time.Zone

/-!
# Tagged objects

The server sends times, byte strings and groups as objects tagged with their type.  Normalization
turns every tagged object whose type is presented natively into the value that it stands for, and
fails at the first malformed one in document order.
-/

namespace RowStream.Pseudotype

/-! ## 1. Tags -/

/-- The key under which an object names its type. -/
def tagKey : String := "$reql_type$"

/-- The types that a tag can name. -/
inductive Tag
  | time
  | binary
  | group
deriving DecidableEq, Repr

namespace Tag

/-- The name of a type. -/
def name : Tag → String
  | time => "TIME"
  | binary => "BINARY"
  | group => "GROUPED_DATA"

/-- The type of a name. -/
def ofName? (s : String) : Option Tag :=
  if s = "TIME" then some time
  else if s = "BINARY" then some binary
  else if s = "GROUPED_DATA" then some group
  else none

/-- How the options present a type. -/
def presentation (options : Options) : Tag → Presentation
  | time => options.time
  | binary => options.binary
  | group => options.group

end Tag

/-- The type that the members of an object name. -/
def tag? (members : List (String × Json)) : Option Tag := do
  let value ← Members.get? tagKey members
  Tag.ofName? (← value.asString?)

/-- The type that the members of an object name, if it is presented natively. -/
def nativeTag? (options : Options) (members : List (String × Json)) : Option Tag :=
  (tag? members).filter fun tag => tag.presentation options == .native

/-! ## 2. Leaves -/

/-- A number of seconds in milliseconds, the product rounded as a binary number and then to the
nearest integer, a half away from zero. -/
def millis? (epoch : Double) : Option Int :=
  let F := Binary.Format.double
  let position := F.product epoch.position (F.nearest 1000 1)
  if position < F.infinity then
    let magnitude : Int := Binary.roundHalfUp (F.units position) F.one
    some (if epoch.negative then -magnitude else magnitude)
  else none

/-- The time that the members of an object give. -/
def time (members : List (String × Json)) : Except DecodeError Datum := do
  let some epoch := (Members.get? "epoch_time" members).bind Json.asDouble?
    | throw (.missingMember Tag.time.name "epoch_time")
  let some zone := (Members.get? "timezone" members).bind Json.asString?
    | throw (.missingMember Tag.time.name "timezone")
  let some offset := Time.Zone.offset? zone.toList | throw (.invalidTimezone zone)
  let some t := (millis? epoch).bind fun millis => Time.ofMillis? millis offset
    | throw (.timeOutOfRange epoch)
  return .time t

/-- The byte string that the members of an object give. -/
def binary (members : List (String × Json)) : Except DecodeError Datum := do
  let some data := (Members.get? "data" members).bind Json.asString?
    | throw (.missingMember Tag.binary.name "data")
  match Base64.decode data with
  | .ok bytes => return .binary bytes
  | .error fault => throw (.invalidBase64 fault)

/-- A group and its reduction as an object. -/
def entry (group reduction : Datum) : Datum :=
  .object [("group", group), ("reduction", reduction)]

/-! ## 3. Trees -/

mutual

/-- The row value of a JSON value. -/
def normalize (options : Options) : Json → Except DecodeError Datum
  | .null => .ok .null
  | .bool b => .ok (.bool b)
  | .number n => .ok (.number n)
  | .string s => .ok (.string s)
  | .array items => do return .array (← normalizeItems options items)
  | .object members =>
    match nativeTag? options members with
    | some .time => time members
    | some .binary => binary members
    | some .group => groups options members
    | none => do return .object (← normalizeMembers options members)

/-- The row values of the items of an array. -/
def normalizeItems (options : Options) : List Json → Except DecodeError (List Datum)
  | [] => .ok []
  | item :: items => do
    let datum ← normalize options item
    let data ← normalizeItems options items
    return datum :: data

/-- The members of an object with the row values of its values. -/
def normalizeMembers (options : Options) :
    List (String × Json) → Except DecodeError (List (String × Datum))
  | [] => .ok []
  | (key, value) :: members => do
    let datum ← normalize options value
    let data ← normalizeMembers options members
    return (key, datum) :: data

/-- The groups listed under the data member of an object. -/
def groups (options : Options) : List (String × Json) → Except DecodeError Datum
  | [] => .error (.missingMember Tag.group.name "data")
  | (key, value) :: members =>
    if key = "data" then groupsOf options value else groups options members

/-- The groups that a data member lists. -/
def groupsOf (options : Options) : Json → Except DecodeError Datum
  | .array pairs => do return .array (← entries options pairs)
  | _ => .error (.missingMember Tag.group.name "data")

/-- The entries of pairs of a group and a reduction. -/
def entries (options : Options) : List Json → Except DecodeError (List Datum)
  | [] => .ok []
  | pair :: pairs => do
    let datum ← entryOf options pair
    let data ← entries options pairs
    return datum :: data

/-- The entry of one pair. -/
def entryOf (options : Options) : Json → Except DecodeError Datum
  | .array [group, reduction] => do
    let group ← normalize options group
    let reduction ← normalize options reduction
    return entry group reduction
  | _ => .error .groupNotPair

end

end RowStream.Pseudotype
