import RowStream.Decode.Target
import RowStream.Json.Tree

/-!
# Values from JSON

How a value of a target is read from JSON.  A null is nothing for an option only; an integer form
is required of an integer; maps are read in key order.  Texts embedded in a value are read only
when a JSON value is wanted.
-/

namespace RowStream

open Json (Fault Found)

namespace Json

/-- What a value is where something else was expected. -/
def found : Json → Found
  | null => .null
  | bool b => .bool b
  | number n => Found.ofNumber n
  | string s => .string s
  | array _ => .sequence
  | object _ => .map

/-- Refuses a value of the wrong kind. -/
def reject {α : Type} (v : Json) (expected : String) : Except Fault α :=
  .error (.invalidType v.found expected)

/-- A truth value. -/
def readBool : Json → Except Fault Bool
  | bool b => .ok b
  | v => v.reject "a boolean"

/-- A text. -/
def readString : Json → Except Fault String
  | string s => .ok s
  | v => v.reject "a string"

/-- A text that is to be read as JSON in its turn. -/
def readEmbedded : Json → Except Fault String
  | string s => .ok s
  | v => v.reject "raw value"

/-- An integer of a type. -/
def readInt (kind : IntKind) : Json → Except Fault kind.Value
  | number (.binary x) => .error (.invalidType (.binary x) kind.name)
  | number n =>
    let i := n.integer?.getD 0
    match kind.value? i with
    | some value => .ok value
    | none => .error (.invalidValue i kind.name)
  | v => v.reject kind.name

/-- A 64-bit binary number. -/
def readDouble : Json → Except Fault Double
  | number n => .ok n.toDouble
  | v => v.reject "f64"

/-- A 32-bit binary number. -/
def readSingle : Json → Except Fault (Binary.Extended .single)
  | number n => .ok (n.toBinary .single)
  | v => v.reject "f32"

/-- A time. -/
def readTime : Json → Except Fault Time
  | string s => (Time.ofText s).mapError .time
  | v => v.reject "an RFC 3339 formatted date and time string"

/-- An optional value. -/
def readOption {α : Type} (read : Json → Except Fault α) : Json → Except Fault (Option α)
  | null => .ok none
  | v => do return some (← read v)

mutual

/-- A value.  An object whose least key is that of an embedded text stands for the value of that
text and has no other member. -/
def readValue : Json → Except Fault Json
  | array items => do return array (← readValues items)
  | object [] => .ok (object [])
  | object ((key, v) :: members) =>
    if key = embeddedKey then do
      let value ← parse (← v.readEmbedded)
      if members.isEmpty then return value
      else throw (.invalidLength (members.length + 1) "fewer elements in map")
    else do
      let value ← readValue v
      let values ← readMembers members
      return object ((key, value) :: values)
  | v => .ok v

/-- The values of items. -/
def readValues : List Json → Except Fault (List Json)
  | [] => .ok []
  | item :: items => do
    let value ← readValue item
    let values ← readValues items
    return value :: values

/-- The keys of members with the values of what is under them. -/
def readMembers : List (String × Json) → Except Fault (List (String × Json))
  | [] => .ok []
  | (key, v) :: members => do
    let value ← readValue v
    let values ← readMembers members
    return (key, value) :: values

end

/-- The values of an array. -/
def readList {α : Type} (read : Json → Except Fault α) : Json → Except Fault (List α)
  | array items => items.mapM read
  | v => v.reject "a sequence"

/-- The keys and values of an object. -/
def readMap {α : Type} (read : Json → Except Fault α) :
    Json → Except Fault (List (String × α))
  | object members => members.mapM fun (key, v) => do return (key, ← read v)
  | v => v.reject "a map"

/-! ## Users -/

/-- The members of a user met so far. -/
structure SeenUser where
  id : Option IntKind.u64.Value := none
  name : Option String := none
  created : Option (Option Time) := none

/-- Adds the member of a name; unknown members are ignored. -/
def SeenUser.add (seen : SeenUser) (name : String) (v : Json) : Except Fault SeenUser :=
  if name = "id" then do return { seen with id := some (← v.readInt .u64) }
  else if name = "name" then do return { seen with name := some (← v.readString) }
  else if name = "created" then do return { seen with created := some (← readOption readTime v) }
  else .ok seen

/-- A user is given by an object, or by an array of its number, name and time of creation. -/
def readUser : Json → Except Fault User
  | object members => do
    let seen ← members.foldlM (fun seen member => seen.add member.1 member.2) ({} : SeenUser)
    let some id := seen.id | throw (.missingField "id")
    let some name := seen.name | throw (.missingField "name")
    return ⟨id, name, seen.created.getD none⟩
  | array items => do
    let short (n : Nat) : Fault := .invalidLength n "struct User with 3 elements"
    let idItem :: items := items | throw (short 0)
    let id ← idItem.readInt .u64
    let nameItem :: items := items | throw (short 1)
    let name ← nameItem.readString
    let createdItem :: items := items | throw (short 2)
    let created ← readOption readTime createdItem
    if items.isEmpty then return ⟨id, name, created⟩
    else throw (.invalidLength (items.length + 3) "fewer elements in array")
  | v => v.reject "struct User"

end Json

/-! ## All targets -/

/-- The value of a target that JSON denotes. -/
def Target.read : (t : Target) → Json → Except Fault t.Slot
  | datum, v => .ok (Datum.ofJson v)
  | value, v => v.readValue
  | bool, v => v.readBool
  | string, v => v.readString
  | int kind, v => v.readInt kind
  | double, v => v.readDouble
  | single, v => v.readSingle
  | time, v => v.readTime
  | universalTime, v => v.readTime.map Time.toUniversal
  | option t, v => Json.readOption t.read v
  | list t, v => Json.readList t.read v
  | map t, v => Json.readMap t.read v
  | unorderedMap t, v => Json.readMap t.read v
  | user, v => v.readUser
  | json t, v => t.read v

end RowStream
