import RowStream.Decode.FromJson
import RowStream.Error

/-!
# Decoding rows into destinations

A destination is overwritten by row after row.  A null row resets it, unless it holds a time.
When a row does not fit, what is left in the destination depends on its type: scalars and
unordered maps are left as they were, an option is left empty, and a list or ordered map is left
with what was decoded before the failure.
-/

namespace RowStream

/-- The outcome of decoding into a destination, with what the destination then holds. -/
inductive Filled (α : Type)
  | done (value : α)
  | failed (error : DecodeError) (left : α)

namespace Filled

variable {α β : Type}

/-- What the destination holds afterwards. -/
def content : Filled α → α
  | done value => value
  | failed _ left => left

/-- The error, if decoding failed. -/
def error? : Filled α → Option DecodeError
  | done _ => none
  | failed error _ => some error

/-- An outcome that leaves the destination as it was on failure. -/
def ofExcept (old : α) : Except DecodeError α → Filled α
  | .ok value => done value
  | .error error => failed error old

/-- The values of items, each decoded afresh, up to the first failure. -/
def all (decode : β → Filled α) : List β → Filled (List α)
  | [] => done []
  | item :: items =>
    match decode item with
    | failed error _ => failed error []
    | done value =>
      match all decode items with
      | done values => done (value :: values)
      | failed error values => failed error (value :: values)

/-- The values of members, each decoded afresh, up to the first failure. -/
def allMembers (decode : β → Filled α) : List (String × β) → Filled (List (String × α))
  | [] => done []
  | (key, item) :: members =>
    match decode item with
    | failed error _ => failed error []
    | done value =>
      match allMembers decode members with
      | done values => done ((key, value) :: values)
      | failed error values => failed error ((key, value) :: values)

end Filled

/-- Refuses a row of the wrong kind. -/
def Datum.mismatch {α : Type} (d : Datum) (wanted : String) : Except DecodeError α :=
  .error (.mismatch d.kind wanted)

/-! ## 1. Scalars -/

namespace Datum

/-- A truth value; null is false. -/
def toBool : Datum → Except DecodeError Bool
  | null => .ok false
  | bool b => .ok b
  | d => d.mismatch "bool"

/-- A text; null is empty. -/
def toText : Datum → Except DecodeError String
  | null => .ok ""
  | string s => .ok s
  | d => d.mismatch "string"

/-- An integer of a type, whatever the form of the number; null is zero. -/
def toInt (kind : IntKind) : Datum → Except DecodeError kind.Value
  | null => .ok kind.zero
  | number n =>
    match n.wide?.bind kind.value? with
    | some value => .ok value
    | none => .error (.doesNotFit n kind)
  | d => d.mismatch kind.name

/-- A 64-bit binary number; null is zero. -/
def toDouble : Datum → Except DecodeError Double
  | null => .ok default
  | number n => .ok n.toDouble
  | d => d.mismatch "f64"

/-- A time; null is none. -/
def toTime : Datum → Except DecodeError Time
  | time t => .ok t
  | d => d.mismatch "time"

end Datum

/-! ## 2. Options, lists and maps -/

namespace Filled

variable {α : Type}

/-- Decodes into an option of what `decode` decodes into. -/
def option (blank : α) (decode : α → Datum → Filled α) (old : Option α) :
    Datum → Filled (Option α)
  | .null => done none
  | d =>
    -- The old content is taken out first, so a failure leaves nothing behind.
    match decode (old.getD blank) d with
    | done x => done (some x)
    | failed error _ => failed error none

/-- Decodes into a list. -/
def list (blank : α) (decode : α → Datum → Filled α) (old : List α) : Datum → Filled (List α)
  | .null => done []
  | .array items => all (decode blank) items
  | d => ofExcept old (d.mismatch "sequence")

/-- Decodes into a map with ordered keys. -/
def map (blank : α) (decode : α → Datum → Filled α) (old : List (String × α)) :
    Datum → Filled (List (String × α))
  | .null => done []
  | .object members => allMembers (decode blank) members
  | d => ofExcept old (d.mismatch "map")

/-- Decodes into a map without ordered keys, by way of one that has them. -/
def unorderedMap (blank : α) (decode : α → Datum → Filled α) (old : List (String × α))
    (d : Datum) : Filled (List (String × α)) :=
  match map blank decode [] d with
  | done members => done members
  | failed error _ => failed error old

/-- Reads the JSON form of a row. -/
def json (read : Json → Except DecodeError α) (old : α) (d : Datum) : Filled α :=
  ofExcept old (read d.toJson)

end Filled

/-! ## 3. All targets -/

/-- Decodes a row into a destination. -/
def Target.decode : (t : Target) → t.Slot → Datum → Filled t.Slot
  | datum, _, d => .done d
  | value, _, d => .done d.toJson
  | bool, old, d => .ofExcept old d.toBool
  | string, old, d => .ofExcept old d.toText
  | int kind, old, d => .ofExcept old (d.toInt kind)
  | double, old, d => .ofExcept old d.toDouble
  | single, old, d => .ofExcept old (d.toDouble.map (Binary.convert .single))
  | time, old, d => .ofExcept old d.toTime
  | universalTime, old, d => .ofExcept old (d.toTime.map Time.toUniversal)
  | option t, old, d => .option t.blank t.decode old d
  | list t, old, d => .list t.blank t.decode old d
  | map t, old, d => .map t.blank t.decode old d
  | unorderedMap t, old, d => .unorderedMap t.blank t.decode old d
  | user, old, d => .json (fun v => v.readUser.mapError .json) old d
  | json t, old, d => .json (fun v => (t.read v).mapError .json) old d

/-! ## 4. Destinations -/

/-- A destination of some type. -/
structure Destination where
  target : Target
  slot : target.Slot

namespace Destination

/-- A fresh destination. -/
def fresh (t : Target) : Destination := ⟨t, t.blank⟩

instance : Inhabited Destination := ⟨fresh .datum⟩

/-- Decodes a row, giving the error if it fails and the destination as it then is. -/
def fill (dest : Destination) (d : Datum) : Option DecodeError × Destination :=
  let outcome := dest.target.decode dest.slot d
  (outcome.error?, ⟨dest.target, outcome.content⟩)

/-- The values of fresh destinations, with the values last stored in place of them. -/
def stored (t : Target) : List Destination → t.Slot
  | [] => t.blank
  | dest :: rest => if h : dest.target = t then h ▸ dest.slot else stored t rest

/-- Stores a destination in place of an earlier one of its type. -/
def store (dest : Destination) (stored : List Destination) : List Destination :=
  dest :: stored.filter fun other => other.target ≠ dest.target

end Destination
end RowStream
