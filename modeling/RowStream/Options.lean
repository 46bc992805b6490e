import RowStream.Error
import RowStream.Json.Tree

/-!
# Options

The options of a query that matter to its cursor: how each tagged kind of value is presented, and
whether the next batch is fetched ahead.
-/

namespace RowStream

/-- How a tagged object is presented. -/
inductive Presentation
  /-- As the value that it stands for. -/
  | native
  /-- As the object that it is. -/
  | raw
deriving DecidableEq, Repr

/-- The options of a query. -/
structure Options where
  time : Presentation := .native
  binary : Presentation := .native
  group : Presentation := .native
  prefetch : Bool := true
deriving DecidableEq, Repr

namespace Presentation

/-- The name of a presentation. -/
def name : Presentation → String
  | native => "native"
  | raw => "raw"

open Json

/-- The presentation of a name. -/
def ofName (name : String) : Except Fault Presentation :=
  if name = "native" then .ok .native
  else if name = "raw" then .ok .raw
  else .error (.unknownVariant name ["native", "raw"])

/-- A presentation is given by its name, or by an object with null under its name. -/
def read : Outline → Except Fault Presentation
  | .string body => do ofName (← Spelled.read body)
  | .object (.member key value rest) => do
    let presentation ← ofName (← Spelled.read key)
    value.readUnit
    match rest with
    | .close => return presentation
    | _ => throw .grammar
  | _ => .error .grammar

end Presentation

namespace Options

open Json

/-- The options met so far in an object. -/
structure Seen where
  time : Option Presentation := none
  binary : Option Presentation := none
  group : Option Presentation := none
  prefetch : Option Bool := none

/-- The options with defaults for those not met. -/
def Seen.complete (seen : Seen) : Options where
  time := seen.time.getD .native
  binary := seen.binary.getD .native
  group := seen.group.getD .native
  prefetch := seen.prefetch.getD true

/-- Adds the member of a name; unknown members are ignored. -/
def Seen.add (seen : Seen) (name : String) (value : Outline) : Except Fault Seen :=
  if name = "time_format" then do
    once name seen.time
    return { seen with time := some (← Presentation.read value) }
  else if name = "binary_format" then do
    once name seen.binary
    return { seen with binary := some (← Presentation.read value) }
  else if name = "group_format" then do
    once name seen.group
    return { seen with group := some (← Presentation.read value) }
  else if name = "prefetch" then do
    once name seen.prefetch
    return { seen with prefetch := some (← value.readBool) }
  else do
    value.ignore
    return seen

/-- Options are given by an object, or by an array of leading options in their order. -/
def read : Outline → Except Fault Options
  | .object members => do return (← members.gather Seen.add {}).complete
  | .array items => do
    let (time, items) ← items.next Presentation.read
    let (binary, items) ← items.next Presentation.read
    let (group, items) ← items.next Presentation.read
    let (prefetch, items) ← items.next Outline.readBool
    items.finish
    return Seen.complete { time, binary, group, prefetch }
  | outline => outline.reject "struct QueryOpts"

/-- The options of a JSON text. -/
def parse (text : String) : Except Error Options :=
  (readText read text).mapError fun fault => .config (.invalidOptions fault)

end Options
end RowStream
