import RowStream.Error
import RowStream.Json.Tree

/-!
# Replies

A reply of the server to a query: its kind, batches of rows as unread JSON texts, and the profile
of the query if one was asked for.
-/

namespace RowStream

/-- The kind of a reply. -/
inductive Reply.Kind
  | atom
  | sequence
  | partialSequence
  | waitComplete
  | feed
  | clientError
  | compileError
  | runtimeError
deriving DecidableEq, Repr

/-- A reply. -/
structure Reply where
  kind : Reply.Kind
  batches : List String
  profile : Option Json

namespace Reply

/-! ## 1. Kinds -/

namespace Kind

/-- The kind of a number. -/
def ofCode? (n : Int) : Option Kind :=
  if n = 1 then some atom
  else if n = 2 then some sequence
  else if n = 3 then some partialSequence
  else if n = 4 then some waitComplete
  else if n = 5 then some feed
  else if n = 16 then some clientError
  else if n = 17 then some compileError
  else if n = 18 then some runtimeError
  else none

/-- The kind of a number, or the fault of a number that has none. -/
def ofCode (n : Int) : Except Json.Fault Kind :=
  match ofCode? n with
  | some kind => .ok kind
  | none => .error (.unknownReplyKind n)

/-- Whether the server has more rows after a reply of this kind. -/
def hasMore : Kind → Bool
  | partialSequence | feed => true
  | _ => false

/-- What a reply of this kind blames, if it is an error. -/
def fault? : Kind → Option ServerFault
  | clientError => some .client
  | compileError => some .compile
  | runtimeError => some .runtime
  | _ => none

end Kind

/-! ## 2. Reading -/

open Json

/-- The members met so far in an object. -/
structure Seen where
  kind : Option Kind := none
  batches : Option (List String) := none
  profile : Option (Option Json) := none

/-- The texts of the items of an array. -/
def readBatchItems : Outline.Items → Except Fault (List String)
  | .broken => .error .grammar
  | .close => .ok []
  | .item text value rest => do
    value.ignore
    let texts ← readBatchItems rest
    return String.ofList text :: texts

/-- The batches are the items of an array, unread. -/
def readBatches : Outline → Except Fault (List String)
  | .array items => readBatchItems items
  | outline => outline.reject "a sequence"

/-- A null profile is none. -/
def readProfile : Outline → Except Fault (Option Json)
  | .null => .ok none
  | outline => do return some (← ofOutline parse outline (nestingLimit - 1))

/-- The kind is given by its number. -/
def readKind (outline : Outline) : Except Fault Kind := do Kind.ofCode (← outline.readInteger)

/-- Adds the member of a name; unknown members are ignored. -/
def Seen.add (seen : Seen) (name : String) (value : Outline) : Except Fault Seen :=
  if name = "t" then do
    once name seen.kind
    return { seen with kind := some (← readKind value) }
  else if name = "r" then do
    once name seen.batches
    return { seen with batches := some (← readBatches value) }
  else if name = "p" then do
    once name seen.profile
    return { seen with profile := some (← readProfile value) }
  else do
    value.ignore
    return seen

/-- A reply is given by an object, or by an array of its kind, batches and profile; only the kind
is required. -/
def read : Outline → Except Fault Reply
  | .object members => do
    let seen ← members.gather Seen.add {}
    let some kind := seen.kind | throw (.missingField "t")
    return ⟨kind, seen.batches.getD [], seen.profile.getD none⟩
  | .array items => do
    let (kind, items) ← items.next readKind
    let some kind := kind | throw (.invalidLength 0 "struct Response with 3 elements")
    let (batches, items) ← items.next readBatches
    let (profile, items) ← items.next readProfile
    items.finish
    return ⟨kind, batches.getD [], profile.getD none⟩
  | outline => outline.reject "struct Response"

/-- The reply of a JSON text. -/
def parse (text : String) : Except Error Reply :=
  (readText read text).mapError fun fault => .query (.invalidReply fault)

/-! ## 3. Errors carried by replies -/

/-- The error that a reply carries.  Its text is the first batch, if that is a string. -/
def error? (reply : Reply) : Option Error :=
  reply.kind.fault?.map fun fault =>
    .server fault <|
      match reply.batches.head?.map (readText Outline.readString) with
      | some (.ok text) => text
      | _ => "unknown error"

/-- Whether no reply follows this one: it is an error, or the server has no more rows. -/
def isLast (reply : Reply) : Bool := !reply.kind.hasMore

end Reply
end RowStream
