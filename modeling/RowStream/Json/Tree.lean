import RowStream.Json.Fault
import RowStream.Json.Outline

/-!
# Values of JSON texts

The value that an outline denotes, read from left to right up to the first fault: numbers are
evaluated, surrogates paired, of equal keys the last one counts, and nesting is limited.  An
object may stand for a text embedded in it, which is read as JSON in its turn.
-/

namespace RowStream.Json

/-! ## 1. Leaves -/

/-- Whether a code unit opens a surrogate pair. -/
def isHighSurrogate (code : Nat) : Bool := 0xd800 ≤ code && code < 0xdc00

/-- Whether a code unit closes a surrogate pair. -/
def isLowSurrogate (code : Nat) : Bool := 0xdc00 ≤ code && code < 0xe000

/-- The characters of a spelled string: the escaped code units of a character outside the basic
plane come in pairs. -/
def Spelled.chars? : Spelled → Option (List Char)
  | [] => some []
  | .char c :: rest => (Spelled.chars? rest).map (c :: ·)
  | .escape code :: rest =>
    if isHighSurrogate code then
      match rest with
      | .escape low :: rest =>
        if isLowSurrogate low then
          (Spelled.chars? rest).map
            (Char.ofNat (0x10000 + (code - 0xd800) * 0x400 + (low - 0xdc00)) :: ·)
        else none
      | _ => none
    else if isLowSurrogate code then none
    else (Spelled.chars? rest).map (Char.ofNat code :: ·)

/-- The text of a spelled string. -/
def Spelled.read (body : Spelled) : Except Fault String :=
  match Spelled.chars? body with
  | some cs => .ok (String.ofList cs)
  | none => .error .grammar

/-- The number of a spelling. -/
def readNumber (spelling : Number.Spelling) : Except Fault Number :=
  match Number.ofSpelling? spelling with
  | some n => .ok n
  | none => .error .numberOutOfRange

/-! ## 2. Readers of single values -/

/-- What stands where something else was expected. -/
def Outline.found : Outline → Except Fault Found
  | .broken => .error .grammar
  | .null => .ok .null
  | .bool b => .ok (.bool b)
  | .number spelling => do return Found.ofNumber (← readNumber spelling)
  | .string body => do return .string (← Spelled.read body)
  | .array _ => .ok .sequence
  | .object _ => .ok .map

/-- Refuses a value of the wrong kind. -/
def Outline.reject {α : Type} (outline : Outline) (expected : String) : Except Fault α := do
  throw (.invalidType (← outline.found) expected)

/-- A truth value. -/
def Outline.readBool : Outline → Except Fault Bool
  | .bool b => .ok b
  | outline => outline.reject "a boolean"

/-- A text. -/
def Outline.readString : Outline → Except Fault String
  | .string body => Spelled.read body
  | outline => outline.reject "a string"

/-- A text that is to be read as JSON in its turn. -/
def Outline.readEmbedded : Outline → Except Fault String
  | .string body => Spelled.read body
  | outline => outline.reject "raw value"

/-- Nothing. -/
def Outline.readUnit : Outline → Except Fault Unit
  | .null => .ok ()
  | outline => outline.reject "unit"

/-- A signed integer of 64 bits. -/
def Outline.readInteger : Outline → Except Fault Int
  | .number spelling => do
    match ← readNumber spelling with
    | .natural n =>
      if n.val < 0x8000000000000000 then return n.val else throw (.invalidValue n.val "i64")
    | .negative m => return -((m.val : Int) + 1)
    | .binary x => throw (.invalidType (.binary x) "i64")
  | outline => outline.reject "i64"

/-- A value that is looked at no further than its grammar. -/
def Outline.ignore (outline : Outline) : Except Fault Unit :=
  if outline.isComplete then .ok () else .error .grammar

/-! ## 3. Trees -/

/-- How many arrays and objects may stand inside one another. -/
def nestingLimit : Nat := 127

/-- The key of an embedded text.  An object that begins with it has no other member, and stands
for the value of the text under it. -/
def embeddedKey : String := "$serde_json::private::RawValue"

/-- The end of an object. -/
def Outline.Members.finish : Outline.Members → Except Fault Unit
  | .close => .ok ()
  | _ => .error .grammar

mutual

/-- The value of an outline in which arrays and objects may be nested to a depth, given how an
embedded text is read. -/
def ofOutline (embedded : String → Except Fault Json) : Outline → Nat → Except Fault Json
  | .broken, _ => .error .grammar
  | .null, _ => .ok .null
  | .bool b, _ => .ok (.bool b)
  | .number spelling, _ => do return .number (← readNumber spelling)
  | .string body, _ => do return .string (← Spelled.read body)
  | .array _, 0 => .error .tooDeep
  | .array items, depth + 1 => do return .array (← ofItems embedded items depth)
  | .object _, 0 => .error .tooDeep
  | .object members, depth + 1 => ofObject embedded members depth

/-- The values of the rest of an array. -/
def ofItems (embedded : String → Except Fault Json) :
    Outline.Items → Nat → Except Fault (List Json)
  | .broken, _ => .error .grammar
  | .close, _ => .ok []
  | .item _ value rest, depth => do
    let value ← ofOutline embedded value depth
    let values ← ofItems embedded rest depth
    return value :: values

/-- The value of an object: of its embedded text if it begins with one. -/
def ofObject (embedded : String → Except Fault Json) : Outline.Members → Nat → Except Fault Json
  | .broken, _ => .error .grammar
  | .close, _ => .ok (.object [])
  | .member key value rest, depth => do
    let key ← Spelled.read key
    if key = embeddedKey then
      let value ← embedded (← value.readEmbedded)
      rest.finish
      return value
    else
      let value ← ofOutline embedded value depth
      let members ← ofMembers embedded rest depth
      return .object (Members.ofList ((key, value) :: members))

/-- The keys and values of the rest of an object, as they stand. -/
def ofMembers (embedded : String → Except Fault Json) :
    Outline.Members → Nat → Except Fault (List (String × Json))
  | .broken, _ => .error .grammar
  | .close, _ => .ok []
  | .member key value rest, depth => do
    let key ← Spelled.read key
    let value ← ofOutline embedded value depth
    let members ← ofMembers embedded rest depth
    return (key, value) :: members

end

/-! ## 4. Texts -/

/-- What a reader of outlines makes of a whole text, after which nothing but white space may
follow. -/
def readText {α : Type} (read : Outline → Except Fault α) (text : String) : Except Fault α := do
  let document := Outline.ofText text
  let result ← read document.value
  if document.ended then return result else throw .grammar

/-- The value of a text in which texts are embedded in one another to less than a depth. -/
def parseWithin : Nat → String → Except Fault Json
  | 0, _ => .error .grammar
  | depth + 1, text =>
    readText (fun outline => ofOutline (parseWithin depth) outline nestingLimit) text

/-- The value of a text.  An embedded text is shorter than the text that it stands in, so the
length of a text bounds how deep texts are embedded in it. -/
def parse (text : String) : Except Fault Json := parseWithin text.length text

/-- The members of an object. -/
def Outline.readObject : Outline → Except Fault (List (String × Json))
  | .object members => do return Members.ofList (← ofMembers parse members (nestingLimit - 1))
  | outline => outline.reject "a map"

/-! ## 5. Records -/

/-- Refuses a member that was met before. -/
def once {α : Type} (name : String) (met : Option α) : Except Fault Unit :=
  if met.isSome then .error (.duplicateField name) else .ok ()

/-- Adds the members of the rest of an object, one by one, to what was met before them. -/
def Outline.Members.gather {σ : Type} (add : σ → String → Outline → Except Fault σ) (met : σ) :
    Outline.Members → Except Fault σ
  | .broken => .error .grammar
  | .close => .ok met
  | .member key value rest => do
    let met ← add met (← Spelled.read key) value
    gather add met rest

/-- The next field of a record written as an array, if the array has not ended. -/
def Outline.Items.next {α : Type} (read : Outline → Except Fault α) :
    Outline.Items → Except Fault (Option α × Outline.Items)
  | .broken => .error .grammar
  | .close => .ok (none, .close)
  | .item _ value rest => do return (some (← read value), rest)

/-- The end of a record written as an array. -/
def Outline.Items.finish : Outline.Items → Except Fault Unit
  | .close => .ok ()
  | _ => .error .grammar

end RowStream.Json
