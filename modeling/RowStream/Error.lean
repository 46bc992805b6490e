import RowStream.Datum
import RowStream.Decode.IntKind
import RowStream.Json.Fault

/-!
# Errors

Everything that can go wrong with a cursor, by cause; the wording of each cause is given once.
-/

namespace RowStream

/-- Which side of the server an error reply blames. -/
inductive ServerFault
  | client
  | compile
  | runtime
deriving DecidableEq, Repr

/-- The name of a server fault. -/
def ServerFault.name : ServerFault → String
  | client => "client"
  | compile => "compile"
  | runtime => "runtime"

/-- Why a batch does not become rows, or a row not a value. -/
inductive DecodeError
  /-- A text or value is not the JSON that was wanted. -/
  | json (fault : Json.Fault)
  /-- A row is of a kind that the destination does not take. -/
  | mismatch (found : Datum.Kind) (wanted : String)
  /-- A number is no value of an integer type. -/
  | doesNotFit (n : Number) (kind : IntKind)
  /-- A tagged object lacks a member, or has one of the wrong kind. -/
  | missingMember (tag member : String)
  | invalidTimezone (text : String)
  | timeOutOfRange (epoch : Double)
  | invalidBase64 (fault : Base64.Fault)
  | groupNotPair
  /-- The connection's own account. -/
  | reported (text : String)
deriving DecidableEq

/-- Why a query failed. -/
inductive QueryError
  /-- A reply could not be read. -/
  | invalidReply (fault : Json.Fault)
  /-- The connection's own account. -/
  | reported (text : String)
deriving DecidableEq

/-- Why options are refused. -/
inductive ConfigError
  | invalidOptions (fault : Json.Fault)
  /-- The connection's own account. -/
  | reported (text : String)
deriving DecidableEq

/-- Why a connection failed. -/
inductive ConnectionError
  /-- A fetch in the background ended without an outcome, by the runtime's account. -/
  | fetchAborted (text : String)
  /-- The connection's own account. -/
  | reported (text : String)
deriving DecidableEq

/-- What a cursor can fail with. -/
inductive Error
  | closed
  | emptyResult
  | connection (cause : ConnectionError)
  | query (cause : QueryError)
  | server (fault : ServerFault) (text : String)
  | decode (cause : DecodeError)
  | config (cause : ConfigError)
deriving DecidableEq

/-! ## Wording -/

/-- The text of a decode error. -/
def DecodeError.message : DecodeError → String
  | json fault => fault.message
  | mismatch found wanted => "cannot decode " ++ found.name ++ " into " ++ wanted
  | doesNotFit n kind => "number " ++ n.text ++ " does not fit in " ++ kind.name
  | missingMember tag member =>
    "pseudo-type " ++ tag ++ " object missing expected field '" ++ member ++ "'"
  | invalidTimezone text => "Invalid timezone: " ++ text
  | timeOutOfRange epoch => "Time out of range: " ++ String.ofList (epoch.chars .plain)
  | invalidBase64 fault => "Invalid base64: " ++ fault.message
  | groupNotPair => "GROUPED_DATA entry is not a pair"
  | reported text => text

/-- The text of a query error. -/
def QueryError.message : QueryError → String
  | invalidReply fault => "Invalid reply: " ++ fault.message
  | reported text => text

/-- The text of a configuration error. -/
def ConfigError.message : ConfigError → String
  | invalidOptions fault => "Invalid query options JSON: " ++ fault.message
  | reported text => text

/-- The text of a connection error. -/
def ConnectionError.message : ConnectionError → String
  | fetchAborted text => "background fetch aborted: " ++ text
  | reported text => text

/-- The text of an error. -/
def Error.message : Error → String
  | closed => "connection closed, cannot read cursor"
  | emptyResult => "empty result"
  | connection cause => "Connection error: " ++ cause.message
  | query cause => "Query error: " ++ cause.message
  | server fault text => "Server " ++ fault.name ++ " error: " ++ text
  | decode cause => "Decode error: " ++ cause.message
  | config cause => "Config error: " ++ cause.message

end RowStream
