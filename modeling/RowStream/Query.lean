import RowStream.Json.Basic

/-!
# Queries

A query to the server, and the JSON value that it is sent as.
-/

namespace RowStream

/-- The kind of a query. -/
inductive Query.Kind
  | start
  | more
  | stop
  | noreplyWait
deriving DecidableEq, Repr

/-- A query about the rows of a token. -/
structure Query where
  kind : Query.Kind
  token : Int
  term : Option Json := none
  options : Option (List (String × Json)) := none

namespace Query

/-- The number of a kind. -/
def Kind.code : Kind → Nat
  | start => 1
  | more => 2
  | stop => 3
  | noreplyWait => 4

/-- A natural number of one digit as JSON. -/
def Kind.toJson (kind : Kind) : Json :=
  .number (.natural (Fin.ofNat UInt64.size kind.code))

/-- The body of a query: its kind alone, or with a term also the term and the options. -/
def body (query : Query) : Json :=
  .array <| query.kind.toJson ::
    match query.term with
    | some term => [term, .object (query.options.getD [])]
    | none => []

/-- Asks for the next batches of a token. -/
def more (token : Int) : Query := { kind := .more, token }

/-- Drops the rows of a token. -/
def stop (token : Int) : Query := { kind := .stop, token }

end Query
end RowStream
