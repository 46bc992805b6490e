import RowStream.Json.Text
import RowStream.Options
import RowStream.Query
import RowStream.Queue
import RowStream.Reply

/-!
# Cursors

A cursor hands out the rows of a query one by one.  Batches of rows queue up as unread texts; one
batch at a time is read into rows, and the rows queue up in turn until they are asked for.

This module holds the state that the caller's operations and the fetches in the background share,
and the changes to it that each happen in one uninterrupted step.
-/

namespace RowStream

/-- What is fixed when a cursor is opened. -/
structure Setup where
  token : Int
  term : Option Json := none
  options : Options := {}
  /-- What the runtime says of a fetch in the background that a breakdown has ended.  One cursor
  shows one such text at most, as it keeps its first error only. -/
  breakdown : String := "task panicked"
  /-- The row value of a JSON value, such as the one that its tagged objects stand for. -/
  normalize : Json → Except Error Datum

/-- The state of a cursor. -/
structure Cursor where
  /-- The first error met. -/
  error? : Option Error := none
  /-- Whether the caller has had enough; the connection is out of reach from then on. -/
  closed : Bool := false
  /-- Whether the server has no more rows. -/
  finished : Bool := false
  /-- The gate of the fetches: held by the one that may ask the server for more. -/
  fetching : Bool := false
  /-- Rows ready to be handed out. -/
  rows : Queue Datum := .empty
  /-- Texts of batches that have not been read. -/
  batches : Queue String := .empty
  /-- The profile that came with a reply. -/
  profile : Option Json := none
  /-- Whether somebody is still to be told when the cursor closes. -/
  release : Bool := false

/-! ## 1. What happens besides changes of state -/

/-- The lines of the debug log. -/
inductive LogLine
  | enabled
  | opened
  | requesting
  | continueFailed (e : Error)
  | backgroundFailed (e : Error)
  | failed (e : Error)
  | closed
  | stopFailed (e : Error)

/-- The text of a line about the cursor of a token. -/
def LogLine.text (token : Int) (line : LogLine) : String :=
  let cursor := "Cursor " ++ String.ofList (Decimal.intChars token)
  match line with
  | enabled => "Debug mode enabled"
  | opened => cursor ++ " opened"
  | requesting => cursor ++ ": requesting next batch"
  | continueFailed e => cursor ++ ": continue failed: " ++ e.message
  | backgroundFailed e => cursor ++ ": background fetch failed: " ++ e.message
  | failed e => cursor ++ " failed: " ++ e.message
  | closed => cursor ++ " closed"
  | stopFailed e => cursor ++ " closed, stop failed: " ++ e.message

/-- What a step does besides changing the state. -/
inductive Event
  /-- A query about the cursor's token goes out. -/
  | sent (kind : Query.Kind)
  | logged (line : LogLine)
  /-- Whoever waits for a fetch looks again. -/
  | notified
  /-- A fetch in the background is scheduled. -/
  | scheduled
  /-- The connection is given back, with the error of the stop query if it failed. -/
  | released (stopError : Option Error)

/-- One uninterrupted step of an activity: the state after it, how the activity goes on, and what
else happened. -/
structure Turn (σ : Type) where
  cursor : Cursor
  next : σ
  events : List Event := []

/-- The same step of an activity that another one is part of. -/
def Turn.map {σ τ : Type} (f : σ → τ) (turn : Turn σ) : Turn τ :=
  ⟨turn.cursor, f turn.next, turn.events⟩

/-- How a query comes back from the connection. -/
inductive Answer
  | reply (reply : Reply)
  | failure (e : Error)
  /-- The connection breaks down and the activity that used it with it. -/
  | breakdown

namespace Cursor

/-! ## 2. Changes of state -/

/-- Keeps the first error. -/
def record (c : Cursor) (e : Error) : Cursor := { c with error? := c.error?.orElse fun _ => some e }

/-- Adds a reply to an open cursor; a closed one ignores it. -/
def accept (c : Cursor) (reply : Reply) : Cursor :=
  if c.closed then c
  else
    match reply.error? with
    | some e => { c.record e with finished := true }
    | none =>
      { c with
        batches := c.batches.pushAll reply.batches
        finished := !reply.kind.hasMore
        profile := reply.profile.orElse fun _ => c.profile }

/-- Opens the gate of the fetches. -/
def openGate (c : Cursor) : Cursor := { c with fetching := false }

/-! ## 3. Questions about the state -/

/-- Whether more rows may be asked for. -/
def canContinue (c : Cursor) : Bool := !c.closed && !c.finished && c.error?.isNone

/-- Whether the stock of batches is down to the last one and can be added to. -/
def runsLow (c : Cursor) : Bool := c.batches.size == 1 && !c.closed && !c.finished

/-- A fetch in the background, if the options ask for one and none is under way. -/
def schedule (setup : Setup) (c : Cursor) : List Event :=
  if setup.options.prefetch && !c.fetching then [.scheduled] else []

/-- Whether the row at hand is null; without a row at hand the cursor counts as null. -/
def isNil (c : Cursor) : Bool :=
  match c.rows.peek? with
  | some row => row.isNull
  | none =>
    match c.batches.peek? with
    | some text => text == "null"
    | none => true

end Cursor

/-! ## 4. Reading batches -/

/-- The rows of a batch: the items of an array, or the one value that it is. -/
def Setup.rows (setup : Setup) (text : String) : Except Error (List Datum) := do
  let value ← (Json.parse text).mapError fun fault => .decode (.json fault)
  match ← setup.normalize value with
  | .array rows => return rows
  | row => return [row]

end RowStream
