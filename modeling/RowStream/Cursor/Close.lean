import RowStream.Cursor.Basic

/-!
# Closing

The first to close a cursor tells the server to drop the rows that it still has, and gives the
connection back.  Closing again does nothing.
-/

namespace RowStream

/-- How far the closing of a cursor has come.  Its outcome is the error of the stop query. -/
inductive Close
  /-- About to mark the cursor as closed. -/
  | mark
  /-- About to notify. -/
  | wake (finished release : Bool)
  /-- About to stop the query. -/
  | stop (release : Bool)
  /-- The connection has the stop query. -/
  | waiting (release : Bool)
  /-- About to give the connection back. -/
  | release (release : Bool) (stopError : Option Error)
  | done (stopError : Option Error)
  /-- Ended by a breakdown of the connection. -/
  | aborted

namespace Close

/-- The next step, unless the closing waits for the connection or has ended. -/
def step (c : Cursor) : Close → Option (Turn Close)
  | mark =>
    if c.closed then some ⟨c, done none, []⟩
    else some ⟨{ c with closed := true, release := false }, wake c.finished c.release, []⟩
  | wake finished r => some ⟨c, if finished then release r none else stop r, [.notified]⟩
  | stop r => some ⟨c, waiting r, [.sent .stop]⟩
  | waiting _ => none
  | release r stopError =>
    -- The connection is given back only after the stop query has been answered.
    let line := match stopError with
      | some e => LogLine.stopFailed e
      | none => .closed
    some ⟨c, done stopError, .logged line :: if r then [.released stopError] else []⟩
  | done _ => none
  | aborted => none

/-- The query that the closing waits for. -/
def awaits? : Close → Option Query.Kind
  | waiting _ => some .stop
  | _ => none

/-- Takes back the answer to its query. -/
def answer (a : Answer) : Close → Close
  | waiting r =>
    match a with
    | .reply _ => release r none
    | .failure e => release r (some e)
    | .breakdown => aborted
  | c => c

/-- The error of the stop query, once the cursor is closed. -/
def result? : Close → Option (Option Error)
  | done stopError => some stopError
  | _ => none

/-- Whether a breakdown of the connection has ended the closing. -/
def isAborted : Close → Bool
  | aborted => true
  | _ => false

end Close
end RowStream
