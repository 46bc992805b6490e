import RowStream.Cursor.Basic

/-!
# Fetching

A fetch asks the server for more rows and adds the reply to the cursor.  One fetch at a time passes
the gate.  It leaves the gate in the step that takes the outcome in, or at once if the cursor
cannot continue, and then notifies whoever waits.
-/

namespace RowStream

/-- How far a fetch has come.  Its outcome is whether it asked the server, or the error that the
connection gave. -/
inductive Fetch
  /-- About to pass the gate. -/
  | claim
  /-- Past the gate, about to look whether the cursor can continue. -/
  | check
  | send
  /-- The connection has the query. -/
  | waiting
  /-- About to take in what the connection gave back. -/
  | fold (outcome : Except Error Reply)
  /-- Out of the gate, about to notify. -/
  | wake (outcome : Except Error Bool) (ahead : Bool)
  /-- About to schedule a fetch in the background. -/
  | ahead (outcome : Except Error Bool)
  | done (outcome : Except Error Bool)
  /-- Ended by a breakdown of the connection, the gate not left. -/
  | aborted

namespace Fetch

/-- The next step, unless the fetch waits for the connection or has ended. -/
def step (setup : Setup) (c : Cursor) : Fetch → Option (Turn Fetch)
  | claim =>
    -- Taking the gate is a step of its own: the state is looked at only in the next one.
    if c.fetching then some ⟨c, done (.ok false), []⟩
    else some ⟨{ c with fetching := true }, check, []⟩
  | check =>
    if c.canContinue then some ⟨c, send, []⟩
    else some ⟨c.openGate, wake (.ok false) false, []⟩
  | send => some ⟨c, waiting, [.logged .requesting, .sent .more]⟩
  | waiting => none
  | fold (.ok reply) =>
    let c := (c.accept reply).openGate
    some ⟨c, wake (.ok true) c.runsLow, []⟩
  | fold (.error e) =>
    some ⟨(c.record e).openGate, wake (.error e) false, [.logged (.continueFailed e)]⟩
  | wake outcome low => some ⟨c, if low then ahead outcome else done outcome, [.notified]⟩
  | ahead outcome => some ⟨c, done outcome, c.schedule setup⟩
  | done _ => none
  | aborted => none

/-- The query that the fetch waits for. -/
def awaits? : Fetch → Option Query.Kind
  | waiting => some .more
  | _ => none

/-- Takes back the answer to its query. -/
def answer (a : Answer) : Fetch → Fetch
  | waiting =>
    match a with
    | .reply reply => fold (.ok reply)
    | .failure e => fold (.error e)
    | .breakdown => aborted
  | f => f

/-- The outcome, once the fetch has one. -/
def result? : Fetch → Option (Except Error Bool)
  | done outcome => some outcome
  | _ => none

/-- Whether a breakdown of the connection has ended the fetch. -/
def isAborted : Fetch → Bool
  | aborted => true
  | _ => false

end Fetch

/-- A fetch in the background.  One that fails is reported to the log; one that a breakdown ends is
noticed, and the breakdown recorded as the error of the cursor. -/
inductive Task
  | running (f : Fetch)
  /-- The fetch has failed, its error recorded; about to report it. -/
  | failed (e : Error)
  /-- The breakdown is recorded and the gate left; about to notify. -/
  | wake
  | done

namespace Task

/-- A task that has just been scheduled. -/
def scheduled : Task := running .claim

/-- A task whose fetch goes on. -/
def ofFetch : Fetch → Task
  | .done (.ok _) => done
  | .done (.error e) => failed e
  | f => running f

/-- The next step, unless the task waits for the connection or has ended. -/
def step (setup : Setup) (c : Cursor) : Task → Option (Turn Task)
  | running .aborted =>
    some ⟨(c.record (.connection (.fetchAborted setup.breakdown))).openGate, wake, []⟩
  | running f => (f.step setup c).map (Turn.map ofFetch)
  | failed e => some ⟨c, done, [.logged (.backgroundFailed e)]⟩
  | wake => some ⟨c, done, [.notified]⟩
  | done => none

/-- The query that the task waits for. -/
def awaits? : Task → Option Query.Kind
  | running f => f.awaits?
  | _ => none

/-- Takes back the answer to its query. -/
def answer (a : Answer) : Task → Task
  | running f => running (f.answer a)
  | t => t

/-- Whether the task has ended. -/
def isDone : Task → Bool
  | done => true
  | _ => false

end Task
end RowStream
