import RowStream.Cursor.Extract

/-!
# Interleavings

Operations on one cursor and fetches in its background take turns.  Each turn is one uninterrupted
step of one of them, or the connection's answer to a query of one of them; a run is a list of
moves, and every order of turns is a run.
-/

namespace RowStream

/-! ## 1. Operations -/

/-- An operation that the caller can begin. -/
inductive Operation
  | next {t : Target} (slot : t.Slot)
  | one {t : Target} (slot : t.Slot)
  | all {t : Target} (initial : List t.Slot)
  /-- The next item of rows, which may have ended. -/
  | item (t : Target) (ended : Bool)
  | close
  | extend (reply : Reply)

/-- An operation under way. -/
inductive Call
  | next {t : Target} (n : Next t)
  | one {t : Target} (o : One t)
  | all {t : Target} (a : All t)
  | item {t : Target} (i : NextItem t)
  | close (c : Close)
  | extend (f : Fetch)

/-- An operation at its beginning.  A reply is added in the way of a fetch that brings it. -/
def Operation.begin : Operation → Call
  | next slot => .next (.start slot)
  | one slot => .one (.look slot)
  | all initial => .all (.start [] initial)
  | item t ended => .item (t := t) (.start ended)
  | close => .close .mark
  | extend reply => .extend (.fold (.ok reply))

namespace Call

/-- The next step, unless the operation waits or has ended. -/
def step (setup : Setup) (c : Cursor) : Call → Option (Turn Call)
  | next n => (n.step setup c).map (Turn.map next)
  | one o => (o.step setup c).map (Turn.map one)
  | all a => (a.step setup c).map (Turn.map all)
  | item i => (i.step setup c).map (Turn.map item)
  | close x => (x.step c).map (Turn.map close)
  | extend f => (f.step setup c).map (Turn.map extend)

/-- The query that the operation waits for. -/
def awaits? : Call → Option Query.Kind
  | next n => n.awaits?
  | one o => o.awaits?
  | all a => a.awaits?
  | item i => i.awaits?
  | close c => c.awaits?
  | extend f => f.awaits?

/-- Takes back the answer to its query. -/
def answer (a : Answer) : Call → Call
  | next n => next (n.answer a)
  | one o => one (o.answer a)
  | all x => all (x.answer a)
  | item i => item (i.answer a)
  | close c => close (c.answer a)
  | extend f => extend (f.answer a)

/-- Wakes an operation that sleeps. -/
def wake : Call → Call
  | next n => next n.wake
  | one o => one o.wake
  | all a => all a.wake
  | item i => item i.wake
  | close c => close c
  | extend f => extend f

/-- Whether the operation has come to its result. -/
def isDone : Call → Bool
  | next n => n.result?.isSome
  | one o => o.result?.isSome
  | all a => a.result?.isSome
  | item i => i.result?.isSome
  | close c => c.result?.isSome
  | extend f => f.result?.isSome

/-- Whether a breakdown of the connection has ended the operation. -/
def isAborted : Call → Bool
  | next n => n.isAborted
  | one o => o.isAborted
  | all a => a.isAborted
  | item i => i.isAborted
  | close c => c.isAborted
  | extend f => f.isAborted

end Call

/-! ## 2. Turns -/

/-- A cursor with the operations and the background fetches under way. -/
structure System where
  cursor : Cursor
  calls : List Call := []
  tasks : List Task := []

/-- One move of a run.  Activities are named by their places. -/
inductive Move
  | begin (op : Operation)
  | call (place : Nat)
  | answerCall (place : Nat) (a : Answer)
  /-- The caller takes back an operation that has come to its result or been ended by a
  breakdown. -/
  | collect (place : Nat)
  | task (place : Nat)
  | answerTask (place : Nat) (a : Answer)

/-- What a run shows, one after another. -/
inductive Happening
  | began (op : Operation)
  | event (e : Event)
  | answered (kind : Query.Kind) (a : Answer)
  /-- An operation that the caller has taken back, with its result if it came to one. -/
  | collected (call : Call)

namespace System

/-- A cursor just opened, with nothing under way. -/
def opened (release : Bool) : System := { cursor := { release } }

/-- What an event means for the others. -/
def heed (s : System) : Event → System
  | .notified => { s with calls := s.calls.map Call.wake }
  | .scheduled => { s with tasks := s.tasks ++ [.scheduled] }
  | _ => s

/-- The system after the events of a turn. -/
def heedAll (s : System) (events : List Event) : System × List Happening :=
  (events.foldl heed s, events.map .event)

/-- The system after a move and what happens in it, if the move is possible. -/
def move? (setup : Setup) (s : System) : Move → Option (System × List Happening)
  | .begin op => some ({ s with calls := op.begin :: s.calls }, [.began op])
  | .call place => do
    let call ← s.calls[place]?
    let turn ← call.step setup s.cursor
    return heedAll { s with cursor := turn.cursor, calls := s.calls.set place turn.next }
      turn.events
  | .answerCall place a => do
    let call ← s.calls[place]?
    let kind ← call.awaits?
    return ({ s with calls := s.calls.set place (call.answer a) }, [.answered kind a])
  | .collect place => do
    let call ← s.calls[place]?
    if call.isDone || call.isAborted then
      return ({ s with calls := s.calls.eraseIdx place }, [.collected call])
    else none
  | .task place => do
    let task ← s.tasks[place]?
    let turn ← task.step setup s.cursor
    return heedAll { s with cursor := turn.cursor, tasks := s.tasks.set place turn.next }
      turn.events
  | .answerTask place a => do
    let task ← s.tasks[place]?
    let kind ← task.awaits?
    return ({ s with tasks := s.tasks.set place (task.answer a) }, [.answered kind a])

/-- The system after a run and what happens in it, if every move is possible. -/
def run? (setup : Setup) (s : System) : List Move → Option (System × List Happening)
  | [] => some (s, [])
  | move :: moves => do
    let (s, happenings) ← s.move? setup move
    let (s, later) ← s.run? setup moves
    return (s, happenings ++ later)

end System
end RowStream
