import RowStream.Scenario.Basic

/-!
# Sessions

A session is a scenario in the course of its run: the system, what the connection has still to
answer, and the record of the current step.
-/

namespace RowStream.Scenario

/-- A scenario in the course of its run. -/
structure Session where
  setup : Setup
  system : System
  script : List Exchange
  stop : Option Exchange
  debug : Bool
  inFlight : Nat := 0
  maxInFlight : Nat := 0
  record : Record := {}
  /-- Whether a breakdown of the connection has ended the latest operation. -/
  brokenDown : Bool := false

namespace Session

/-! ## 1. Keeping the record -/

/-- Notes an event. -/
def note (s : Session) : Event → Session
  | .sent .stop =>
    { s with record := { s.record with sent := s.record.sent ++ [Query.stop s.setup.token] } }
  | .sent _ =>
    { s with record := { s.record with sent := s.record.sent ++ [Query.more s.setup.token] } }
  | .logged line =>
    if s.debug then { s with record := { s.record with log := s.record.log ++ [line] } } else s
  | .released e =>
    { s with record := { s.record with released := s.record.released ++ [e] } }
  | .notified => s
  | .scheduled => s

/-- Notes the result of what the caller did during a query. -/
def noteDuring (s : Session) (result : Result) : Session :=
  { s with record := { s.record with during := s.record.during ++ [result] } }

/-- Switches the debug log; switching it on is logged. -/
def setDebug (s : Session) (on : Bool) : Session :=
  let s := { s with debug := on }
  if on then s.note (.logged .enabled) else s

/-- Notes what happens in a move, as far as it is an event. -/
def observe (s : Session) : Happening → Session
  | .event e => s.note e
  | _ => s

/-- Makes a move, if it is possible. -/
def move? (s : Session) (move : Move) : Option Session :=
  (s.system.move? s.setup move).map fun (system, happenings) =>
    happenings.foldl observe { s with system }

/-- Makes a move that is known to be possible. -/
def move (s : Session) (move : Move) : Session := (s.move? move).getD s

/-! ## 2. The connection -/

/-- What happens to a query of a kind. -/
def exchange (s : Session) : Query.Kind → Exchange × Session
  | .stop => (s.stop.getD ⟨[], .reply "[2]"⟩, s)
  | _ =>
    match s.script with
    | [] => (⟨[], .failure (.query (.reported "no scripted reply left"))⟩, s)
    | x :: script => (x, { s with script })

/-- The answer that an outcome gives. -/
def answer : Outcome → Answer
  | .reply text =>
    match Reply.parse text with
    | .ok reply => .reply reply
    | .error e => .failure e
  | .failure e => .failure e
  | .breakdown => .breakdown

/-- A breakdown that comes in answer to an operation ends it. -/
def breakDownOn (s : Session) : Answer → Session
  | .breakdown => { s with brokenDown := true }
  | _ => s

/-- A query for more rows sets out. -/
def depart (s : Session) : Query.Kind → Session
  | .stop => s
  | _ => { s with
      inFlight := s.inFlight + 1
      maxInFlight := max s.maxInFlight (s.inFlight + 1) }

/-- A query for more rows has arrived. -/
def arrive (s : Session) : Query.Kind → Session
  | .stop => s
  | _ => { s with inFlight := s.inFlight - 1 }

/-! ## 3. Results -/

/-- Whether there was a row, and the destination, once an advance has ended. -/
def advanced? : Call → Option (Bool × Destination)
  | .next n => n.result?.map fun more => (more, ⟨_, n.slot⟩)
  | _ => none

/-- The item, once it is there. -/
def item? : Call → Option (Option (Except Error Destination))
  | .item i => i.result?.map fun item => item.map fun x => x.map fun slot => ⟨_, slot⟩
  | _ => none

/-- The result of an operation, once it has ended. -/
def result : Call → Result
  | .next n =>
    match n.result? with
    | some more => .advanced more ⟨_, n.slot⟩
    | none => .unfinished
  | .one o =>
    match o.result? with
    | some (slot, result) => .first ⟨_, slot⟩ result
    | none => .unfinished
  | .all a =>
    match a.result? with
    | some (values, result) => .collected (values.map fun slot => ⟨_, slot⟩) result
    | none => .unfinished
  | .item _ => .unfinished
  | .close c =>
    match c.result? with
    | some (some e) => .finished (.error e)
    | some none => .finished (.ok ())
    | none => .unfinished
  | .extend f => if f.result?.isSome then .finished (.ok ()) else .unfinished

/-- The destination that an operation leaves. -/
def left? : Call → Option Destination
  | .next n => some ⟨_, n.slot⟩
  | .one o => o.result?.map fun (slot, _) => ⟨_, slot⟩
  | _ => none

/-- The value of a text in a list that rows are extracted into. -/
def initialSlot (t : Target) (text : String) : t.Slot :=
  match Json.parse text with
  | .ok v => (t.decode t.blank (Datum.ofJson v)).content
  | .error _ => t.blank

end Session
end RowStream.Scenario
