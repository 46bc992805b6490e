import RowStream.Cursor.System
import RowStream.Pseudotype

/-!
# Scenarios

A scenario is a cursor with everything that happens to it: what the caller does step by step, and
what the connection answers to each query, possibly after the caller has done something else while
the query was on its way.
-/

namespace RowStream.Scenario

/-! ## 1. What happens -/

/-- Something that the caller does. -/
inductive Action
  | next (t : Target)
  | one (t : Target)
  /-- Advances into one destination until there is no row. -/
  | drain (t : Target)
  /-- Extracts all rows into a list that holds the values of some texts. -/
  | all (t : Target) (initial : List String)
  /-- Takes items, at most so many, until two in a row are none. -/
  | rows (t : Target) (limit : Nat)
  | isNil
  | isClosed
  | error
  | profile
  | info
  | close
  | extend (reply : String)
  | debug (on : Bool)

/-- How the connection answers a query. -/
inductive Outcome
  | reply (text : String)
  | failure (e : Error)
  | breakdown

/-- What happens to a query: what the caller does meanwhile, and the answer. -/
structure Exchange where
  during : List Action := []
  outcome : Outcome

/-- How the batches of a scenario are normalized. -/
inductive Normalizer
  /-- Tagged objects become the values that they stand for. -/
  | pseudotypes
  /-- Values are taken as they are. -/
  | plain
  /-- Every batch is refused. -/
  | reject

end Scenario

/-- A cursor and what happens to it. -/
structure Scenario where
  token : Int
  term : Option String
  options : Option String
  /-- The reply that the cursor starts with. -/
  first : Option String
  normalizer : Scenario.Normalizer
  /-- Whether somebody wants to be told when the cursor closes. -/
  release : Bool
  debug : Bool
  /-- What happens to the queries for more rows, in order. -/
  script : List Scenario.Exchange
  /-- What happens to the stop query. -/
  stop : Option Scenario.Exchange
  steps : List Scenario.Action
  /-- Whether the cursor is looked at after each step and dropped at the end. -/
  settles : Bool

namespace Scenario

/-! ## 2. What comes of it -/

/-- What an action gives. -/
inductive Result
  | opened
  | advanced (more : Bool) (dest : Destination)
  | first (dest : Destination) (result : Except Error Unit)
  | drained (rows : List Destination)
  | collected (values : List Destination) (result : Except Error Unit)
  | items (items : List (Option (Except Error Destination)))
  | truth (b : Bool)
  | error (e : Option Error)
  | profile (p : Option Json)
  | info (setup : Setup)
  | finished (result : Except Error Unit)
  | dropped
  /-- The action has not come back. -/
  | unfinished

/-- What a look at the cursor shows. -/
structure View where
  closed : Bool
  isNil : Bool
  error? : Option Error

/-- What happens in the course of a step. -/
structure Record where
  sent : List Query := []
  released : List (Option Error) := []
  log : List LogLine := []
  /-- The results of what the caller did during queries. -/
  during : List Result := []

/-- A step: its result, what happened in its course, and a look at the cursor after it. -/
structure Entry where
  result : Result
  record : Record
  view : Option View

/-- What comes of a scenario. -/
structure Report where
  entries : List Entry
  /-- The most queries for more rows that were on their way at once. -/
  maxInFlight : Nat
  /-- Whether a breakdown of the connection has reached the caller, who then gives up. -/
  brokenDown : Bool

/-- The number of stop queries. -/
def Report.stops (r : Report) : Nat :=
  (r.entries.flatMap fun entry => entry.record.sent.filter fun q => q.kind == .stop).length

/-- What the one who wants to be told of the closing has been told. -/
def Report.released (r : Report) : List (Option Error) :=
  r.entries.flatMap fun entry => entry.record.released

/-! ## 3. Size -/

/-- A measure of an action that bounds the rows it can bring or take. -/
def Action.size : Action → Nat
  | .extend reply => reply.length + 1
  | .rows _ limit => limit + 1
  | .all _ initial => (String.join initial).length + 1
  | _ => 1

/-- The actions of a list together. -/
def Action.sizes (actions : List Action) : Nat :=
  actions.foldl (fun total action => total + action.size) 0

/-- A measure of an exchange that bounds the rows it can bring or take. -/
def Exchange.size (x : Exchange) : Nat :=
  Action.sizes x.during + 1 +
    match x.outcome with
    | .reply text => text.length
    | _ => 0

/-- A measure that bounds the rows of a scenario and the actions in it. -/
def size (s : Scenario) : Nat :=
  (s.first.map String.length).getD 0 + s.script.foldl (fun total x => total + x.size) 0 +
    (s.stop.map Exchange.size).getD 0 + Action.sizes s.steps

end Scenario
end RowStream
