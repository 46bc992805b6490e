import RowStream.Scenario.Session

/-!
# Running scenarios

A scenario is run by moves of its system.  One activity moves until it has ended or waits for the
connection; a query on its way is overtaken by what the caller does meanwhile, and then answered.
Fetches scheduled in the background run one after another when the step that scheduled them is
over.
-/

namespace RowStream.Scenario

namespace Session

/-! ## 1. Steps -/

mutual

/-- Moves the latest operation until it has ended or waits for good. -/
def runCall : Nat → Session → Session
  | 0, s => s
  | fuel + 1, s =>
    match s.move? (.call 0) with
    | some s => runCall fuel s
    | none =>
      match s.system.calls.head?.bind Call.awaits? with
      | none => s
      | some kind =>
        let (s, a) := converse fuel s kind
        runCall fuel ((s.breakDownOn a).move (.answerCall 0 a))

/-- Lets a query go its way.  A breakdown of what the caller does meanwhile is a breakdown of the
query. -/
def converse : Nat → Session → Query.Kind → Session × Answer
  | 0, s, _ => (s, .breakdown)
  | fuel + 1, s, kind =>
    let (x, s) := s.exchange kind
    -- What the caller does meanwhile may send further queries, which take later exchanges.
    let s := actDuring fuel (s.depart kind) [] x.during
    (s.arrive kind, if s.brokenDown then .breakdown else answer x.outcome)

/-- Does what the caller does during a query, with destinations of its own, up to a breakdown. -/
def actDuring : Nat → Session → List Destination → List Action → Session
  | 0, s, _, _ => s
  | _ + 1, s, _, [] => s
  | fuel + 1, s, stored, action :: actions =>
    let (s, stored, result) := act fuel s stored action
    if s.brokenDown then s else actDuring fuel (s.noteDuring result) stored actions

/-- Runs an operation from its beginning and takes the call at its end. -/
def operate : Nat → Session → Operation → Session × Call
  | 0, s, op => (s, op.begin)
  | fuel + 1, s, op =>
    let s := runCall fuel (s.move (.begin op))
    (s.move (.collect 0), s.system.calls.head?.getD op.begin)

/-- Advances into one destination until there is no row. -/
def drain : Nat → Session → Destination → List Destination → Session × List Destination
  | 0, s, _, got => (s, got)
  | fuel + 1, s, dest, got =>
    let (s, call) := operate fuel s (.next dest.slot)
    match advanced? call with
    | some (true, dest) => drain fuel s dest (got ++ [dest])
    | _ => (s, got)

/-- Takes items until two in a row are none. -/
def takeItems : Nat → Session → Target → Nat → Bool → List (Option (Except Error Destination)) →
    Session × List (Option (Except Error Destination))
  | 0, s, _, _, _, got => (s, got)
  | _ + 1, s, _, 0, _, got => (s, got)
  | fuel + 1, s, t, limit + 1, ended, got =>
    let (s, call) := operate fuel s (.item t ended)
    match item? call with
    | some (some (.ok dest)) => takeItems fuel s t limit false (got ++ [some (.ok dest)])
    | some (some (.error e)) => takeItems fuel s t limit true (got ++ [some (.error e)])
    | some none =>
      if got.getLast?.any Option.isNone then (s, got ++ [none])
      else takeItems fuel s t limit true (got ++ [none])
    | none => (s, got)

/-- Does one action, with the destinations that earlier ones left. -/
def act : Nat → Session → List Destination → Action → Session × List Destination × Result
  | 0, s, stored, _ => (s, stored, .unfinished)
  | fuel + 1, s, stored, action =>
    let keep (call : Call) := match left? call with
      | some dest => dest.store stored
      | none => stored
    match action with
    | .next t =>
      let (s, call) := operate fuel s (.next (Destination.stored t stored))
      (s, keep call, result call)
    | .one t =>
      let (s, call) := operate fuel s (.one (Destination.stored t stored))
      (s, keep call, result call)
    | .drain t =>
      let (s, rows) := drain fuel s (.fresh t) []
      (s, stored, .drained rows)
    | .all t initial =>
      let (s, call) := operate fuel s (.all (initial.map (initialSlot t)))
      (s, stored, result call)
    | .rows t limit =>
      let (s, items) := takeItems fuel s t limit false []
      (s, stored, .items items)
    | .close =>
      let (s, call) := operate fuel s .close
      (s, stored, result call)
    | .extend text =>
      match Reply.parse text with
      | .error e => (s, stored, .finished (.error e))
      | .ok reply =>
        let (s, call) := operate fuel s (.extend reply)
        (s, stored, result call)
    | .isNil => (s, stored, .truth s.system.cursor.isNil)
    | .isClosed => (s, stored, .truth s.system.cursor.closed)
    | .error => (s, stored, .error s.system.cursor.error?)
    | .profile => (s, stored, .profile s.system.cursor.profile)
    | .info => (s, stored, .info s.setup)
    | .debug on => (s.setDebug on, stored, .finished (.ok ()))

end

/-- Runs the background fetches until none is left. -/
def runTasks : Nat → Session → Session
  | 0, s => s
  | fuel + 1, s =>
    match s.system.tasks.findIdx? fun task => !task.isDone with
    | none => s
    | some place =>
      match s.move? (.task place) with
      | some s => runTasks fuel s
      | none =>
        match s.system.tasks[place]?.bind Task.awaits? with
        | none => s
        | some kind =>
          let (s, a) := converse fuel s kind
          -- A breakdown ends the fetch and goes no further.
          runTasks fuel ({ s with brokenDown := false }.move (.answerTask place a))

/-! ## 2. Whole scenarios -/

/-- Ends a step. -/
def entry (fuel : Nat) (settles : Bool) (s : Session) (result : Result) : Session × Entry :=
  let s := runTasks fuel s
  let c := s.system.cursor
  let view : View := ⟨c.closed, c.isNil, c.error?⟩
  ({ s with record := {} }, ⟨result, s.record, if settles then some view else none⟩)

/-- Does the steps of a scenario in order, up to a breakdown. -/
def runSteps (fuel : Nat) (settles : Bool) :
    Session → List Destination → List Action → Session × List Entry
  | s, _, [] => (s, [])
  | s, stored, action :: actions =>
    let (s, stored, result) := act fuel s stored action
    if s.brokenDown then (s, [])
    else
      let (s, entry) := s.entry fuel settles result
      let (s, entries) := runSteps fuel settles s stored actions
      (s, entry :: entries)

/-- Drops the cursor; nothing is done during the stop query. -/
def drop (fuel : Nat) (s : Session) : Session × Entry :=
  let stop := s.stop.map fun x => { x with during := [] }
  let (s, _) := operate fuel { s with stop } .close
  (s, ⟨.dropped, (runTasks fuel s).record, none⟩)

end Session

/-- How the batches of a cursor with some options are normalized. -/
def Normalizer.apply (options : Options) : Normalizer → Json → Except Error Datum
  | .pseudotypes, v => (Pseudotype.normalize options v).mapError .decode
  | .plain, v => .ok (Datum.ofJson v)
  | .reject, v => .error (.query (.reported ("rejected " ++ v.text)))

/-- What comes of a scenario, unless its options, term or first reply cannot be read. -/
def run (scenario : Scenario) : Except Error Report := do
  let options ← match scenario.options with
    | some text => Options.parse text
    | none => pure {}
  let term ← scenario.term.mapM fun text =>
    (Json.parse text).mapError fun fault => Error.decode (.json fault)
  let first ← scenario.first.mapM Reply.parse
  let setup : Setup :=
    { token := scenario.token, term, options, normalize := scenario.normalizer.apply options }
  let fuel := 64 * (scenario.size + 1)
  let session : Session :=
    { setup
      system := .opened scenario.release
      script := scenario.script
      stop := scenario.stop
      debug := false }
  let session := if scenario.debug then session.setDebug true else session
  let session := session.note (.logged .opened)
  let session := match first with
    | some reply => (session.operate fuel (.extend reply)).1
    | none => session
  let (session, opening) := session.entry fuel scenario.settles .opened
  let (session, entries) := session.runSteps fuel scenario.settles [] scenario.steps
  let (session, last) :=
    if scenario.settles && !session.brokenDown then
      let (session, entry) := session.drop fuel
      (session, [entry])
    else (session, [])
  return ⟨opening :: entries ++ last, session.maxInFlight, session.brokenDown⟩

end RowStream.Scenario
