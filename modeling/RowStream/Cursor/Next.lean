import RowStream.Cursor.Close
import RowStream.Cursor.Fetch
import RowStream.Decode.Destination

/-!
# The next row

Advancing a cursor decodes the next row into a destination.  Batches are read as rows run out, and
fetched as batches run out; an advance that finds a fetch under way waits for it.  At the end of
the rows, and after any error, the cursor is closed.
-/

namespace RowStream

/-- How far an advance has come. -/
inductive Next.Phase
  | enter
  /-- About to look for a row. -/
  | look
  | fetching (f : Fetch)
  /-- Another fetch holds the gate; about to look whether it still does. -/
  | recheck
  /-- Waiting to be notified. -/
  | asleep
  /-- A batch has been read; about to queue its rows. -/
  | refill (rows : List Datum)
  /-- About to record an error. -/
  | failed (e : Error)
  | closing (c : Close)
  | done (more : Bool)

/-- An advance with its destination. -/
structure Next (t : Target) where
  slot : t.Slot
  phase : Next.Phase

namespace Next

variable {t : Target}

/-- An advance that has not begun. -/
def start (slot : t.Slot) : Next t := ⟨slot, .enter⟩

/-- How an advance goes on with its fetch. -/
def Phase.ofFetch : Fetch → Phase
  | .done (.ok true) => .look
  | .done (.ok false) => .recheck
  | .done (.error e) => .failed e
  | f => .fetching f

/-- How an advance goes on with closing the cursor. -/
def Phase.ofClose : Close → Phase
  | .done _ => .done false
  | c => .closing c

/-- Decodes a row that was taken off the queue. -/
def receive (slot : t.Slot) (row : Datum) : Next t :=
  match t.decode slot row with
  | .done x => ⟨x, .done true⟩
  | .failed e left => ⟨left, .failed (.decode e)⟩

/-- Takes a row, or else a batch, or else finds out how to go on without either. -/
def look (setup : Setup) (c : Cursor) (slot : t.Slot) : Turn (Next t) :=
  match c.rows.pop? with
  | some (row, rows) =>
    -- The next batch is asked for before the row is decoded, whatever becomes of the row.
    { cursor := { c with rows }
      next := receive slot row
      events := if c.runsLow then c.schedule setup else [] }
  | none =>
    match c.batches.pop? with
    | some (text, batches) =>
      { cursor := { c with batches }
        next := ⟨slot, match setup.rows text with
          | .ok rows => .refill rows
          | .error e => .failed e⟩ }
    | none =>
      { cursor := c
        next := ⟨slot, match c.error? with
          | some e => .failed e
          | none =>
            if c.finished then .closing .mark
            else if c.closed then .failed .closed
            else .fetching .claim⟩ }

/-- The next step, unless the advance waits or has ended. -/
def step (setup : Setup) (c : Cursor) (n : Next t) : Option (Turn (Next t)) :=
  match n.phase with
  | .enter => some ⟨c, ⟨n.slot, if c.closed then .done false else .look⟩, []⟩
  | .look => some (look setup c n.slot)
  | .fetching f => (f.step setup c).map (Turn.map fun f => ⟨n.slot, .ofFetch f⟩)
  | .recheck =>
    if c.fetching && c.error?.isNone && !c.closed then some ⟨c, ⟨n.slot, .asleep⟩, []⟩
    else some (look setup c n.slot)
  | .asleep => none
  | .refill rows => some (look setup { c with rows := c.rows.pushAll rows } n.slot)
  | .failed e => some ⟨c.record e, ⟨n.slot, .closing .mark⟩, [.logged (.failed e)]⟩
  | .closing close => (close.step c).map (Turn.map fun close => ⟨n.slot, .ofClose close⟩)
  | .done _ => none

/-- The query that the advance waits for. -/
def awaits? (n : Next t) : Option Query.Kind :=
  match n.phase with
  | .fetching f => f.awaits?
  | .closing c => c.awaits?
  | _ => none

/-- Takes back the answer to its query. -/
def answer (a : Answer) (n : Next t) : Next t :=
  match n.phase with
  | .fetching f => ⟨n.slot, .fetching (f.answer a)⟩
  | .closing c => ⟨n.slot, .closing (c.answer a)⟩
  | _ => n

/-- Wakes an advance that sleeps. -/
def wake (n : Next t) : Next t :=
  match n.phase with
  | .asleep => ⟨n.slot, .recheck⟩
  | _ => n

/-- Whether there was a row, once the advance has ended. -/
def result? (n : Next t) : Option Bool :=
  match n.phase with
  | .done more => some more
  | _ => none

/-- Whether a breakdown of the connection has ended the advance. -/
def isAborted (n : Next t) : Bool :=
  match n.phase with
  | .fetching f => f.isAborted
  | .closing c => c.isAborted
  | _ => false

end Next
end RowStream
