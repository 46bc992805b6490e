import RowStream.Cursor.Next

/-!
# The steps of fetches, closings and advances

Each step of an activity, with what it requires of the cursor, as a relation.  A property of all
steps is proved by cases of the relation.
-/

namespace RowStream

/-! ## 1. Fetches -/

/-- The steps of a fetch. -/
inductive Fetch.Steps (setup : Setup) (c : Cursor) : Fetch → Turn Fetch → Prop
  | refused (hgate : c.fetching = true) : Steps setup c .claim ⟨c, .done (.ok false), []⟩
  | passed (hgate : c.fetching = false) :
    Steps setup c .claim ⟨{ c with fetching := true }, .check, []⟩
  | goesOn (hopen : c.canContinue = true) : Steps setup c .check ⟨c, .send, []⟩
  | turnsBack (hopen : c.canContinue = false) :
    Steps setup c .check ⟨c.openGate, .wake (.ok false) false, []⟩
  | asks : Steps setup c .send ⟨c, .waiting, [.logged .requesting, .sent .more]⟩
  | adds (reply : Reply) :
    Steps setup c (.fold (.ok reply))
      ⟨(c.accept reply).openGate, .wake (.ok true) (c.accept reply).openGate.runsLow, []⟩
  | fails (e : Error) :
    Steps setup c (.fold (.error e))
      ⟨(c.record e).openGate, .wake (.error e) false, [.logged (.continueFailed e)]⟩
  | tells (outcome : Except Error Bool) (low : Bool) :
    Steps setup c (.wake outcome low)
      ⟨c, if low then .ahead outcome else .done outcome, [.notified]⟩
  | looksAhead (outcome : Except Error Bool) :
    Steps setup c (.ahead outcome) ⟨c, .done outcome, c.schedule setup⟩

theorem Fetch.steps_of_step {setup : Setup} {c : Cursor} {f : Fetch} {turn : Turn Fetch}
    (h : f.step setup c = some turn) : Fetch.Steps setup c f turn := by
  cases f with
  | claim =>
    simp only [step] at h
    split at h
    next hgate => cases h; exact .refused hgate
    next hgate => cases h; exact .passed (Bool.eq_false_iff.mpr hgate)
  | check =>
    simp only [step] at h
    split at h
    next hopen => cases h; exact .goesOn hopen
    next hopen => cases h; exact .turnsBack (Bool.eq_false_iff.mpr hopen)
  | send => cases h; exact .asks
  | fold outcome =>
    cases outcome with
    | ok reply => cases h; exact .adds reply
    | error e => cases h; exact .fails e
  | wake outcome low => cases h; exact .tells outcome low
  | ahead outcome => cases h; exact .looksAhead outcome
  | waiting | done | aborted => cases h

/-- The steps of a task. -/
inductive Task.Steps (setup : Setup) (c : Cursor) : Task → Turn Task → Prop
  | fetches {f : Fetch} {turn : Turn Fetch} (hstep : Fetch.Steps setup c f turn) :
    Steps setup c (.running f) (turn.map ofFetch)
  | notices :
    Steps setup c (.running .aborted)
      ⟨(c.record (.connection (.fetchAborted setup.breakdown))).openGate, .wake, []⟩
  | reports (e : Error) :
    Steps setup c (.failed e) ⟨c, .done, [.logged (.backgroundFailed e)]⟩
  | tells : Steps setup c .wake ⟨c, .done, [.notified]⟩

theorem Task.steps_of_step {setup : Setup} {c : Cursor} {task : Task} {turn : Turn Task}
    (h : task.step setup c = some turn) : Task.Steps setup c task turn := by
  cases task with
  | running f =>
    -- A fetch that was broken off is noticed by its task; any other fetch takes its own turn.
    by_cases haborted : f = .aborted
    · rw [haborted] at h ⊢
      cases h
      exact .notices
    · rw [step] at h
      · obtain ⟨turn, hstep, rfl⟩ := Option.map_eq_some_iff.mp h
        exact .fetches (Fetch.steps_of_step hstep)
      · exact haborted
  | failed e => cases h; exact .reports e
  | wake => cases h; exact .tells
  | done => cases h

/-! ## 2. Closings -/

/-- The steps of a closing. -/
inductive Close.Steps (c : Cursor) : Close → Turn Close → Prop
  | again (hclosed : c.closed = true) : Steps c .mark ⟨c, .done none, []⟩
  | marks (hopen : c.closed = false) :
    Steps c .mark ⟨{ c with closed := true, release := false }, .wake c.finished c.release, []⟩
  | tells (finished r : Bool) :
    Steps c (.wake finished r) ⟨c, if finished then .release r none else .stop r, [.notified]⟩
  | stops (r : Bool) : Steps c (.stop r) ⟨c, .waiting r, [.sent .stop]⟩
  | releases (r : Bool) (stopError : Option Error) (line : LogLine) :
    Steps c (.release r stopError)
      ⟨c, .done stopError, .logged line :: if r then [.released stopError] else []⟩

theorem Close.steps_of_step {c : Cursor} {close : Close} {turn : Turn Close}
    (h : close.step c = some turn) : Close.Steps c close turn := by
  cases close with
  | mark =>
    simp only [step] at h
    split at h
    next hclosed => cases h; exact .again hclosed
    next hopen => cases h; exact .marks (Bool.eq_false_iff.mpr hopen)
  | wake finished r => cases h; exact .tells finished r
  | stop r => cases h; exact .stops r
  | release r stopError => cases h; exact .releases r stopError _
  | waiting | done | aborted => cases h

/-! ## 3. Advances -/

namespace Next

variable {t : Target}

/-- What an advance comes to when it looks for a row. -/
inductive Looks (setup : Setup) (c : Cursor) (slot : t.Slot) : Turn (Next t) → Prop
  | row {row : Datum} {rows : Queue Datum} (hpop : c.rows.pop? = some (row, rows)) :
    Looks setup c slot
      ⟨{ c with rows }, receive slot row, if c.runsLow then c.schedule setup else []⟩
  | batch {text : String} {batches : Queue String} {rows : List Datum}
    (hempty : c.rows.toList = []) (hpop : c.batches.pop? = some (text, batches))
    (hread : setup.rows text = .ok rows) :
    Looks setup c slot ⟨{ c with batches }, ⟨slot, .refill rows⟩, []⟩
  | badBatch {text : String} {batches : Queue String} {e : Error}
    (hempty : c.rows.toList = []) (hpop : c.batches.pop? = some (text, batches))
    (hread : setup.rows text = .error e) :
    Looks setup c slot ⟨{ c with batches }, ⟨slot, .failed e⟩, []⟩
  | error {e : Error} (hrows : c.rows.toList = []) (hbatches : c.batches.toList = [])
    (herror : c.error? = some e) : Looks setup c slot ⟨c, ⟨slot, .failed e⟩, []⟩
  | finished (hrows : c.rows.toList = []) (hbatches : c.batches.toList = [])
    (herror : c.error? = none) (hfinished : c.finished = true) :
    Looks setup c slot ⟨c, ⟨slot, .closing .mark⟩, []⟩
  | closed (hrows : c.rows.toList = []) (hbatches : c.batches.toList = [])
    (herror : c.error? = none) (hfinished : c.finished = false) (hclosed : c.closed = true) :
    Looks setup c slot ⟨c, ⟨slot, .failed .closed⟩, []⟩
  | fetch (hrows : c.rows.toList = []) (hbatches : c.batches.toList = [])
    (hopen : c.canContinue = true) : Looks setup c slot ⟨c, ⟨slot, .fetching .claim⟩, []⟩

theorem looks_look (setup : Setup) (c : Cursor) (slot : t.Slot) :
    Looks setup c slot (look setup c slot) := by
  -- The order of the cases is the order in which the cursor is asked: rows, texts, error, end.
  unfold look
  split
  next row rows hpop => exact .row hpop
  next hrows =>
    have hrows := Queue.toList_of_pop?_eq_none hrows
    split
    next text batches hpop =>
      cases hread : setup.rows text with
      | ok rows => exact .batch hrows hpop hread
      | error e => exact .badBatch hrows hpop hread
    next hbatches =>
      have hbatches := Queue.toList_of_pop?_eq_none hbatches
      cases herror : c.error? with
      | some e => exact .error hrows hbatches herror
      | none =>
        cases hfinished : c.finished with
        | true => exact .finished hrows hbatches herror hfinished
        | false =>
          cases hclosed : c.closed with
          | true => exact .closed hrows hbatches herror hfinished hclosed
          | false =>
            -- Neither an error nor the end nor a closed cursor: there may be more.
            apply Looks.fetch hrows hbatches
            rw [Cursor.canContinue, hclosed, hfinished, herror]
            rfl

/-- The cursor that an advance looks at in its next step, if it looks for a row. -/
def Phase.sight? (c : Cursor) : Phase → Option Cursor
  | .look => some c
  | .recheck => if c.fetching && c.error?.isNone && !c.closed then none else some c
  | .refill rows => some { c with rows := c.rows.pushAll rows }
  | _ => none

/-- The steps of an advance. -/
inductive Steps (setup : Setup) (c : Cursor) : Next t → Turn (Next t) → Prop
  | enters (slot : t.Slot) (hopen : c.closed = false) :
    Steps setup c ⟨slot, .enter⟩ ⟨c, ⟨slot, .look⟩, []⟩
  | ends (slot : t.Slot) (hclosed : c.closed = true) :
    Steps setup c ⟨slot, .enter⟩ ⟨c, ⟨slot, .done false⟩, []⟩
  | looks (slot : t.Slot) {phase : Phase} {sight : Cursor} {turn : Turn (Next t)}
    (hsight : phase.sight? c = some sight) (hlooks : Looks setup sight slot turn) :
    Steps setup c ⟨slot, phase⟩ turn
  | sleeps (slot : t.Slot) (hgate : c.fetching = true) (herror : c.error? = none)
    (hopen : c.closed = false) : Steps setup c ⟨slot, .recheck⟩ ⟨c, ⟨slot, .asleep⟩, []⟩
  | fetches (slot : t.Slot) {f : Fetch} {turn : Turn Fetch} (hstep : Fetch.Steps setup c f turn) :
    Steps setup c ⟨slot, .fetching f⟩ (turn.map fun f => ⟨slot, .ofFetch f⟩)
  | records (slot : t.Slot) (e : Error) :
    Steps setup c ⟨slot, .failed e⟩ ⟨c.record e, ⟨slot, .closing .mark⟩, [.logged (.failed e)]⟩
  | closes (slot : t.Slot) {close : Close} {turn : Turn Close} (hstep : Close.Steps c close turn) :
    Steps setup c ⟨slot, .closing close⟩ (turn.map fun close => ⟨slot, .ofClose close⟩)

theorem steps_of_step {setup : Setup} {c : Cursor} {n : Next t} {turn : Turn (Next t)}
    (h : n.step setup c = some turn) : Steps setup c n turn := by
  obtain ⟨slot, phase⟩ := n
  cases phase with
  | enter =>
    cases h
    cases hclosed : c.closed with
    | true => exact .ends slot hclosed
    | false => exact .enters slot hclosed
  | look => cases h; exact .looks slot rfl (looks_look ..)
  | fetching f =>
    obtain ⟨turn', hstep, rfl⟩ := Option.map_eq_some_iff.mp h
    exact .fetches slot (Fetch.steps_of_step hstep)
  | recheck =>
    simp only [step] at h
    split at h
    next hsleep =>
      cases h
      simp only [Bool.and_eq_true, Option.isNone_iff_eq_none, Bool.not_eq_true'] at hsleep
      exact .sleeps slot hsleep.1.1 hsleep.1.2 hsleep.2
    next hawake => cases h; exact .looks slot (if_neg hawake) (looks_look ..)
  | refill rows => cases h; exact .looks slot rfl (looks_look ..)
  | failed e => cases h; exact .records slot e
  | closing close =>
    obtain ⟨turn', hstep, rfl⟩ := Option.map_eq_some_iff.mp h
    exact .closes slot (Close.steps_of_step hstep)
  | asleep | done => cases h

end Next
end RowStream
