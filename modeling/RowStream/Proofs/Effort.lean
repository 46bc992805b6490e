import Mathlib.Algebra.Ring.Nat
import RowStream.Proofs.Advance
import RowStream.Proofs.World

/-!
# The effort left

A number for everything that is still to be done in a world: for each row and text in the queues,
each answer to come and each activity under way.  Every step of a world makes the sum smaller.  A
turn in the background can make the operation under way look again, which adds less than the turn
takes away.
-/

namespace RowStream

variable {setup : Setup} {c c' : Cursor}

/-! ## 1. Rows and texts -/

/-- The effort left in texts that have not been read. -/
def Setup.stock (setup : Setup) (texts : List String) : Nat :=
  (texts.map fun text => 1 + 64 * (setup.rowsOf text).length).sum

/-- The effort left in the queues of a cursor. -/
def Cursor.stock (setup : Setup) (c : Cursor) : Nat :=
  64 * c.rows.toList.length + setup.stock c.batches.toList

theorem Setup.stock_cons (text : String) (texts : List String) :
    setup.stock (text :: texts) = 1 + 64 * (setup.rowsOf text).length + setup.stock texts :=
  List.sum_cons

theorem Setup.stock_append (texts more : List String) :
    setup.stock (texts ++ more) = setup.stock texts + setup.stock more := by
  rw [stock, List.map_append, List.sum_append]
  rfl

/-! ## 2. Activities -/

/-- The effort left to an advance that is about to look for a row. -/
def Cursor.lookEffort (c : Cursor) : Nat := if c.canContinue then 12 else 8

/-- The effort left to an advance that found another fetch under way. -/
def Cursor.recheckEffort (c : Cursor) : Nat :=
  if c.fetching && c.error?.isNone && !c.closed then 2 else c.lookEffort

/-- The effort left to an advance after its fetch. -/
def Cursor.effortAfter (c : Cursor) : Except Error Bool → Nat
  | .ok true => c.lookEffort
  | .ok false => c.recheckEffort
  | .error _ => 7

/-- The effort left in a fetch, with what comes after it. -/
def Fetch.effort (setup : Setup) (c : Cursor) : Fetch → Nat
  | claim => 11
  | check => if c.canContinue then 3 else 10
  | send => 2
  | waiting => 1
  | fold (.ok reply) => 79 + setup.stock reply.texts
  | fold (.error _) => 79
  | wake outcome low => 1 + (if low then 41 else 0) + c.effortAfter outcome
  | ahead outcome => 41 + c.effortAfter outcome
  | done outcome => c.effortAfter outcome
  | aborted => 0

/-- The effort left in the closing of a cursor. -/
def Close.effort : Close → Nat
  | mark => 5
  | wake .. => 4
  | stop _ => 3
  | waiting _ => 2
  | release .. => 1
  | done _ | aborted => 0

/-- The effort left in an advance. -/
def Next.effort {t : Target} (setup : Setup) (c : Cursor) (n : Next t) : Nat :=
  match n.phase with
  | .enter => 13
  | .look => c.lookEffort
  | .fetching f => f.effort setup c
  | .recheck => c.recheckEffort
  | .asleep => 1
  | .refill rows => c.lookEffort + 64 * rows.length
  | .failed _ => 7
  | .closing close => 1 + close.effort
  | .done true => 14
  | .done false => 0

/-- The effort left in the extraction of the first row. -/
def One.effort {t : Target} (setup : Setup) (c : Cursor) : One t → Nat
  | look _ => 22
  | advancing n => n.effort setup c + 8
  | judge _ _ => 7
  | closing _ _ close => 1 + close.effort
  | done _ _ => 0

/-- The effort left in the extraction of all rows. -/
def All.effort {t : Target} (setup : Setup) (c : Cursor) : All t → Nat
  | advancing _ _ n => n.effort setup c + 8
  | judge _ => 7
  | closing _ _ close => 1 + close.effort
  | done _ _ => 0

/-- The effort left in the search for an item. -/
def NextItem.effort {t : Target} (setup : Setup) (c : Cursor) : NextItem t → Nat
  | advancing n => n.effort setup c + 3
  | judge => 2
  | done (some (.ok _)) => 17
  | done (some (.error _)) => 1
  | done none => 0

/-- The effort left in an operation. -/
def Call.effort (setup : Setup) (c : Cursor) : Call → Nat
  | next n => n.effort setup c
  | one o => o.effort setup c
  | all a => a.effort setup c
  | item i => i.effort setup c
  | close x => x.effort
  | extend f => f.effort setup c + 6

/-- The effort of reporting the outcome of a fetch in the background. -/
def Task.reportEffort : Except Error Bool → Nat
  | .ok _ => 0
  | .error _ => 13

/-- The effort left in a task. -/
def Task.effort (setup : Setup) : Task → Nat
  | running .claim => 40
  | running .check => 27
  | running .send => 14
  | running .waiting => 1
  | running (.fold (.ok reply)) => 79 + setup.stock reply.texts
  | running (.fold (.error _)) => 79
  | running (.wake outcome low) => (if low then 66 else 13) + reportEffort outcome
  | running (.ahead outcome) => 53 + reportEffort outcome
  | running (.done outcome) => reportEffort outcome
  | running .aborted => 26
  | failed _ => 13
  | wake => 13
  | done => 0

/-- The effort that an answer brings with it. -/
def Answer.effort (setup : Setup) : Answer → Nat
  | reply r => 79 + setup.stock r.texts
  | failure _ | breakdown => 79

/-- The effort left in a world. -/
def World.effort (setup : Setup) (w : World) : Nat :=
  (w.system.calls.map (Call.effort setup w.system.cursor)).sum + w.system.cursor.stock setup +
    (w.system.tasks.map (Task.effort setup)).sum + (w.answers.map (Answer.effort setup)).sum

/-! ## 3. Turns in the background -/

theorem Cursor.lookEffort_bounds (c : Cursor) : 8 ≤ c.lookEffort ∧ c.lookEffort ≤ 12 := by
  unfold lookEffort
  split <;> omega

theorem Cursor.recheckEffort_bounds (c : Cursor) : 2 ≤ c.recheckEffort ∧ c.recheckEffort ≤ 12 := by
  have hlook := c.lookEffort_bounds
  unfold recheckEffort
  split <;> omega

-- Another activity may close or reopen the way to more rows; it costs at most ten.
theorem Cursor.effortAfter_le (c c' : Cursor) (outcome : Except Error Bool) :
    c'.effortAfter outcome ≤ c.effortAfter outcome + 10 := by
  have hlook := c.lookEffort_bounds
  have hlook' := c'.lookEffort_bounds
  have hrecheck := c.recheckEffort_bounds
  have hrecheck' := c'.recheckEffort_bounds
  rcases outcome with _ | _ | _ <;> simp only [effortAfter] <;> omega

theorem Fetch.effort_le (setup : Setup) (c c' : Cursor) (f : Fetch) :
    f.effort setup c' ≤ f.effort setup c + 10 := by
  cases f with
  | check =>
    simp only [effort]
    split <;> split <;> omega
  | fold outcome => cases outcome <;> simp only [effort] <;> omega
  | wake outcome low | ahead outcome | done outcome =>
    have hafter := c.effortAfter_le c' outcome
    simp only [effort]
    omega
  | _ => simp only [effort]; omega

theorem Next.effort_le {t : Target} (setup : Setup) (c c' : Cursor) (n : Next t) :
    n.effort setup c' ≤ n.effort setup c + 12 ∧ n.wake.effort setup c' ≤ n.effort setup c + 12 := by
  have hlook := c.lookEffort_bounds
  have hlook' := c'.lookEffort_bounds
  have hrecheck := c.recheckEffort_bounds
  have hrecheck' := c'.recheckEffort_bounds
  obtain ⟨slot, phase⟩ := n
  cases phase with
  | fetching f =>
    have hfetch := f.effort_le setup c c'
    simp only [wake, effort]
    omega
  | done more => cases more <;> simp only [wake, effort] <;> omega
  | _ => simp only [wake, effort]; omega

theorem One.effort_le {t : Target} (setup : Setup) (c c' : Cursor) (o : One t) :
    o.effort setup c' ≤ o.effort setup c + 12 ∧ o.wake.effort setup c' ≤ o.effort setup c + 12 := by
  cases o with
  | advancing n =>
    have hn := n.effort_le setup c c'
    simp only [wake, effort]
    omega
  | _ => simp only [wake, effort]; omega

theorem All.effort_le {t : Target} (setup : Setup) (c c' : Cursor) (a : All t) :
    a.effort setup c' ≤ a.effort setup c + 12 ∧ a.wake.effort setup c' ≤ a.effort setup c + 12 := by
  cases a with
  | advancing got spare n =>
    have hn := n.effort_le setup c c'
    simp only [wake, effort]
    omega
  | _ => simp only [wake, effort]; omega

theorem NextItem.effort_le {t : Target} (setup : Setup) (c c' : Cursor) (i : NextItem t) :
    i.effort setup c' ≤ i.effort setup c + 12 ∧ i.wake.effort setup c' ≤ i.effort setup c + 12 := by
  cases i with
  | advancing n =>
    have hn := n.effort_le setup c c'
    simp only [wake, effort]
    omega
  | judge => simp only [wake, effort]; omega
  | done item => rcases item with _ | _ | _ <;> simp only [wake, effort] <;> omega

-- A turn of another activity adds little to the effort left in an operation, even if it wakes
-- it.
theorem Call.effort_le (setup : Setup) (c c' : Cursor) (call : Call) :
    call.effort setup c' ≤ call.effort setup c + 12 ∧
      call.wake.effort setup c' ≤ call.effort setup c + 12 := by
  cases call with
  | next n => exact n.effort_le setup c c'
  | one o => exact o.effort_le setup c c'
  | all a => exact a.effort_le setup c c'
  | item i => exact i.effort_le setup c c'
  | close x => exact ⟨Nat.le_add_right _ _, Nat.le_add_right _ _⟩
  | extend f =>
    have hf := f.effort_le setup c c'
    simp only [wake, effort]
    omega

/-! ## 4. Turns of an operation -/

/-- The effort left after a turn of an activity: in the activity, in the queues and in the fetches
that the turn has scheduled. -/
def Turn.effort {σ : Type} (setup : Setup) (measure : Cursor → σ → Nat) (turn : Turn σ) : Nat :=
  measure turn.cursor turn.next + turn.cursor.stock setup + 40 * turn.events.countP Event.schedules

-- The measure of an activity inside another one carries over, up to what comes after it.
theorem Turn.effort_map_le {σ τ : Type} (setup : Setup) {inner : Cursor → σ → Nat}
    {outer : Cursor → τ → Nat} {f : σ → τ} (extra : Nat) (turn : Turn σ)
    (h : ∀ c x, outer c (f x) ≤ inner c x + extra) :
    (turn.map f).effort setup outer ≤ turn.effort setup inner + extra := by
  have hnext := h turn.cursor turn.next
  simp only [effort, map]
  omega

theorem Cursor.countP_schedule_le (setup : Setup) (c : Cursor) :
    (c.schedule setup).countP Event.schedules ≤ 1 := by
  unfold schedule
  split
  · exact Nat.le_refl 1
  · exact Nat.zero_le 1

theorem Cursor.stock_accept_le (setup : Setup) (c : Cursor) (reply : Reply) :
    (c.accept reply).openGate.stock setup ≤ c.stock setup + setup.stock reply.texts := by
  cases hclosed : c.closed with
  | true =>
    rw [accept_of_closed hclosed]
    exact Nat.le_add_right _ _
  | false =>
    apply Nat.le_of_eq
    rw [stock, stock, batches_openGate, toList_batches_accept hclosed, Setup.stock_append,
      rows_openGate, rows_accept, ← Nat.add_assoc]

theorem Cursor.lookEffort_of_not_canContinue (h : c.canContinue = false) : c.lookEffort = 8 := by
  rw [lookEffort, h]
  rfl

theorem Fetch.Steps.effort_lt {f : Fetch} {turn : Turn Fetch} (h : Steps setup c f turn) :
    turn.effort setup (Fetch.effort setup) < f.effort setup c + c.stock setup := by
  cases h with
  | refused hgate =>
    -- With the gate held an advance sleeps next, or finds that there is nothing to wait for.
    have hrecheck : c.recheckEffort ≤ 8 := by
      unfold Cursor.recheckEffort
      split
      next => omega
      next hawake =>
        have hopen : c.canContinue = false := by
          rw [hgate] at hawake
          unfold Cursor.canContinue
          revert hawake
          cases c.closed <;> cases c.error? <;> simp
        exact Nat.le_of_eq (Cursor.lookEffort_of_not_canContinue hopen)
    simp only [Turn.effort, effort, Cursor.effortAfter, List.countP_nil]
    omega
  | passed hgate =>
    simp only [Turn.effort, effort, Cursor.stock, List.countP_nil]
    split <;> omega
  | goesOn hopen =>
    simp only [Turn.effort, effort, hopen, List.countP_nil, reduceIte]
    omega
  | turnsBack hopen =>
    have hlook : c.openGate.recheckEffort = 8 := Cursor.lookEffort_of_not_canContinue hopen
    have hstock : c.openGate.stock setup = c.stock setup := rfl
    simp only [Turn.effort, effort, Cursor.effortAfter, hopen, hlook, hstock, List.countP_nil,
      Bool.false_eq_true, reduceIte]
    omega
  | asks =>
    have hcount : [Event.logged .requesting, .sent .more].countP Event.schedules = 0 := rfl
    simp only [Turn.effort, effort, hcount]
    omega
  | adds reply =>
    have hstock := c.stock_accept_le setup reply
    have hlook := (c.accept reply).openGate.lookEffort_bounds
    simp only [Turn.effort, effort, Cursor.effortAfter, List.countP_nil]
    split <;> omega
  | fails e =>
    have hstock : (c.record e).openGate.stock setup = c.stock setup := rfl
    have hcount : [Event.logged (.continueFailed e)].countP Event.schedules = 0 := rfl
    simp only [Turn.effort, effort, Cursor.effortAfter, hstock, hcount, Bool.false_eq_true,
      reduceIte]
    omega
  | tells outcome low =>
    have hcount : [Event.notified].countP Event.schedules = 0 := rfl
    cases low <;> simp [Turn.effort, effort, hcount]
  | looksAhead outcome =>
    have hcount := c.countP_schedule_le setup
    simp only [Turn.effort, effort]
    omega

theorem Close.Steps.effort_lt (setup : Setup) {close : Close} {turn : Turn Close}
    (h : Steps c close turn) :
    turn.effort setup (fun _ => Close.effort) < close.effort + c.stock setup := by
  cases h with
  | again | marks | stops => simp [Turn.effort, effort, Cursor.stock, Event.schedules]
  | tells finished r => cases finished <;> simp [Turn.effort, effort, Event.schedules]
  | releases r stopError line => cases r <;> simp [Turn.effort, effort, Event.schedules]

namespace Next

variable {t : Target} {slot : t.Slot} {n : Next t} {turn : Turn (Next t)}

theorem effort_receive_le (setup : Setup) (c : Cursor) (slot : t.Slot) (row : Datum) :
    (receive slot row).effort setup c ≤ 14 := by
  unfold receive
  split <;> simp only [effort] <;> omega

theorem Looks.effort_lt (h : Looks setup c slot turn) :
    turn.effort setup (Next.effort setup) < c.lookEffort + c.stock setup := by
  have hlook := c.lookEffort_bounds
  cases h with
  | @row row rows hpop =>
    -- The row pays for the advance that comes after it and for the fetch that it may schedule.
    have hnext := effort_receive_le setup { c with rows } slot row
    have hcount := c.countP_schedule_le setup
    have hrows : c.stock setup = 64 + Cursor.stock setup { c with rows } := by
      simp only [Cursor.stock, Queue.toList_of_pop?_eq_some hpop, List.length_cons]
      omega
    simp only [Turn.effort]
    split
    next => omega
    next => simp only [List.countP_nil]; omega
  | @batch text batches rows hempty hpop hread =>
    have hlookEffort : Cursor.lookEffort { c with batches } = c.lookEffort := rfl
    have hbatches := Queue.toList_of_pop?_eq_some hpop
    simp only [Turn.effort, effort, hlookEffort, Cursor.stock, hbatches, Setup.stock_cons,
      Setup.rowsOf_eq hread, List.countP_nil]
    omega
  | @badBatch text batches e hempty hpop hread =>
    have hbatches := Queue.toList_of_pop?_eq_some hpop
    simp only [Turn.effort, effort, Cursor.stock, hbatches, Setup.stock_cons, List.countP_nil]
    omega
  | error | closed =>
    simp only [Turn.effort, effort, List.countP_nil]
    omega
  | finished =>
    simp only [Turn.effort, effort, Close.effort, List.countP_nil]
    omega
  | fetch hrows hbatches hopen =>
    have hlookEffort : c.lookEffort = 12 := by rw [Cursor.lookEffort, hopen]; rfl
    simp only [Turn.effort, effort, Fetch.effort, List.countP_nil]
    omega

-- What is left to an advance that looks for a row is what is left in what it sees.
theorem effort_of_sight? {sight : Cursor} (h : n.phase.sight? c = some sight) :
    n.effort setup c + c.stock setup = sight.lookEffort + sight.stock setup := by
  obtain ⟨slot, phase⟩ := n
  cases phase with
  | look => cases h; rfl
  | recheck =>
    simp only [Phase.sight?] at h
    split at h
    next => cases h
    next hawake =>
      cases h
      simp only [effort, Cursor.recheckEffort, if_neg hawake]
  | refill rows =>
    cases h
    have hlook : Cursor.lookEffort { c with rows := c.rows.pushAll rows } = c.lookEffort := rfl
    simp only [effort, hlook, Cursor.stock, Queue.toList_pushAll, List.length_append]
    omega
  | _ => cases h

theorem effort_ofFetch (setup : Setup) (slot : t.Slot) (c : Cursor) (f : Fetch) :
    (⟨slot, .ofFetch f⟩ : Next t).effort setup c = f.effort setup c := by
  rcases f with _ | _ | _ | _ | _ | _ | _ | (_ | _ | _) | _ <;> rfl

theorem effort_ofClose_le (setup : Setup) (slot : t.Slot) (c : Cursor) (close : Close) :
    (⟨slot, .ofClose close⟩ : Next t).effort setup c ≤ close.effort + 1 := by
  cases close <;> simp [effort, Phase.ofClose, Close.effort]

theorem Steps.effort_lt (h : Steps setup c n turn) :
    turn.effort setup (Next.effort setup) < n.effort setup c + c.stock setup := by
  cases h with
  | enters slot hopen =>
    have hlook := c.lookEffort_bounds
    simp only [Turn.effort, effort, List.countP_nil]
    omega
  | ends slot hclosed =>
    simp only [Turn.effort, effort, List.countP_nil]
    omega
  | @looks slot phase sight turn hsight hlooks =>
    rw [effort_of_sight? (n := ⟨slot, phase⟩) hsight]
    exact hlooks.effort_lt
  | sleeps slot hgate herror hopen =>
    simp only [Turn.effort, effort, Cursor.recheckEffort, hgate, herror, hopen, List.countP_nil]
    simp
  | @fetches slot f turn hstep =>
    have hfetch := hstep.effort_lt
    have hmap := turn.effort_map_le setup 0 fun c f => Nat.le_of_eq (effort_ofFetch setup slot c f)
    exact Nat.lt_of_le_of_lt hmap hfetch
  | records slot e =>
    have hstock : (c.record e).stock setup = c.stock setup := rfl
    have hcount : [Event.logged (.failed e)].countP Event.schedules = 0 := rfl
    simp only [Turn.effort, effort, Close.effort, hstock, hcount]
    omega
  | @closes slot close turn hstep =>
    have hclose := hstep.effort_lt setup
    have hmap := turn.effort_map_le setup 1 (effort_ofClose_le setup slot)
    simp only [effort]
    omega

end Next

section

variable {t : Target}

theorem One.effort_ofNext_le (setup : Setup) (c : Cursor) (n : Next t) :
    (ofNext n).effort setup c ≤ n.effort setup c + 8 := by
  unfold ofNext
  split
  · simp only [effort]
    omega
  · exact Nat.le_refl _

theorem One.effort_ofClose_le (setup : Setup) (slot : t.Slot) (verdict : Verdict) (c : Cursor)
    (close : Close) : (ofClose slot verdict close).effort setup c ≤ close.effort + 1 := by
  cases close <;> simp [effort, ofClose, Close.effort]

theorem One.effort_step_lt {o : One t} {turn : Turn (One t)} (h : o.step setup c = some turn) :
    turn.effort setup (One.effort setup) < o.effort setup c + c.stock setup := by
  cases o with
  | look slot =>
    cases h
    simp only [Turn.effort, List.countP_nil]
    split <;> simp only [effort, Close.effort, Next.effort, Next.start] <;> omega
  | advancing n =>
    obtain ⟨turn, hstep, rfl⟩ := Option.map_eq_some_iff.mp h
    have hnext := (Next.steps_of_step hstep).effort_lt
    have hmap := turn.effort_map_le setup 8 (effort_ofNext_le setup)
    simp only [effort]
    omega
  | judge slot more =>
    cases h
    simp only [Turn.effort, effort, Close.effort, List.countP_nil]
    omega
  | closing slot verdict close =>
    obtain ⟨turn, hstep, rfl⟩ := Option.map_eq_some_iff.mp h
    have hclose := (Close.steps_of_step hstep).effort_lt setup
    have hmap := turn.effort_map_le setup 1 (effort_ofClose_le setup slot verdict)
    simp only [effort]
    omega
  | done => cases h

theorem All.effort_ofNext_le (setup : Setup) (got spare : List t.Slot) (c : Cursor) (n : Next t) :
    (ofNext got spare n).effort setup c ≤ n.effort setup c + 8 := by
  obtain ⟨slot, phase⟩ := n
  cases phase with
  | done more =>
    cases more with
    | true => cases spare <;> simp [ofNext, start, effort, Next.start, Next.effort, Next.result?]
    | false => simp [ofNext, effort, Next.effort, Next.result?]
  | _ => exact Nat.le_refl _

theorem All.effort_ofClose_le (setup : Setup) (got : List t.Slot) (verdict : Verdict) (c : Cursor)
    (close : Close) : (ofClose got verdict close).effort setup c ≤ close.effort + 1 := by
  cases close <;> simp [effort, ofClose, Close.effort]

theorem All.effort_step_lt {a : All t} {turn : Turn (All t)} (h : a.step setup c = some turn) :
    turn.effort setup (All.effort setup) < a.effort setup c + c.stock setup := by
  cases a with
  | advancing got spare n =>
    obtain ⟨turn, hstep, rfl⟩ := Option.map_eq_some_iff.mp h
    have hnext := (Next.steps_of_step hstep).effort_lt
    have hmap := turn.effort_map_le setup 8 (effort_ofNext_le setup got spare)
    simp only [effort]
    omega
  | judge got =>
    cases h
    simp only [Turn.effort, effort, Close.effort, List.countP_nil]
    omega
  | closing got verdict close =>
    obtain ⟨turn, hstep, rfl⟩ := Option.map_eq_some_iff.mp h
    have hclose := (Close.steps_of_step hstep).effort_lt setup
    have hmap := turn.effort_map_le setup 1 (effort_ofClose_le setup got verdict)
    simp only [effort]
    omega
  | done => cases h

theorem NextItem.effort_ofNext_le (setup : Setup) (c : Cursor) (n : Next t) :
    (ofNext n).effort setup c ≤ n.effort setup c + 3 := by
  obtain ⟨slot, phase⟩ := n
  cases phase with
  | done more => cases more <;> simp [ofNext, effort, Next.effort, Next.result?]
  | _ => exact Nat.le_refl _

theorem NextItem.effort_step_lt {i : NextItem t} {turn : Turn (NextItem t)}
    (h : i.step setup c = some turn) :
    turn.effort setup (NextItem.effort setup) < i.effort setup c + c.stock setup := by
  cases i with
  | advancing n =>
    obtain ⟨turn, hstep, rfl⟩ := Option.map_eq_some_iff.mp h
    have hnext := (Next.steps_of_step hstep).effort_lt
    have hmap := turn.effort_map_le setup 3 (effort_ofNext_le setup)
    simp only [effort]
    omega
  | judge =>
    cases h
    cases herror : c.error? <;> simp [Turn.effort, effort]
  | done => cases h

-- Each turn of an operation takes effort away, also after those that it schedules.
theorem Call.effort_step_lt {call : Call} {turn : Turn Call} (h : call.step setup c = some turn) :
    turn.effort setup (Call.effort setup) < call.effort setup c + c.stock setup := by
  cases call with
  | next n =>
    obtain ⟨turn, hstep, rfl⟩ := Option.map_eq_some_iff.mp h
    exact (Next.steps_of_step hstep).effort_lt
  | one o =>
    obtain ⟨turn, hstep, rfl⟩ := Option.map_eq_some_iff.mp h
    exact One.effort_step_lt hstep
  | all a =>
    obtain ⟨turn, hstep, rfl⟩ := Option.map_eq_some_iff.mp h
    exact All.effort_step_lt hstep
  | item i =>
    obtain ⟨turn, hstep, rfl⟩ := Option.map_eq_some_iff.mp h
    exact NextItem.effort_step_lt hstep
  | close x =>
    obtain ⟨turn, hstep, rfl⟩ := Option.map_eq_some_iff.mp h
    exact (Close.steps_of_step hstep).effort_lt setup
  | extend f =>
    obtain ⟨turn, hstep, rfl⟩ := Option.map_eq_some_iff.mp h
    have hfetch := (Fetch.steps_of_step hstep).effort_lt
    have hmap := turn.effort_map_le setup 6 fun c f => Nat.le_refl ((extend f).effort setup c)
    simp only [effort]
    omega

end

/-! ## 5. Turns of a task -/

theorem Task.effort_ofFetch (setup : Setup) (f : Fetch) :
    (ofFetch f).effort setup = (running f).effort setup := by
  cases f with
  | done outcome => cases outcome <;> rfl
  | _ => rfl

theorem Fetch.Steps.task_effort_lt {f : Fetch} {turn : Turn Fetch} (h : Steps setup c f turn) :
    turn.effort setup (fun _ f => (Task.running f).effort setup) + 12 <
      (Task.running f).effort setup + c.stock setup := by
  cases h with
  | refused hgate | passed hgate | goesOn hopen =>
    simp only [Turn.effort, Task.effort, Task.reportEffort, Cursor.stock, List.countP_nil]
    omega
  | turnsBack hopen =>
    have hstock : c.openGate.stock setup = c.stock setup := rfl
    simp only [Turn.effort, Task.effort, Task.reportEffort, hstock, List.countP_nil,
      Bool.false_eq_true, reduceIte]
    omega
  | asks =>
    have hcount : [Event.logged .requesting, .sent .more].countP Event.schedules = 0 := rfl
    simp only [Turn.effort, Task.effort, hcount]
    omega
  | adds reply =>
    have hstock := c.stock_accept_le setup reply
    simp only [Turn.effort, Task.effort, Task.reportEffort, List.countP_nil]
    split <;> omega
  | fails e =>
    have hstock : (c.record e).openGate.stock setup = c.stock setup := rfl
    have hcount : [Event.logged (.continueFailed e)].countP Event.schedules = 0 := rfl
    simp only [Turn.effort, Task.effort, Task.reportEffort, hstock, hcount, Bool.false_eq_true,
      reduceIte]
    omega
  | tells outcome low =>
    have hcount : [Event.notified].countP Event.schedules = 0 := rfl
    cases low <;> simp [Turn.effort, Task.effort, hcount] <;> omega
  | looksAhead outcome =>
    have hcount := c.countP_schedule_le setup
    simp only [Turn.effort, Task.effort]
    omega

-- Each turn of a task takes away more effort than it adds to the operation under way.
theorem Task.Steps.effort_lt {task : Task} {turn : Turn Task} (h : Steps setup c task turn) :
    turn.effort setup (fun _ => Task.effort setup) + 12 < task.effort setup + c.stock setup := by
  cases h with
  | @fetches f turn hstep =>
    have hfetch := hstep.task_effort_lt
    have hmap : (turn.map ofFetch).effort setup (fun _ => Task.effort setup) ≤ _ :=
      turn.effort_map_le setup 0 fun _ f => Nat.le_of_eq (effort_ofFetch setup f)
    exact Nat.lt_of_le_of_lt (Nat.add_le_add_right hmap 12) hfetch
  | notices =>
    have hstock (e : Error) : (c.record e).openGate.stock setup = c.stock setup := rfl
    simp only [Turn.effort, effort, hstock, List.countP_nil]
    omega
  | reports e =>
    have hcount : [Event.logged (.backgroundFailed e)].countP Event.schedules = 0 := rfl
    simp only [Turn.effort, effort, hcount]
    omega
  | tells =>
    have hcount : [Event.notified].countP Event.schedules = 0 := rfl
    simp only [Turn.effort, effort, hcount]
    omega

/-! ## 6. Answers -/

theorem Fetch.effort_answer_lt (setup : Setup) (c : Cursor) {f : Fetch} {kind : Query.Kind}
    (h : f.awaits? = some kind) (a : Answer) :
    (f.answer a).effort setup c < f.effort setup c + a.effort setup := by
  cases f with
  | waiting => cases a <;> simp only [answer, effort, Answer.effort] <;> omega
  | _ => cases h

theorem Task.effort_answer_lt (setup : Setup) {task : Task} {kind : Query.Kind}
    (h : task.awaits? = some kind) (a : Answer) :
    (task.answer a).effort setup < task.effort setup + a.effort setup := by
  cases task with
  | running f =>
    cases f with
    | waiting => cases a <;> simp only [answer, Fetch.answer, effort, Answer.effort] <;> omega
    | _ => cases h
  | failed | wake | done => cases h

theorem Close.effort_answer_lt {close : Close} {kind : Query.Kind}
    (h : close.awaits? = some kind) (a : Answer) : (close.answer a).effort < close.effort := by
  cases close with
  | waiting r => cases a <;> simp only [answer, effort] <;> omega
  | _ => cases h

theorem Next.effort_answer_lt {t : Target} (setup : Setup) (c : Cursor) {n : Next t}
    {kind : Query.Kind} (h : n.awaits? = some kind) (a : Answer) :
    (n.answer a).effort setup c <
      n.effort setup c + if kind = .more then a.effort setup else 0 := by
  obtain ⟨slot, phase⟩ := n
  cases phase with
  | fetching f =>
    have hf := f.effort_answer_lt setup c h a
    cases f with
    | waiting => cases h; exact hf
    | _ => cases h
  | closing close =>
    have hclose := close.effort_answer_lt h a
    simp only [answer, effort]
    omega
  | _ => cases h

-- Taking back an answer takes effort away, from the answer if it brings more rows.
theorem Call.effort_answer_lt (setup : Setup) (c : Cursor) {call : Call} {kind : Query.Kind}
    (h : call.awaits? = some kind) (a : Answer) :
    (call.answer a).effort setup c <
      call.effort setup c + if kind = .more then a.effort setup else 0 := by
  cases call with
  | next n => exact n.effort_answer_lt setup c h a
  | one o =>
    cases o with
    | advancing n =>
      have hn := n.effort_answer_lt setup c h a
      simp only [answer, One.answer, effort, One.effort]
      omega
    | closing slot verdict close =>
      have hclose := close.effort_answer_lt h a
      simp only [answer, One.answer, effort, One.effort]
      omega
    | _ => cases h
  | all x =>
    cases x with
    | advancing got spare n =>
      have hn := n.effort_answer_lt setup c h a
      simp only [answer, All.answer, effort, All.effort]
      omega
    | closing got verdict close =>
      have hclose := close.effort_answer_lt h a
      simp only [answer, All.answer, effort, All.effort]
      omega
    | _ => cases h
  | item i =>
    cases i with
    | advancing n =>
      have hn := n.effort_answer_lt setup c h a
      simp only [answer, NextItem.answer, effort, NextItem.effort]
      omega
    | _ => cases h
  | close x =>
    have hclose := x.effort_answer_lt h a
    simp only [answer, effort]
    omega
  | extend f =>
    have hf := f.effort_answer_lt setup c h a
    cases f with
    | waiting =>
      cases h
      simp only [answer, effort, reduceIte]
      omega
    | _ => cases h

/-! ## 7. Steps of a world -/

namespace World

theorem sum_scheduled (setup : Setup) (tasks : List Task) (n : Nat) :
    ((tasks ++ List.replicate n Task.scheduled).map (Task.effort setup)).sum =
      (tasks.map (Task.effort setup)).sum + 40 * n := by
  rw [List.map_append, List.sum_append, List.map_replicate, List.sum_replicate_nat, Nat.mul_comm]
  rfl

theorem sum_split (before later : List Task) (task : Task) :
    ((before ++ task :: later).map (Task.effort setup)).sum =
      task.effort setup + ((before ++ later).map (Task.effort setup)).sum := by
  simp only [List.map_append, List.map_cons, List.sum_append, List.sum_cons]
  omega

-- Each step of a world with one operation under way takes effort away, if the caller goes on only
-- from results that have more effort left than the next operation needs.
theorem effort_lt_of_step {schedule : Schedule} {habit : Call → Operation → Prop} {w w' : World}
    {call : Call} (hcalls : w.system.calls = [call])
    (hhabit : ∀ call op c, habit call op → op.begin.effort setup c < call.effort setup c)
    (h : Step setup schedule habit w w') : w'.effort setup < w.effort setup := by
  obtain ⟨⟨c, calls, tasks⟩, answers, stop, results⟩ := w
  cases hcalls
  cases turns_of_step h with
  | @call turn hstep =>
    have hturn := Call.effort_step_lt hstep
    have hsum := sum_scheduled setup tasks (turn.events.countP Event.schedules)
    simp only [Turn.effort] at hturn
    simp only [effort, hsum, List.map_singleton, List.sum_singleton]
    omega
  | @task before later task turn hadmits htasks hstep =>
    -- The operation under way may be woken and look again, which the turn of the task pays for.
    have hturn := (Task.steps_of_step hstep).effort_lt
    have hcall := call.effort_le setup c turn.cursor
    simp only [Turn.effort] at hturn
    simp only [effort, System.after, htasks, sum_scheduled, sum_split, List.map_singleton,
      List.sum_singleton]
    split <;> simp only [List.map_singleton, List.sum_singleton] <;> omega
  | @answerCall a rest hawaits hanswers =>
    have hcall := call.effort_answer_lt setup c hawaits a
    rw [if_pos rfl] at hcall
    simp only [effort, hanswers, List.map_cons, List.map_nil, List.sum_cons, List.sum_nil]
    omega
  | @answerTask before later task kind a rest htasks hawaits hanswers =>
    have htask := task.effort_answer_lt setup hawaits a
    simp only [effort, htasks, hanswers, sum_split, List.map_cons, List.sum_cons]
    omega
  | stopped hawaits =>
    -- The answer to a stop query is not one of those that are used up.
    have hcall := call.effort_answer_lt setup c hawaits stop
    rw [if_neg (by decide)] at hcall
    simp only [effort, List.map_singleton, List.sum_singleton]
    omega
  | @again op hdone hgoes =>
    have hop := hhabit call op c hgoes
    simp only [effort, List.map_singleton, List.sum_singleton]
    omega

end World
end RowStream
