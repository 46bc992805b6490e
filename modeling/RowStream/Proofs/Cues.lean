import RowStream.Proofs.Counting
import RowStream.Proofs.Finished
import RowStream.Proofs.Waiting

/-!
# Cues to fetch ahead

The stock of batches is looked at when a reply is added and when a row is taken, and a fetch in the
background is scheduled if one batch is left.  From such a cue on somebody fetches until the next
reply comes in; without one nobody begins to, unless more fetches were under way than the one that
brought the last reply.
-/

namespace RowStream

variable {setup : Setup} {c c' : Cursor} {s s' start : System} {stages : List Stage} {move : Move}
  {happenings : List Happening} {t : Target} {f? f'? : Option Fetch} {events : List Event}
  {found? : Option Bool}

/-! ## 1. Looks at the stock -/

/-- Whether an advance takes a row in its next step. -/
def Next.takesRow (c : Cursor) (n : Next t) : Bool :=
  (n.phase.sight? c).any fun sight => !sight.rows.isEmpty

/-- Whether an operation takes a row in its next step. -/
def Call.takesRow (c : Cursor) (call : Call) : Bool :=
  match call.reading? with
  | some ⟨_, n⟩ => n.takesRow c
  | none => false

/-- Whether a row is taken. -/
def Stage.takesRow (stage : Stage) : Bool :=
  match stage.move with
  | .call place => (stage.before.calls[place]?.map (Call.takesRow stage.before.cursor)).getD false
  | _ => false

/-- Whether the stock is down to one batch when it is looked at: after a reply that is added, or
else when a row is taken.  A look that finds another number of batches counts only after a reply. -/
def Cursor.cue? (c : Cursor) (accepted? : Option Reply) (takes : Bool) : Option Bool :=
  match accepted? with
  | some reply => some (c.batches.size + reply.texts.length == 1)
  | none => if takes && c.batches.size == 1 then some true else none

/-- Whether the stock is down to one batch when it is looked at in a stage. -/
def Stage.cue? (stage : Stage) : Option Bool :=
  stage.before.cursor.cue? stage.accepted? stage.takesRow

/-- The last that the stages of a run say, or a default. -/
def lastSaid {α : Type} (says? : Stage → Option α) (default : α) (stages : List Stage) : α :=
  ((stages.filterMap says?).getLast?).getD default

/-- Whether the stock has been found down to one batch by the last reply or after it. -/
def cued (stages : List Stage) : Bool := lastSaid Stage.cue? false stages

theorem lastSaid_concat {α : Type} (says? : Stage → Option α) (default : α) (stages : List Stage)
    (stage : Stage) : lastSaid says? default (stages ++ [stage]) =
      (says? stage).getD (lastSaid says? default stages) := by
  rw [lastSaid, List.filterMap_append]
  cases h : says? stage <;> simp [h, lastSaid]

theorem cued_concat (stages : List Stage) (stage : Stage) :
    cued (stages ++ [stage]) = stage.cue?.getD (cued stages) := lastSaid_concat ..

-- A stage without a look takes no reply in, and no row with one batch left.
theorem Cursor.of_cue?_eq_none {accepted? : Option Reply} {takes : Bool}
    (h : c.cue? accepted? takes = none) :
    accepted? = none ∧ (c.batches.size = 1 → takes = false) := by
  cases accepted? with
  | some reply => cases h
  | none =>
    refine ⟨rfl, fun hsize => ?_⟩
    cases takes with
    | false => rfl
    | true =>
      rw [cue?, hsize] at h
      cases h

theorem Stage.accepted?_of_cue?_eq_none {stage : Stage} (h : stage.cue? = none) :
    stage.accepted? = none := (Cursor.of_cue?_eq_none h).1

theorem Stage.takes_of_cue? {stage : Stage} {found : Bool} (hstill : stage.accepted? = none)
    (h : stage.cue? = some found) :
    found = true ∧ stage.takesRow = true ∧ stage.before.cursor.batches.size = 1 := by
  rw [cue?, hstill, Cursor.cue?] at h
  split at h
  next hlow =>
    cases h
    rw [Bool.and_eq_true, beq_iff_eq] at hlow
    exact ⟨rfl, hlow⟩
  next => cases h

/-! ## 2. The turns of operations in an advance -/

theorem Call.wraps_of_reading? {call : Call} {n : Next t} (h : call.reading? = some ⟨t, n⟩) :
    ∃ wrap : Next t → Call,
      (∀ setup c, call.step setup c = (n.step setup c).map (Turn.map wrap)) ∧
        call.fetch? = n.fetch? ∧ ∀ m : Next t, (wrap m).fetch? = m.fetch? ∧
          (m.result? = none → (wrap m).reading? = some ⟨t, m⟩) := by
  cases call with
  | next n => cases h; exact ⟨.next, fun _ _ => rfl, rfl, fun m => ⟨rfl, fun _ => rfl⟩⟩
  | one o =>
    cases o with
    | advancing n =>
      cases h
      refine ⟨fun m => .one (.ofNext m), fun _ _ => Option.map_map .., rfl, fun m =>
        ⟨One.fetch?_ofNext m, fun hresult => ?_⟩⟩
      obtain ⟨slot, phase⟩ := m
      cases phase <;> first | rfl | cases hresult
    | _ => cases h
  | all a =>
    cases a with
    | advancing got spare n =>
      cases h
      refine ⟨fun m => .all (.ofNext got spare m), fun _ _ => Option.map_map .., rfl, fun m =>
        ⟨All.fetch?_ofNext got spare m, fun hresult => ?_⟩⟩
      obtain ⟨slot, phase⟩ := m
      cases phase <;> first | rfl | cases hresult
    | _ => cases h
  | item i =>
    cases i with
    | advancing n =>
      cases h
      refine ⟨fun m => .item (.ofNext m), fun _ _ => Option.map_map .., rfl, fun m =>
        ⟨NextItem.fetch?_ofNext m, fun hresult => ?_⟩⟩
      obtain ⟨slot, phase⟩ := m
      cases phase <;> first | rfl | cases hresult
    | _ => cases h
  | close | extend => cases h

/-- The turns of an operation: it is in an advance, which takes the turn and is the one that the
operation is in afterwards unless it has ended; or it closes the cursor, adds a reply or looks
around. -/
inductive Call.Works (setup : Setup) (c : Cursor) (call : Call) (turn : Turn Call) : Prop
  | advances {t : Target} {n : Next t} {inner : Turn (Next t)}
    (hreading : call.reading? = some ⟨t, n⟩)
    (hstep : Next.Steps setup c n inner) (hfetch : call.fetch? = n.fetch?)
    (hnextFetch : turn.next.fetch? = inner.next.fetch?)
    (hnext : inner.next.result? = none → turn.next.reading? = some ⟨t, inner.next⟩)
    (hcursor : turn.cursor = inner.cursor) (hevents : turn.events = inner.events)
  | closes {x : Close} {inner : Turn Close} (hreading : call.reading? = none)
    (hstep : Close.Steps c x inner) (hfetch : call.fetch? = none)
    (hnextFetch : turn.next.fetch? = none)
    (hcursor : turn.cursor = inner.cursor) (hevents : turn.events = inner.events)
  | adds {f : Fetch} {inner : Turn Fetch} (hreading : call.reading? = none)
    (hstep : Fetch.Steps setup c f inner) (hfetch : call.fetch? = some f)
    (hnextFetch : turn.next.fetch? = some inner.next)
    (hcursor : turn.cursor = inner.cursor) (hevents : turn.events = inner.events)
  | judges (hreading : call.reading? = none) (hfetch : call.fetch? = none)
    (hnextFetch : turn.next.fetch? = none) (hcursor : turn.cursor = c) (hevents : turn.events = [])

theorem Call.works_of_step {call : Call} {turn : Turn Call} (h : call.step setup c = some turn) :
    Works setup c call turn := by
  cases hreading : call.reading? with
  | some a =>
    obtain ⟨t, n⟩ := a
    obtain ⟨wrap, hwrap, hfetch, hwrapped⟩ := wraps_of_reading? hreading
    rw [hwrap] at h
    obtain ⟨inner, hinner, rfl⟩ := Option.map_eq_some_iff.mp h
    obtain ⟨hnextFetch, hnext⟩ := hwrapped inner.next
    exact .advances hreading (Next.steps_of_step hinner) hfetch hnextFetch hnext rfl rfl
  | none =>
    cases call with
    | next n => cases hreading
    | one o =>
      obtain ⟨middle, hmiddle, rfl⟩ := Option.map_eq_some_iff.mp h
      cases o with
      | look slot =>
        cases hmiddle
        refine .judges rfl rfl ?_ rfl rfl
        simp only [Turn.map]
        split <;> rfl
      | advancing n => cases hreading
      | judge slot more => cases hmiddle; exact .judges rfl rfl rfl rfl rfl
      | closing slot verdict x =>
        obtain ⟨inner, hinner, rfl⟩ := Option.map_eq_some_iff.mp hmiddle
        exact .closes rfl (Close.steps_of_step hinner) rfl (One.fetch?_ofClose ..) rfl rfl
      | done => cases hmiddle
    | all a =>
      obtain ⟨middle, hmiddle, rfl⟩ := Option.map_eq_some_iff.mp h
      cases a with
      | advancing got spare n => cases hreading
      | judge got => cases hmiddle; exact .judges rfl rfl rfl rfl rfl
      | closing got verdict x =>
        obtain ⟨inner, hinner, rfl⟩ := Option.map_eq_some_iff.mp hmiddle
        exact .closes rfl (Close.steps_of_step hinner) rfl (All.fetch?_ofClose ..) rfl rfl
      | done => cases hmiddle
    | item i =>
      obtain ⟨middle, hmiddle, rfl⟩ := Option.map_eq_some_iff.mp h
      cases i with
      | advancing n => cases hreading
      | judge => cases hmiddle; exact .judges rfl rfl rfl rfl rfl
      | done => cases hmiddle
    | close x =>
      obtain ⟨inner, hinner, rfl⟩ := Option.map_eq_some_iff.mp h
      exact .closes rfl (Close.steps_of_step hinner) rfl rfl rfl rfl
    | extend f =>
      obtain ⟨inner, hinner, rfl⟩ := Option.map_eq_some_iff.mp h
      exact .adds rfl (Fetch.steps_of_step hinner) rfl rfl rfl rfl

/-! ## 3. Fetches under way -/

/-- Whether a fetch has yet to ask for more rows, or to take in what came of it, or to schedule
another fetch. -/
def Fetch.underWay : Fetch → Bool
  | claim | check | send | waiting | fold _ | aborted | wake _ true | ahead _ => true
  | _ => false

/-- Whether a fetch has taken in a reply and has yet to schedule another fetch. -/
def Fetch.lingers : Fetch → Bool
  | wake _ true | ahead _ => true
  | _ => false

/-- How many fetches are under way. -/
def System.underWay (s : System) : Nat := s.counting Fetch.underWay Fetch.underWay

/-! ## 4. What a turn does to them -/

/-- What a turn of an activity in a fetch, or in none, has to do with what is found in the stock. -/
structure CueTurn (setup : Setup) (c : Cursor) (f? f'? : Option Fetch) (c' : Cursor)
    (events : List Event) (found? : Option Bool) : Prop where
  /-- After a cue, or from a fetch under way, there is a fetch under way, or the gate is held. -/
  heard (hopen : c'.canContinue = true)
    (hfound : found?.getD (0 < Fetch.count Fetch.underWay f? : Bool) = true) :
    0 < Fetch.count Fetch.underWay f'? + events.countP Event.schedules ∨ c'.fetching = true
  /-- After a reply that leaves another number of batches, no fetch is under way for it. -/
  unheard (hfound : found? = some false) :
    Fetch.count Fetch.underWay f'? = 0 ∧ events.countP Event.schedules = 0
  /-- Without a look at the stock, no fetch is scheduled but by one that lingers. -/
  quiet (hfound : found? = none) (hlingers : Fetch.count Fetch.lingers f? = 0) :
    Fetch.count Fetch.lingers f'? = 0 ∧ events.countP Event.schedules = 0

section

variable {found : Bool}

theorem CueTurn.seen
    (hheard : c'.canContinue = true → found = true →
      0 < Fetch.count Fetch.underWay f'? + events.countP Event.schedules ∨ c'.fetching = true)
    (hunheard : found = false →
      Fetch.count Fetch.underWay f'? = 0 ∧ events.countP Event.schedules = 0) :
    CueTurn setup c f? f'? c' events (some found) where
  heard := hheard
  unheard h := hunheard (Option.some.inj h)
  quiet h := by cases h

theorem CueTurn.unseen
    (hheard : c'.canContinue = true → 0 < Fetch.count Fetch.underWay f? →
      0 < Fetch.count Fetch.underWay f'? + events.countP Event.schedules ∨ c'.fetching = true)
    (hquiet : Fetch.count Fetch.lingers f? = 0 →
      Fetch.count Fetch.lingers f'? = 0 ∧ events.countP Event.schedules = 0) :
    CueTurn setup c f? f'? c' events none where
  heard hopen h := hheard hopen (of_decide_eq_true h)
  unheard h := by cases h
  quiet _ := hquiet

-- Nobody has to fetch any more.
theorem CueTurn.stopped (hstops : c'.canContinue = false)
    (hlingers : Fetch.count Fetch.lingers f'? = 0)
    (hschedules : events.countP Event.schedules = 0) :
    CueTurn setup c f? f'? c' events none :=
  .unseen (fun hopen _ => absurd (hstops.symm.trans hopen) Bool.false_ne_true)
    fun _ => ⟨hlingers, hschedules⟩

-- An activity in no fetch, which takes no row with one batch left and schedules nothing.
theorem CueTurn.idle (hlingers : Fetch.count Fetch.lingers f'? = 0)
    (hschedules : events.countP Event.schedules = 0) :
    CueTurn setup c none f'? c' events none :=
  .unseen (fun _ h => absurd h (Nat.lt_irrefl 0)) fun _ => ⟨hlingers, hschedules⟩

end

theorem Cursor.schedule_or_held (hprefetch : setup.options.prefetch = true) (c : Cursor) :
    0 < (c.schedule setup).countP Event.schedules ∨ c.fetching = true := by
  cases hgate : c.fetching with
  | true => exact .inr rfl
  | false =>
    refine .inl ?_
    rw [schedule, hprefetch, hgate]
    exact Nat.one_pos

theorem Cursor.runsLow_of_canContinue (hopen : c.canContinue = true) :
    c.runsLow = (c.batches.size == 1) := by
  obtain ⟨hclosed, hfinished, -⟩ := canContinue_eq_true_iff.mp hopen
  rw [runsLow, hclosed, hfinished, Bool.not_false, Bool.and_true, Bool.and_true]

theorem Cursor.not_canContinue_record (c : Cursor) (e : Error) :
    (c.record e).canContinue = false := by
  refine canContinue_of_error fun hnone => ?_
  rw [error?_record, Option.or_eq_none_iff] at hnone
  cases hnone.2

theorem Cursor.not_runsLow_of_size (hsize : (c.batches.size == 1) = false) : c.runsLow = false := by
  rw [runsLow, hsize, Bool.false_and, Bool.false_and]

theorem Cursor.not_runsLow_of_closed (hclosed : c.closed = true) : c.runsLow = false := by
  rw [runsLow, hclosed, Bool.not_true, Bool.and_false, Bool.false_and]

theorem Fetch.Steps.cueTurn (hprefetch : setup.options.prefetch = true) {f : Fetch}
    {turn : Turn Fetch} (h : Steps setup c f turn) :
    CueTurn setup c (some f) (some turn.next) turn.cursor turn.events
      (c.cue? (f.accepts? c) false) := by
  have hnone (hbrings : f.brings? = none) : c.cue? (f.accepts? c) false = none := by
    rw [accepts?_of_brings?_eq_none hbrings]
    rfl
  have hsize := h.size_batches
  cases h with
  | refused hgate =>
    rw [hnone rfl]
    exact .unseen (fun _ _ => .inr hgate) fun _ => ⟨rfl, rfl⟩
  | passed | goesOn | asks =>
    rw [hnone rfl]
    exact .unseen (fun _ _ => .inl Nat.one_pos) fun _ => ⟨rfl, rfl⟩
  | turnsBack hstops =>
    rw [hnone rfl]
    exact .stopped hstops rfl rfl
  | fails e =>
    rw [hnone rfl]
    exact .stopped (c.not_canContinue_record e) rfl rfl
  | tells outcome low =>
    rw [hnone rfl]
    cases low with
    | true =>
      exact .unseen (fun _ _ => .inl Nat.one_pos) fun hlingers => absurd hlingers Nat.one_ne_zero
    | false => exact .unseen (fun _ h => absurd h (Nat.lt_irrefl 0)) fun _ => ⟨rfl, rfl⟩
  | looksAhead outcome =>
    rw [hnone rfl]
    exact .unseen (fun _ _ => (c.schedule_or_held hprefetch).imp_left (Nat.lt_add_left _))
      fun hlingers => absurd hlingers Nat.one_ne_zero
  | adds reply =>
    cases hclosed : c.closed with
    | true =>
      -- A closed cursor takes no reply in, and nothing is scheduled for it.
      have hlow : c.openGate.runsLow = false := Cursor.not_runsLow_of_closed hclosed
      rw [accepts?, if_pos hclosed, Cursor.accept_of_closed hclosed, hlow]
      exact .stopped (Cursor.canContinue_of_closed (c := c.openGate) hclosed) rfl rfl
    | false =>
      rw [accepts?_fold_of_open reply hclosed] at hsize ⊢
      change (c.accept reply).openGate.batches.size = c.batches.size + reply.texts.length at hsize
      refine .seen (fun hopen hfound => .inl ?_) fun hfound => ?_
      · have hlow : (c.accept reply).openGate.runsLow = true := by
          rw [Cursor.runsLow_of_canContinue hopen, hsize]
          exact hfound
        dsimp only
        rw [hlow]
        exact Nat.one_pos
      · have hlow : (c.accept reply).openGate.runsLow = false :=
          Cursor.not_runsLow_of_size (hsize ▸ hfound)
        dsimp only
        rw [hlow]
        exact ⟨rfl, rfl⟩

theorem CueTurn.congr_next {f''? : Option Fetch} (h : CueTurn setup c f? f'? c' events found?)
    (hcount : ∀ counts, (∀ outcome, counts (.done outcome) = false) →
      Fetch.count counts f''? = Fetch.count counts f'?) :
    CueTurn setup c f? f''? c' events found? where
  heard := by
    rw [hcount _ fun _ => rfl]
    exact h.heard
  unheard := by
    rw [hcount _ fun _ => rfl]
    exact h.unheard
  quiet := by
    rw [hcount _ fun _ => rfl]
    exact h.quiet

theorem Next.Looks.cueTurn (hprefetch : setup.options.prefetch = true) {sight : Cursor}
    {slot : t.Slot} {turn : Turn (Next t)} (h : Looks setup sight slot turn)
    (hbatches : sight.batches = c.batches) :
    CueTurn setup c none turn.next.fetch? turn.cursor turn.events
      (c.cue? none (!sight.rows.isEmpty)) := by
  have hempty (hrows : sight.rows.toList = []) : c.cue? none (!sight.rows.isEmpty) = none := by
    rw [Queue.isEmpty, Queue.size_eq_length, hrows]
    rfl
  cases h with
  | @row row rows hpop =>
    have hfetch : (receive slot row).fetch? = none := by
      unfold receive
      split <;> rfl
    have hcue : c.cue? none (!sight.rows.isEmpty) =
        if sight.batches.size == 1 then some true else none := by
      rw [Queue.isEmpty, Queue.size_eq_length, Queue.toList_of_pop?_eq_some hpop, hbatches]
      rfl
    rw [hcue, hfetch]
    dsimp only
    cases hsize : sight.batches.size == 1 with
    | true =>
      refine .seen (fun hopen _ => ?_) fun hfound => by cases hfound
      have hlow : sight.runsLow = true :=
        (Cursor.runsLow_of_canContinue (c := sight) hopen).trans hsize
      rw [hlow, if_pos rfl]
      exact (sight.schedule_or_held hprefetch).imp_left (Nat.lt_add_left _)
    | false =>
      rw [Cursor.not_runsLow_of_size hsize]
      exact .idle rfl rfl
  | batch hrows => rw [hempty hrows]; exact .idle rfl rfl
  | badBatch hrows => rw [hempty hrows]; exact .idle rfl rfl
  | error hrows => rw [hempty hrows]; exact .idle rfl rfl
  | finished hrows => rw [hempty hrows]; exact .idle rfl rfl
  | closed hrows => rw [hempty hrows]; exact .idle rfl rfl
  | fetch hrows => rw [hempty hrows]; exact .idle rfl rfl

theorem Next.takesRow_of_sight {n : Next t} {sight : Cursor} (h : n.phase.sight? c = some sight) :
    n.takesRow c = !sight.rows.isEmpty := by
  rw [takesRow, h]
  rfl

theorem Next.Steps.cueTurn (hprefetch : setup.options.prefetch = true) {n : Next t}
    {turn : Turn (Next t)} (h : Steps setup c n turn) :
    CueTurn setup c n.fetch? turn.next.fetch? turn.cursor turn.events
      (c.cue? (n.fetch?.bind (Fetch.accepts? c)) (n.takesRow c)) := by
  cases h with
  | @looks slot phase sight turn hsight hlooks =>
    obtain ⟨-, hbatches, hfetch⟩ := sight?_account (n := ⟨slot, phase⟩) hsight
    rw [hfetch, takesRow_of_sight (n := ⟨slot, phase⟩) hsight]
    exact hlooks.cueTurn hprefetch hbatches
  | @fetches slot f turn hstep =>
    refine (hstep.cueTurn hprefetch).congr_next fun counts hdone => ?_
    simp only [Turn.map, fetch?_ofFetch]
    cases turn.next with
    | done outcome =>
      show 0 = (counts (.done outcome)).toNat
      rw [hdone]
      rfl
    | _ => rfl
  | @closes slot close turn hstep =>
    refine .idle ?_ hstep.countP_schedules
    simp only [Turn.map]
    cases turn.next <;> rfl
  | sleeps slot hgate herror hopen =>
    have htakes : (⟨slot, .recheck⟩ : Next t).takesRow c = false := by
      simp [takesRow, Phase.sight?, hgate, herror, hopen]
    rw [htakes]
    refine .idle ?_ ?_ <;> rfl
  | enters | ends | records => refine .idle ?_ ?_ <;> rfl

theorem Call.Works.cueTurn (hprefetch : setup.options.prefetch = true) {call : Call}
    {turn : Turn Call} (h : Works setup c call turn) :
    CueTurn setup c call.fetch? turn.next.fetch? turn.cursor turn.events
      (c.cue? (call.fetch?.bind (Fetch.accepts? c)) (call.takesRow c)) := by
  cases h with
  | advances hreading hstep hfetch hnextFetch hnext hcursor hevents =>
    rw [takesRow, hreading, hfetch, hnextFetch, hcursor, hevents]
    exact hstep.cueTurn hprefetch
  | closes hreading hstep hfetch hnextFetch hcursor hevents =>
    rw [takesRow, hreading, hfetch, hnextFetch, hcursor, hevents]
    exact .idle rfl hstep.countP_schedules
  | adds hreading hstep hfetch hnextFetch hcursor hevents =>
    rw [takesRow, hreading, hfetch, hnextFetch, hcursor, hevents]
    exact hstep.cueTurn hprefetch
  | judges hreading hfetch hnextFetch hcursor hevents =>
    rw [takesRow, hreading, hfetch, hnextFetch, hcursor, hevents]
    exact .idle rfl rfl

/-- The turn of a task.  Without a look at the stock a task that is not in a fetch under way does
not begin one. -/
theorem Task.Steps.cueTurn (hprefetch : setup.options.prefetch = true) {task : Task}
    {turn : Turn Task} (h : Steps setup c task turn) :
    CueTurn setup c task.fetch? turn.next.fetch? turn.cursor turn.events
        (c.cue? (task.fetch?.bind (Fetch.accepts? c)) false) ∧
      (Fetch.count Fetch.underWay task.fetch? = 0 →
        Fetch.count Fetch.underWay turn.next.fetch? = 0 ∧
          turn.events.countP Event.schedules = 0) := by
  cases h with
  | @fetches f turn hstep =>
    constructor
    · refine (hstep.cueTurn hprefetch).congr_next fun counts hdone => ?_
      simp only [Turn.map]
      cases turn.next with
      | done outcome =>
        rw [Task.fetch?_ofFetch_done]
        show 0 = (counts (.done outcome)).toNat
        rw [hdone]
        rfl
      | _ => rfl
    · intro hover
      cases hstep with
      | tells outcome low =>
        cases low with
        | true => cases hover
        | false => exact ⟨congrArg _ (Task.fetch?_ofFetch_done outcome), rfl⟩
      | _ => cases hover
  | notices =>
    have hnone : Fetch.accepts? c .aborted = none := Fetch.accepts?_of_brings?_eq_none rfl
    show CueTurn _ _ _ _ _ _ (c.cue? (Fetch.accepts? c .aborted) false) ∧ _
    rw [hnone]
    exact ⟨.stopped (c.not_canContinue_record _) rfl rfl,
      fun hover => absurd hover Nat.one_ne_zero⟩
  | reports | tells => exact ⟨.idle rfl rfl, fun _ => ⟨rfl, rfl⟩⟩

/-! ## 5. Moves -/

namespace System

theorem canContinue_of_move (hmove : s.move? setup move = some (s', happenings))
    (hstill : (Stage.mk s move happenings).accepted? = none)
    (hopen : s'.cursor.canContinue = true) : s.cursor.canContinue = true := by
  rw [Cursor.canContinue_eq_true_iff] at hopen ⊢
  obtain ⟨hclosed, hfinished, herror⟩ := hopen
  rw [finished_of_move hmove, hstill] at hfinished
  refine ⟨?_, hfinished, ?_⟩
  · refine Bool.eq_false_iff.mpr fun h => ?_
    cases hclosed.symm.trans (closed_of_move hmove h)
  · refine Option.eq_none_iff_forall_ne_some.mpr fun e h => ?_
    cases herror.symm.trans (error?_of_move hmove h)

end System

theorem Stage.accepted?_call {place : Nat} {call : Call} (hcall : s.calls[place]? = some call)
    (happenings : List Happening) : (Stage.mk s (.call place) happenings).accepted? =
      call.fetch?.bind (Fetch.accepts? s.cursor) := by
  rw [accepted?, System.turning?, hcall]
  rfl

theorem Stage.accepted?_task {place : Nat} {task : Task} (htask : s.tasks[place]? = some task)
    (happenings : List Happening) : (Stage.mk s (.task place) happenings).accepted? =
      task.fetch?.bind (Fetch.accepts? s.cursor) := by
  rw [accepted?, System.turning?, htask]
  rfl

theorem Stage.cue?_call {place : Nat} {call : Call} (hcall : s.calls[place]? = some call)
    (happenings : List Happening) : (Stage.mk s (.call place) happenings).cue? =
      s.cursor.cue? (call.fetch?.bind (Fetch.accepts? s.cursor)) (call.takesRow s.cursor) := by
  rw [cue?, accepted?_call hcall]
  simp only [takesRow, hcall]
  rfl

theorem Stage.cue?_task {place : Nat} {task : Task} (htask : s.tasks[place]? = some task)
    (happenings : List Happening) : (Stage.mk s (.task place) happenings).cue? =
      s.cursor.cue? (task.fetch?.bind (Fetch.accepts? s.cursor)) false := by
  rw [cue?, accepted?_task htask]
  rfl

/-! ### After a cue -/

theorem CueTurn.underWay (h : CueTurn setup c f? f'? c' events found?)
    (hopen : c'.canContinue = true) {rest before after : Nat}
    (hbefore : before = rest + Fetch.count Fetch.underWay f?)
    (hafter : after = rest + Fetch.count Fetch.underWay f'? + events.countP Event.schedules)
    (hfound : found?.getD (0 < before : Bool) = true) : 0 < after ∨ c'.fetching = true := by
  by_cases hrest : 0 < rest
  · exact .inl (by omega)
  · have hown : before = Fetch.count Fetch.underWay f? := by omega
    rw [hown] at hfound
    exact (h.heard hopen hfound).imp_left fun hpos => by omega

namespace System

theorem underWay_of_move (hprefetch : setup.options.prefetch = true)
    (hunbroken : ∀ call ∈ s.calls, call.fetch? ≠ some .aborted)
    (hmove : s.move? setup move = some (s', happenings)) (hopen : s'.cursor.canContinue = true)
    (hfound : (Stage.mk s move happenings).cue?.getD (0 < s.underWay : Bool) = true) :
    0 < s'.underWay ∨ s'.cursor.fetching = true := by
  cases counts_of_move hmove with
  | begins op hcursor hcount =>
    have hpos : 0 < s.underWay := of_decide_eq_true hfound
    have hmore : s'.underWay = s.underWay + _ := hcount _ _
    exact .inl (by omega)
  | call hcall hstep hcursor hcount =>
    obtain ⟨rest, hbefore, hafter⟩ := hcount Fetch.underWay Fetch.underWay rfl
    rw [Stage.cue?_call hcall] at hfound
    rw [hcursor] at hopen ⊢
    exact ((Call.works_of_step hstep).cueTurn hprefetch).underWay hopen hbefore hafter hfound
  | answerCall hcursor hcount =>
    have hpos : 0 < s.underWay := of_decide_eq_true hfound
    obtain ⟨rest, hbefore, hafter⟩ := hcount Fetch.underWay Fetch.underWay
    rw [Fetch.count_answer rfl (fun _ => rfl) rfl, ← hbefore] at hafter
    exact .inl (hpos.trans_eq hafter.symm)
  | @collect place call hmem hended hcursor hcount =>
    have hpos : 0 < s.underWay := of_decide_eq_true hfound
    have hless : s.underWay = s'.underWay + Fetch.count Fetch.underWay call.fetch? := hcount _ _
    have hnone : Fetch.count Fetch.underWay call.fetch? = 0 := by
      cases hf : call.fetch? with
      | none => rfl
      | some f =>
        obtain ⟨outcome, rfl⟩ := Call.done_of_ended hended (hunbroken call hmem) hf
        rfl
    exact .inl (by omega)
  | task htask hstep hcursor hcount =>
    obtain ⟨rest, hbefore, hafter⟩ := hcount Fetch.underWay Fetch.underWay rfl
    rw [Stage.cue?_task htask] at hfound
    rw [hcursor] at hopen ⊢
    exact ((Task.steps_of_step hstep).cueTurn hprefetch).1.underWay hopen hbefore hafter hfound
  | answerTask hcursor hcount =>
    have hpos : 0 < s.underWay := of_decide_eq_true hfound
    obtain ⟨rest, hbefore, hafter⟩ := hcount Fetch.underWay Fetch.underWay
    rw [Fetch.count_answer rfl (fun _ => rfl) rfl, ← hbefore] at hafter
    exact .inl (hpos.trans_eq hafter.symm)

theorem underWay_of_holding {a : Activity} (h : 0 < a.weight .holding s) : 0 < s.underWay := by
  have hcount {f : Fetch} (hholds : f.holds = true) : f.underWay = true := by
    cases f with
    | check | send | waiting | fold | aborted => rfl
    | claim | wake | ahead | done => cases hholds
  cases a with
  | call place =>
    obtain ⟨own, hcall, hweight⟩ := Activity.call_of_weight h
    obtain ⟨f, hf, hholds⟩ := Fetch.of_count_holds hweight
    obtain ⟨before, later, hcalls⟩ := List.append_of_mem (List.mem_of_getElem? hcall)
    rw [underWay, counting_call hcalls, Call.fetch?_of_asking? hf]
    refine Nat.lt_add_left _ ?_
    show 0 < f.underWay.toNat
    rw [hcount hholds]
    exact Nat.one_pos
  | task place =>
    obtain ⟨own, htask, hweight⟩ := Activity.task_of_weight h
    obtain ⟨f, hf, hholds⟩ := Fetch.of_count_holds hweight
    obtain ⟨before, later, htasks⟩ := List.append_of_mem (List.mem_of_getElem? htask)
    rw [underWay, counting_task htasks, hf]
    refine Nat.lt_add_left _ ?_
    show 0 < f.underWay.toNat
    rw [hcount hholds]
    exact Nat.one_pos

end System

/-- As long as a cursor can continue, somebody fetches if the stock was down to one batch when it
was last looked at. -/
theorem Run.underWay_of_cued {release : Bool} (hrun : Run setup (.opened release) stages s)
    (hprefetch : setup.options.prefetch = true) (hkept : ∀ stage ∈ stages, ¬ stage.BreaksCall)
    (hopen : s.cursor.canContinue = true) (hcued : cued stages = true) : 0 < s.underWay := by
  induction hrun with
  | nil => cases hcued
  | @snoc stages s s' move happenings hrun hmove ih =>
    have hattended := (hrun.snoc hmove).attended hkept
    simp only [List.mem_append, List.mem_singleton] at hkept
    have hbefore := hrun.attended fun stage hstage => hkept stage (.inl hstage)
    have hfound : (Stage.mk s move happenings).cue?.getD (0 < s.underWay : Bool) = true := by
      rw [cued_concat] at hcued
      cases hcue : (Stage.mk s move happenings).cue? with
      | some found => rwa [hcue] at hcued
      | none =>
        rw [hcue] at hcued
        have hstill := System.canContinue_of_move hmove (Stage.accepted?_of_cue?_eq_none hcue) hopen
        exact decide_eq_true (ih (fun stage hstage => hkept stage (.inl hstage)) hstill hcued)
    rcases System.underWay_of_move hprefetch hbefore.unbroken hmove hopen hfound with hpos | hshut
    · exact hpos
    · obtain ⟨a, hholds⟩ := hattended.held hshut
      exact System.underWay_of_holding hholds

/-! ### Without a cue -/

/-- No task is in a fetch under way, and no operation in one that lingers. -/
def System.Calm (s : System) : Prop := s.counting Fetch.lingers Fetch.underWay = 0

/-- Whether no other fetch is under way when a reply comes in. -/
def Stage.alone? (stage : Stage) : Option Bool :=
  stage.accepted?.map fun _ => stage.before.underWay == 1

/-- Whether no other fetch was under way when the last reply came in. -/
def cameAlone (stages : List Stage) : Bool := lastSaid Stage.alone? true stages

theorem cameAlone_concat (stages : List Stage) (stage : Stage) :
    cameAlone (stages ++ [stage]) = stage.alone?.getD (cameAlone stages) := lastSaid_concat ..

theorem Fetch.count_lingers_le (f? : Option Fetch) : count lingers f? ≤ count underWay f? := by
  cases f? with
  | none => exact Nat.le_refl 0
  | some f =>
    cases f with
    | wake outcome low => cases low <;> exact Nat.le_refl _
    | ahead | done => exact Nat.le_refl _
    | claim | check | send | waiting | fold | aborted => exact Nat.zero_le 1

theorem Fetch.count_underWay_of_accepts {reply : Reply}
    (h : f?.bind (accepts? c) = some reply) : count underWay f? = 1 := by
  obtain ⟨f, rfl, haccepts⟩ := Option.bind_eq_some_iff.mp h
  cases f with
  | fold => rfl
  | _ => cases (accepts?_of_brings?_eq_none (c := c) rfl).symm.trans haccepts

namespace System

theorem calm_of_underWay_eq_zero (h : s.underWay = 0) : s.Calm := by
  have hle : s.counting Fetch.lingers Fetch.underWay ≤ s.underWay :=
    Nat.add_le_add_right (List.sum_le_sum fun call _ => Fetch.count_lingers_le call.fetch?) _
  exact Nat.le_zero.mp (h ▸ hle)

-- The one fetch that was under way has brought a reply that leaves another number of batches.
theorem calm_of_unheard {rest : Nat} (h : CueTurn setup c f? f'? c' events found?)
    (hbefore : s.underWay = rest + Fetch.count Fetch.underWay f?)
    (hafter : s'.underWay =
      rest + Fetch.count Fetch.underWay f'? + events.countP Event.schedules)
    {reply : Reply} (haccepts : f?.bind (Fetch.accepts? c) = some reply)
    (halone : s.underWay = 1) (hfound : found? = some false) : s'.Calm := by
  obtain ⟨hover, hquiet⟩ := h.unheard hfound
  have hone := Fetch.count_underWay_of_accepts haccepts
  exact calm_of_underWay_eq_zero (by omega)

theorem calm_of_reply (hprefetch : setup.options.prefetch = true)
    (hmove : s.move? setup move = some (s', happenings)) {reply : Reply}
    (haccepted : (Stage.mk s move happenings).accepted? = some reply) (halone : s.underWay = 1)
    (hfound : (Stage.mk s move happenings).cue? = some false) : s'.Calm := by
  cases counts_of_move hmove with
  | @call place call turn hcall hstep hcursor hcount =>
    obtain ⟨rest, hbefore, hafter⟩ := hcount Fetch.underWay Fetch.underWay rfl
    rw [Stage.cue?_call hcall] at hfound
    rw [Stage.accepted?_call hcall] at haccepted
    exact calm_of_unheard ((Call.works_of_step hstep).cueTurn hprefetch) hbefore hafter haccepted
      halone hfound
  | @task place task turn htask hstep hcursor hcount =>
    obtain ⟨rest, hbefore, hafter⟩ := hcount Fetch.underWay Fetch.underWay rfl
    rw [Stage.cue?_task htask] at hfound
    rw [Stage.accepted?_task htask] at haccepted
    exact calm_of_unheard ((Task.steps_of_step hstep).cueTurn hprefetch).1 hbefore hafter haccepted
      halone hfound
  | begins | answerCall | collect | answerTask => cases haccepted

theorem Calm.step (h : s.Calm) (hprefetch : setup.options.prefetch = true)
    (hmove : s.move? setup move = some (s', happenings))
    (hfound : (Stage.mk s move happenings).cue? = none) : s'.Calm := by
  unfold Calm at h ⊢
  cases counts_of_move hmove with
  | begins op hcursor hcount =>
    have hbegin : Fetch.count Fetch.lingers op.begin.fetch? = 0 := by
      rcases op.fetch?_begin_eq with hnone | ⟨reply, hextend⟩
      · rw [hnone]
        rfl
      · rw [hextend]
        rfl
    rw [hcount, h, hbegin]
  | call hcall hstep hcursor hcount =>
    obtain ⟨rest, hbefore, hafter⟩ := hcount Fetch.lingers Fetch.underWay rfl
    rw [Stage.cue?_call hcall] at hfound
    have hquiet := ((Call.works_of_step hstep).cueTurn hprefetch).quiet hfound (by omega)
    omega
  | @answerCall place call kind a hcursor hcount =>
    obtain ⟨rest, hbefore, hafter⟩ := hcount Fetch.lingers Fetch.underWay
    have hanswer : Fetch.count Fetch.lingers (call.fetch?.map (Fetch.answer a)) =
        Fetch.count Fetch.lingers call.fetch? := by
      cases call.fetch? with
      | none => rfl
      | some f =>
        cases f with
        | waiting => cases a <;> rfl
        | _ => rfl
    omega
  | collect hmem hended hcursor hcount =>
    have hless := hcount Fetch.lingers Fetch.underWay
    omega
  | task htask hstep hcursor hcount =>
    obtain ⟨rest, hbefore, hafter⟩ := hcount Fetch.lingers Fetch.underWay rfl
    have hquiet := ((Task.steps_of_step hstep).cueTurn hprefetch).2 (by omega)
    omega
  | answerTask hcursor hcount =>
    obtain ⟨rest, hbefore, hafter⟩ := hcount Fetch.lingers Fetch.underWay
    rw [Fetch.count_answer rfl (fun _ => rfl) rfl] at hafter
    omega

end System

/-- Nobody fetches ahead if the stock was not down to one batch when the last reply came in or after
it, unless somebody did when it came in. -/
theorem Run.calm {release : Bool} (hrun : Run setup (.opened release) stages s)
    (hprefetch : setup.options.prefetch = true) (hcued : cued stages = false)
    (halone : cameAlone stages = true) : s.Calm := by
  induction hrun with
  | nil => rfl
  | @snoc stages s s' move happenings hrun hmove ih =>
    rw [cued_concat] at hcued
    rw [cameAlone_concat] at halone
    cases hcue : (Stage.mk s move happenings).cue? with
    | none =>
      rw [hcue] at hcued
      rw [Stage.alone?, Stage.accepted?_of_cue?_eq_none hcue] at halone
      exact (ih hcued halone).step hprefetch hmove hcue
    | some found =>
      rw [hcue] at hcued
      obtain rfl : found = false := hcued
      cases haccepted : (Stage.mk s move happenings).accepted? with
      | some reply =>
        rw [Stage.alone?, haccepted] at halone
        exact System.calm_of_reply hprefetch hmove haccepted (eq_of_beq halone) hcue
      | none =>
        -- Taking a row says nothing but that one batch is left.
        cases (Stage.takes_of_cue? haccepted hcue).1

end RowStream
