import Mathlib.Algebra.Ring.Nat
import RowStream.Proofs.Closed
import RowStream.Proofs.Gate

/-!
# Asking for more rows

A query for more rows is sent by a fetch that has looked at the cursor one turn before.  As long as
the cursor cannot continue no further fetch decides to ask, and what is sent then is what was about
to be sent.
-/

namespace RowStream

variable {setup : Setup} {c c' : Cursor} {s s' start : System} {stages : List Stage} {move : Move}
  {happenings : List Happening} {t : Target} {f? f'? : Option Fetch} {events : List Event}

/-! ## 1. The turns of fetches -/

/-- What a turn of an activity has to do with the fetch that the activity is in, before and after:
the fetch takes the turn, or its breakdown is noticed, or there is none, and perhaps one is about to
begin. -/
inductive FetchTurn (setup : Setup) (c : Cursor) :
    Option Fetch → Option Fetch → Cursor → List Event → Prop
  | apart {f? : Option Fetch} {c' : Cursor} {events : List Event}
    (hafter : f? = none ∨ f? = some .claim) (hgate : c'.fetching = c.fetching)
    (hquiet : .sent .more ∉ events) : FetchTurn setup c none f? c' events
  | fetches {f : Fetch} {turn : Turn Fetch} {f? : Option Fetch} (hstep : Fetch.Steps setup c f turn)
    (hafter : f? = some turn.next ∨ f? = none ∧ ∃ outcome, turn.next = .done outcome) :
    FetchTurn setup c (some f) f? turn.cursor turn.events
  | notices :
    FetchTurn setup c (some .aborted) none
      (c.record (.connection (.fetchAborted setup.breakdown))).openGate []

theorem Cursor.sent_not_mem_schedule (c : Cursor) : .sent .more ∉ c.schedule setup := by
  unfold schedule
  split <;> simp

theorem Close.Steps.asks_not {x : Close} {turn : Turn Close} (h : Steps c x turn) :
    turn.cursor.fetching = c.fetching ∧ .sent .more ∉ turn.events := by
  cases h with
  | releases r stopError line => cases r <;> simp
  | again | marks | tells | stops => simp

theorem Next.Looks.fetchTurn {sight : Cursor} {slot : t.Slot} {turn : Turn (Next t)}
    (h : Looks setup sight slot turn) (hgate : sight.fetching = c.fetching) :
    FetchTurn setup c none turn.next.fetch? turn.cursor turn.events := by
  have hsame := h.unchanged.1.trans hgate
  cases h with
  | row hpop =>
    refine .apart (.inl ?_) hsame ?_
    · unfold receive
      split <;> rfl
    · show .sent .more ∉ if sight.runsLow then sight.schedule setup else []
      split
      · exact sight.sent_not_mem_schedule
      · exact List.not_mem_nil
  | fetch => exact .apart (.inr rfl) hsame List.not_mem_nil
  | batch | badBatch | error | finished | closed => exact .apart (.inl rfl) hsame List.not_mem_nil

theorem Next.Steps.fetchTurn {n : Next t} {turn : Turn (Next t)} (h : Steps setup c n turn) :
    FetchTurn setup c n.fetch? turn.next.fetch? turn.cursor turn.events := by
  cases h with
  | @looks slot phase sight turn hsight hlooks =>
    rw [(sight?_account (n := ⟨slot, phase⟩) hsight).2.2]
    exact hlooks.fetchTurn (sight?_unchanged hsight).1
  | @fetches slot f turn hstep =>
    refine .fetches hstep ?_
    simp only [Turn.map, fetch?_ofFetch]
    cases turn.next with
    | done outcome => exact .inr ⟨rfl, outcome, rfl⟩
    | _ => exact .inl rfl
  | @closes slot close turn hstep =>
    obtain ⟨hgate, hquiet⟩ := hstep.asks_not
    refine .apart (.inl ?_) hgate hquiet
    simp only [Turn.map]
    cases turn.next <;> rfl
  | enters | ends | sleeps => exact .apart (.inl rfl) rfl List.not_mem_nil
  | records => exact .apart (.inl rfl) rfl (by simp)

theorem Call.Steps.fetchTurn {call : Call} {turn : Turn Call} (h : Steps setup c call turn) :
    FetchTurn setup c call.fetch? turn.next.fetch? turn.cursor turn.events := by
  cases h with
  | judges hfetch hnext hcursor hevents =>
    rw [hfetch, hnext, hcursor, hevents]
    exact .apart (.inl rfl) rfl List.not_mem_nil
  | advances hstep hfetch hnext hcursor hevents =>
    rw [hfetch, hnext, hcursor, hevents]
    exact hstep.fetchTurn
  | closes hstep hfetch hnext hcursor hevents =>
    obtain ⟨hgate, hquiet⟩ := hstep.asks_not
    rw [hfetch, hnext, hcursor, hevents]
    exact .apart (.inl rfl) hgate hquiet
  | fetches hstep hfetch hnext hcursor hevents =>
    rw [hfetch, hnext, hcursor, hevents]
    exact .fetches hstep (.inl rfl)

theorem Task.Steps.fetchTurn {task : Task} {turn : Turn Task} (h : Steps setup c task turn) :
    FetchTurn setup c task.fetch? turn.next.fetch? turn.cursor turn.events := by
  cases h with
  | @fetches f turn hstep =>
    refine .fetches hstep ?_
    simp only [Turn.map]
    cases turn.next with
    | done outcome => exact .inr ⟨Task.fetch?_ofFetch_done outcome, outcome, rfl⟩
    | _ => exact .inl rfl
  | notices => exact .notices
  | reports | tells => exact .apart (.inl rfl) rfl (by simp)

/-! ## 2. An activity takes the turn of its fetch -/

theorem Next.step_of_fetch? {n : Next t} {f : Fetch} {turn : Turn Fetch} (h : n.fetch? = some f)
    (hstep : f.step setup c = some turn) :
    ∃ next, n.step setup c = some ⟨turn.cursor, next, turn.events⟩ := by
  obtain ⟨slot, phase⟩ := n
  cases phase with
  | fetching f =>
    cases h
    exact ⟨_, congrArg (Option.map _) hstep⟩
  | _ => cases h

theorem Call.step_of_fetch? {call : Call} {f : Fetch} {turn : Turn Fetch}
    (h : call.fetch? = some f) (hstep : f.step setup c = some turn) :
    ∃ next, call.step setup c = some ⟨turn.cursor, next, turn.events⟩ := by
  cases call with
  | next n =>
    obtain ⟨next, hnext⟩ := Next.step_of_fetch? h hstep
    exact ⟨_, congrArg (Option.map (Turn.map Call.next)) hnext⟩
  | one o =>
    cases o with
    | advancing n =>
      obtain ⟨next, hnext⟩ := Next.step_of_fetch? h hstep
      exact ⟨_, congrArg (Option.map (Turn.map Call.one) ∘ Option.map (Turn.map One.ofNext)) hnext⟩
    | _ => cases h
  | all a =>
    cases a with
    | advancing got spare n =>
      obtain ⟨next, hnext⟩ := Next.step_of_fetch? h hstep
      exact ⟨_, congrArg (Option.map (Turn.map Call.all) ∘
        Option.map (Turn.map (All.ofNext got spare))) hnext⟩
    | _ => cases h
  | item i =>
    cases i with
    | advancing n =>
      obtain ⟨next, hnext⟩ := Next.step_of_fetch? h hstep
      exact ⟨_, congrArg (Option.map (Turn.map Call.item) ∘
        Option.map (Turn.map NextItem.ofNext)) hnext⟩
    | _ => cases h
  | close x => cases h
  | extend f =>
    cases h
    exact ⟨_, congrArg (Option.map (Turn.map Call.extend)) hstep⟩

theorem Task.step_of_fetch? {task : Task} {f : Fetch} {turn : Turn Fetch}
    (h : task.fetch? = some f) (hstep : f.step setup c = some turn) :
    ∃ next, task.step setup c = some ⟨turn.cursor, next, turn.events⟩ := by
  cases task with
  | running f =>
    cases h
    refine ⟨ofFetch turn.next, ?_⟩
    rw [step]
    · exact congrArg (Option.map (Turn.map ofFetch)) hstep
    · rintro rfl
      cases hstep
  | _ => cases h

/-! ## 3. Sums over what is under way -/

/-- What operations and fetches in the background count for.  It makes no difference whether an
operation sleeps, and a fetch that has just been scheduled counts for nothing. -/
structure Weight where
  ofCall : Call → Nat
  ofTask : Task → Nat
  ofCall_wake : ∀ call : Call, ofCall call.wake = ofCall call
  ofTask_scheduled : ofTask .scheduled = 0

/-- Operations and fetches in the background count for what the fetches in them count for. -/
def Weight.ofFetches (find : Call → Option Fetch) (hwake : ∀ call : Call, find call.wake = find call)
    (weigh : Fetch → Nat) (hclaim : weigh .claim = 0) : Weight where
  ofCall call := ((find call).map weigh).getD 0
  ofTask task := (task.fetch?.map weigh).getD 0
  ofCall_wake call := by rw [hwake]
  ofTask_scheduled := hclaim

namespace System

/-- The sum of what is under way. -/
def total (w : Weight) (s : System) : Nat := (s.calls.map w.ofCall).sum + (s.tasks.map w.ofTask).sum

/-- What a move does to the cursor and to sums over what is under way: one operation or one task
counts for something else afterwards. -/
inductive Shifts (setup : Setup) (s s' : System) : Move → List Happening → Prop
  | begins (op : Operation) (hcursor : s'.cursor = s.cursor)
    (htotal : ∀ w, s'.total w = s.total w + w.ofCall op.begin) :
    Shifts setup s s' (.begin op) [.began op]
  | call {place : Nat} {call : Call} {turn : Turn Call} (hcall : s.calls[place]? = some call)
    (hstep : call.step setup s.cursor = some turn) (hcursor : s'.cursor = turn.cursor)
    (htotal : ∀ w, s'.total w + w.ofCall call = s.total w + w.ofCall turn.next) :
    Shifts setup s s' (.call place) (turn.events.map .event)
  | answerCall {place : Nat} {call : Call} {kind : Query.Kind} {a : Answer}
    (hcall : s.calls[place]? = some call) (hcursor : s'.cursor = s.cursor)
    (htotal : ∀ w, s'.total w + w.ofCall call = s.total w + w.ofCall (call.answer a)) :
    Shifts setup s s' (.answerCall place a) [.answered kind a]
  | collect {place : Nat} {call : Call} (hended : (call.isDone || call.isAborted) = true)
    (hcursor : s'.cursor = s.cursor) (htotal : ∀ w, s'.total w + w.ofCall call = s.total w) :
    Shifts setup s s' (.collect place) [.collected call]
  | task {place : Nat} {task : Task} {turn : Turn Task} (htask : s.tasks[place]? = some task)
    (hstep : task.step setup s.cursor = some turn) (hcursor : s'.cursor = turn.cursor)
    (htotal : ∀ w, s'.total w + w.ofTask task = s.total w + w.ofTask turn.next) :
    Shifts setup s s' (.task place) (turn.events.map .event)
  | answerTask {place : Nat} {task : Task} {kind : Query.Kind} {a : Answer}
    (htask : s.tasks[place]? = some task) (hcursor : s'.cursor = s.cursor)
    (htotal : ∀ w, s'.total w + w.ofTask task = s.total w + w.ofTask (task.answer a)) :
    Shifts setup s s' (.answerTask place a) [.answered kind a]

theorem total_after (w : Weight) (c : Cursor) (calls : List Call) (tasks : List Task)
    (events : List Event) :
    (after c calls tasks events).total w = total w ⟨c, calls, tasks⟩ := by
  have hcalls : (after c calls tasks events).calls.map w.ofCall = calls.map w.ofCall := by
    unfold after
    split
    · rw [List.map_map]
      exact List.map_congr_left fun call _ => w.ofCall_wake call
    · rfl
  have htasks (k : Nat) :
      ((tasks ++ List.replicate k Task.scheduled).map w.ofTask).sum =
        (tasks.map w.ofTask).sum := by
    simp [w.ofTask_scheduled]
  rw [total, hcalls]
  exact congrArg (_ + ·) (htasks _)

theorem total_call {before later : List Call} {call : Call}
    (h : s.calls = before ++ call :: later) (w : Weight) :
    s.total w = total w ⟨s.cursor, before ++ later, s.tasks⟩ + w.ofCall call := by
  simp only [total, h, List.map_append, List.map_cons, List.sum_append, List.sum_cons]
  omega

theorem total_task {before later : List Task} {task : Task}
    (h : s.tasks = before ++ task :: later) (w : Weight) :
    s.total w = total w ⟨s.cursor, s.calls, before ++ later⟩ + w.ofTask task := by
  simp only [total, h, List.map_append, List.map_cons, List.sum_append, List.sum_cons]
  omega

theorem shifts_of_move (hmove : s.move? setup move = some (s', happenings)) :
    Shifts setup s s' move happenings := by
  cases move with
  | begin op =>
    cases hmove
    refine .begins op rfl fun w => ?_
    simp only [total, List.map_cons, List.sum_cons]
    omega
  | call place =>
    obtain ⟨before, call, later, turn, hcalls, rfl, hstep, rfl, rfl⟩ := move?_call hmove
    refine .call (getElem?_of_split hcalls) hstep rfl fun w => ?_
    rw [total_after, total_call hcalls,
      total_call (s := ⟨turn.cursor, before ++ turn.next :: later, s.tasks⟩) rfl]
    exact Nat.add_right_comm ..
  | answerCall place a =>
    obtain ⟨before, call, later, kind, hcalls, rfl, hawaits, rfl, rfl⟩ := move?_answerCall hmove
    refine .answerCall (getElem?_of_split hcalls) rfl fun w => ?_
    rw [total_call hcalls,
      total_call (s := ⟨s.cursor, before ++ call.answer a :: later, s.tasks⟩) rfl]
    exact Nat.add_right_comm ..
  | collect place =>
    obtain ⟨before, call, later, hcalls, rfl, hended, rfl, rfl⟩ := move?_collect hmove
    exact .collect hended rfl fun w => (total_call hcalls w).symm
  | task place =>
    obtain ⟨before, task, later, turn, htasks, rfl, hstep, rfl, rfl⟩ := move?_task hmove
    refine .task (getElem?_of_split htasks) hstep rfl fun w => ?_
    rw [total_after, total_task htasks,
      total_task (s := ⟨turn.cursor, s.calls, before ++ turn.next :: later⟩) rfl]
    exact Nat.add_right_comm ..
  | answerTask place a =>
    obtain ⟨before, task, later, kind, htasks, rfl, hawaits, rfl, rfl⟩ := move?_answerTask hmove
    refine .answerTask (getElem?_of_split htasks) rfl fun w => ?_
    rw [total_task htasks,
      total_task (s := ⟨s.cursor, s.calls, before ++ task.answer a :: later⟩) rfl]
    exact Nat.add_right_comm ..

end System

theorem Task.fetch?_answer (task : Task) (a : Answer) :
    (task.answer a).fetch? = task.fetch?.map (Fetch.answer a) := by
  cases task <;> rfl

theorem Operation.fetch?_begin_eq (op : Operation) :
    op.begin.fetch? = none ∨ ∃ reply, op.begin = .extend (.fold (.ok reply)) := by
  cases op with
  | extend reply => exact .inr ⟨reply, rfl⟩
  | all initial => cases initial <;> exact .inl rfl
  | item t ended => cases ended <;> exact .inl rfl
  | next | one | close => exact .inl rfl

/-! ## 4. Asking for more -/

/-- Whether a query for more rows goes out. -/
def Happening.asks : Happening → Bool
  | event (.sent .more) => true
  | _ => false

/-- How many queries for more rows have been sent. -/
def asked (stages : List Stage) : Nat := (happened stages).countP Happening.asks

theorem asked_concat (stages : List Stage) (stage : Stage) :
    asked (stages ++ [stage]) = asked stages + stage.happenings.countP Happening.asks := by
  rw [asked, happened_concat, List.countP_append]
  rfl

theorem asked_append (stages later : List Stage) :
    asked (stages ++ later) = asked stages + asked later := by
  rw [asked, happened_append, List.countP_append]
  rfl

theorem Happening.countP_asks_eq_zero (h : .sent .more ∉ events) :
    (events.map Happening.event).countP Happening.asks = 0 := by
  rw [List.countP_map, List.countP_eq_zero]
  intro event hevent hasks
  cases event with
  | sent kind =>
    cases kind with
    | more => exact h hevent
    | start | stop | noreplyWait => cases hasks
  | notified | scheduled | logged | released => cases hasks

/-- How many queries for more rows a fetch has decided to send and not sent. -/
def Fetch.sending : Fetch → Nat
  | send => 1
  | _ => 0

/-- How many queries for more rows are about to be sent. -/
def System.sending (s : System) : Nat :=
  (s.calls.map fun call => (call.fetch?.map Fetch.sending).getD 0).sum +
    (s.tasks.map fun task => (task.fetch?.map Fetch.sending).getD 0).sum

-- A query goes out in the turn of a fetch that has decided to send it.
theorem FetchTurn.asks_eq (h : FetchTurn setup c f? f'? c' events) :
    (events.map Happening.event).countP Happening.asks = (f?.map Fetch.sending).getD 0 := by
  cases h with
  | apart _ _ hquiet => exact Happening.countP_asks_eq_zero hquiet
  | fetches hstep =>
    cases hstep with
    | looksAhead => exact Happening.countP_asks_eq_zero c.sent_not_mem_schedule
    | _ => rfl
  | notices => rfl

-- On a cursor that cannot continue no fetch decides to ask.
theorem FetchTurn.asks (h : FetchTurn setup c f? f'? c' events) (hstuck : c.canContinue = false) :
    (events.map Happening.event).countP Happening.asks + (f'?.map Fetch.sending).getD 0 =
      (f?.map Fetch.sending).getD 0 := by
  rw [h.asks_eq]
  apply Nat.add_eq_left.mpr
  cases h with
  | apart hafter => rcases hafter with rfl | rfl <;> rfl
  | fetches hstep hafter =>
    rcases hafter with rfl | ⟨rfl, -⟩
    · cases hstep with
      | goesOn hopen =>
        rw [hstuck] at hopen
        cases hopen
      | tells outcome low => cases low <;> rfl
      | refused | passed | turnsBack | asks | adds | fails | looksAhead => rfl
    · rfl
  | notices => rfl

/-- What a fetch that is about to ask counts for. -/
def Weight.sending : Weight := .ofFetches Call.fetch? Call.fetch?_wake Fetch.sending rfl

theorem Fetch.sending_answer (f? : Option Fetch) (a : Answer) :
    ((f?.map (answer a)).map sending).getD 0 = (f?.map sending).getD 0 := by
  cases f? with
  | none => rfl
  | some f =>
    cases f with
    | waiting => cases a <;> rfl
    | _ => rfl

theorem Weight.sending_answer (call : Call) (a : Answer) :
    sending.ofCall (call.answer a) = sending.ofCall call := by
  show ((call.answer a).fetch?.map Fetch.sending).getD 0 = _
  rw [call.fetch?_answer]
  exact Fetch.sending_answer call.fetch? a

theorem Weight.sending_answerTask (task : Task) (a : Answer) :
    sending.ofTask (task.answer a) = sending.ofTask task := by
  show ((task.answer a).fetch?.map Fetch.sending).getD 0 = _
  rw [task.fetch?_answer]
  exact Fetch.sending_answer task.fetch? a

theorem System.asks_of_move (hmove : s.move? setup move = some (s', happenings))
    (hstuck : s.cursor.canContinue = false) :
    happenings.countP Happening.asks + s'.sending = s.sending := by
  show _ + s'.total .sending = s.total .sending
  cases shifts_of_move hmove with
  | begins op _ htotal =>
    have hnone : Weight.sending.ofCall op.begin = 0 := by
      show (op.begin.fetch?.map Fetch.sending).getD 0 = 0
      rcases op.fetch?_begin_eq with hnone | ⟨reply, hextend⟩
      · rw [hnone]
        rfl
      · rw [hextend]
        rfl
    rw [htotal, hnone]
    exact Nat.zero_add _
  | call _ hstep _ htotal =>
    have hasks : _ + Weight.sending.ofCall _ = Weight.sending.ofCall _ :=
      (Call.steps_of_step hstep).fetchTurn.asks hstuck
    have hsum := htotal .sending
    omega
  | @answerCall place call kind a _ _ htotal =>
    have hsame := Weight.sending_answer call a
    have hquiet : [Happening.answered kind a].countP Happening.asks = 0 := rfl
    have hsum := htotal .sending
    omega
  | @collect place call hended _ htotal =>
    -- Neither an operation at its end nor one that was broken off is about to ask.
    have hnone : Weight.sending.ofCall call = 0 := by
      show (call.fetch?.map Fetch.sending).getD 0 = 0
      cases hf : call.fetch? with
      | none => rfl
      | some f =>
        rcases Call.fetch?_of_ended hended hf with ⟨outcome, rfl⟩ | rfl <;> rfl
    have hquiet : [Happening.collected call].countP Happening.asks = 0 := rfl
    have hsum := htotal .sending
    omega
  | task _ hstep _ htotal =>
    have hasks : _ + Weight.sending.ofTask _ = Weight.sending.ofTask _ :=
      (Task.steps_of_step hstep).fetchTurn.asks hstuck
    have hsum := htotal .sending
    omega
  | @answerTask place task kind a _ _ htotal =>
    have hsame := Weight.sending_answerTask task a
    have hquiet : [Happening.answered kind a].countP Happening.asks = 0 := rfl
    have hsum := htotal .sending
    omega

/-- On a cursor that cannot continue exactly those queries for more rows go out that were about
to. -/
theorem Run.asked_of_stuck (hrun : Run setup start stages s)
    (hstuck : ∀ stage ∈ stages, stage.before.cursor.canContinue = false) :
    asked stages + s.sending = start.sending := by
  induction hrun with
  | nil => exact Nat.zero_add _
  | @snoc stages s s' move happenings _ hmove ih =>
    simp only [List.mem_append, List.mem_singleton] at hstuck
    have hbefore := ih fun stage hstage => hstuck stage (.inl hstage)
    have hstep := System.asks_of_move hmove (hstuck _ (.inr rfl))
    rw [asked_concat]
    show _ + happenings.countP Happening.asks + _ = _
    omega

end RowStream
