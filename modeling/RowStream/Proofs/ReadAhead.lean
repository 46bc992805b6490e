import Mathlib
import RowStream.Proofs.Counting

/-!
# Asking ahead of a full stock

A fetch in the background is scheduled when the stock of batches is down to the last one, but it
looks at the stock no more before it asks.  Fetches that were scheduled before the first of them
passed the gate ask one after the other when its reply has filled the stock: as many as stood
before their send at that moment, and for some runs no fewer.
-/

namespace RowStream

variable {setup : Setup} {c c' : Cursor} {s s' start : System} {stages : List Stage} {move : Move}
  {happenings : List Happening} {t : Target} {f? f'? : Option Fetch} {events : List Event}

/-! ## 1. Stock and standing fetches -/

/-- Whether more than one unread batch is queued. -/
def Cursor.stocked (c : Cursor) : Bool := 1 < c.batches.size

/-- Whether a fetch may come to ask for more rows, or to schedule one that may, with no look at the
stock in between. -/
def Fetch.stands : Fetch → Bool
  | claim | check | send | wake _ true | ahead _ => true
  | _ => false

/-- How many fetches stand. -/
def System.standing (s : System) : Nat :=
  (s.calls.map fun call => Fetch.count Fetch.stands call.fetch?).sum +
    (s.tasks.map fun task => Fetch.count Fetch.stands task.fetch?).sum

/-- How many queries for more rows go out while more than one batch is queued. -/
def Stage.asksAhead (stage : Stage) : Nat :=
  if stage.before.cursor.stocked then stage.happenings.countP Happening.asks else 0

/-- How many queries for more rows have gone out while more than one batch was queued. -/
def askedAhead (stages : List Stage) : Nat := (stages.map Stage.asksAhead).sum

/-- How many batches are added. -/
def Stage.delivered (stage : Stage) : Nat := (stage.accepted?.map fun r => r.texts.length).getD 0

/-- Whether a reply brings the stock to more than one batch. -/
def Stage.fills (stage : Stage) : Bool :=
  !stage.before.cursor.stocked && 1 < stage.before.cursor.batches.size + stage.delivered

/-- How many fetches stand when a reply brings the stock to more than one batch. -/
def Stage.catches (stage : Stage) : Nat := if stage.fills then stage.before.standing else 0

/-- How many fetches stood when replies brought the stock to more than one batch. -/
def caught (stages : List Stage) : Nat := (stages.map Stage.catches).sum

/-! ## 2. What a turn does to them -/

/-- What a turn of an activity in a fetch, or in none, does to the stock and to the fetches that
stand.  With more than one batch queued, whoever asks or schedules stood before.  Only a reply
brings the stock to more than one batch, and no fetch begins to stand with it. -/
structure StockTurn (c : Cursor) (f? f'? : Option Fetch) (c' : Cursor) (events : List Event) :
    Prop where
  stocked (h : c.stocked = true) :
    (events.map Happening.event).countP Happening.asks + events.countP Event.schedules +
      Fetch.count Fetch.stands f'? ≤ Fetch.count Fetch.stands f?
  fills (h : c.stocked = false) (h' : c'.stocked = true) :
    c'.batches.size =
        c.batches.size + ((f?.bind (Fetch.accepts? c)).map fun r => r.texts.length).getD 0 ∧
      events.countP Event.schedules + Fetch.count Fetch.stands f'? ≤ Fetch.count Fetch.stands f?

theorem Cursor.not_runsLow_of_stocked (h : c.stocked = true) : c.runsLow = false := by
  unfold stocked at h
  unfold runsLow
  simp only [decide_eq_true_eq] at h
  simp only [Bool.and_eq_false_iff, beq_eq_false_iff_ne]
  exact .inl (.inl (by omega))

theorem Cursor.countP_asks_schedule (c : Cursor) :
    ((c.schedule setup).map Happening.event).countP Happening.asks = 0 :=
  Happening.countP_asks_eq_zero c.sent_not_mem_schedule

theorem Cursor.countP_schedules_schedule_le (c : Cursor) :
    (c.schedule setup).countP Event.schedules ≤ 1 := by
  unfold schedule
  split
  · exact Nat.le_refl 1
  · exact Nat.zero_le 1

-- A turn that adds nothing to the stock does not fill it.
theorem StockTurn.of_size_le (hsize : c'.batches.size ≤ c.batches.size)
    (hstocked : c.stocked = true → (events.map Happening.event).countP Happening.asks +
      events.countP Event.schedules + Fetch.count Fetch.stands f'? ≤ Fetch.count Fetch.stands f?) :
    StockTurn c f? f'? c' events where
  stocked := hstocked
  fills h h' := by
    simp only [Cursor.stocked, decide_eq_true_eq, decide_eq_false_iff_not] at h h'
    omega

theorem Fetch.Steps.stockTurn {f : Fetch} {turn : Turn Fetch} (h : Steps setup c f turn) :
    StockTurn c (some f) (some turn.next) turn.cursor turn.events := by
  have hsize := h.size_batches
  cases h with
  | refused | turnsBack => exact .of_size_le (Nat.le_refl _) fun _ => Nat.zero_le _
  | passed | goesOn | asks | fails => exact .of_size_le (Nat.le_refl _) fun _ => Nat.le_refl _
  | tells outcome low =>
    refine .of_size_le (Nat.le_refl _) fun _ => ?_
    cases low <;> exact Nat.le_refl _
  | looksAhead outcome =>
    refine .of_size_le (Nat.le_refl _) fun _ => ?_
    rw [c.countP_asks_schedule, Nat.zero_add]
    exact c.countP_schedules_schedule_le
  | adds reply =>
    -- The stock after the reply is looked at once more, and found low only if it is.
    have hquiet (hstocked : (c.accept reply).openGate.stocked = true) :
        Fetch.count Fetch.stands
          (some (.wake (.ok true) (c.accept reply).openGate.runsLow)) = 0 := by
      rw [Cursor.not_runsLow_of_stocked hstocked]
      rfl
    constructor
    · intro hstocked
      have hstocked' : (c.accept reply).openGate.stocked = true := by
        simp only [Cursor.stocked, decide_eq_true_eq] at hstocked hsize ⊢
        omega
      dsimp only
      rw [hquiet hstocked']
      exact Nat.zero_le _
    · intro _ hstocked'
      refine ⟨hsize, ?_⟩
      dsimp only
      rw [hquiet hstocked']
      exact Nat.zero_le _

theorem StockTurn.congr_next {f''? : Option Fetch} (h : StockTurn c f? f'? c' events)
    (hcount : Fetch.count Fetch.stands f''? = Fetch.count Fetch.stands f'?) :
    StockTurn c f? f''? c' events where
  stocked := by
    rw [hcount]
    exact h.stocked
  fills := by
    rw [hcount]
    exact h.fills

theorem Close.Steps.stockTurn {x : Close} {turn : Turn Close} (h : Steps c x turn) :
    StockTurn c none none turn.cursor turn.events := by
  have hbatches : turn.cursor.batches = c.batches := by cases h <;> rfl
  refine .of_size_le (Nat.le_of_eq (congrArg (fun q => q.size) hbatches)) fun _ => ?_
  rw [Happening.countP_asks_eq_zero h.asks_not.2, h.countP_schedules]
  exact Nat.le_refl _

-- An advance begins to fetch with no batch queued, and one that takes a row schedules a fetch with
-- one batch queued only.
theorem Next.Looks.stockTurn {sight : Cursor} {slot : t.Slot} {turn : Turn (Next t)}
    (h : Looks setup sight slot turn) (hbatches : sight.batches = c.batches) :
    StockTurn c none turn.next.fetch? turn.cursor turn.events := by
  have hstocked : sight.stocked = c.stocked := by rw [Cursor.stocked, Cursor.stocked, hbatches]
  have hsize : sight.batches.size = c.batches.size := by rw [hbatches]
  cases h with
  | @row row rows hpop =>
    refine .of_size_le (Nat.le_of_eq hsize) fun h => ?_
    have hfetch : (receive slot row).fetch? = none := by
      unfold receive
      split <;> rfl
    dsimp only
    rw [hfetch, Cursor.not_runsLow_of_stocked (hstocked.trans h)]
    exact Nat.le_refl _
  | @batch text batches rows hempty hpop hread =>
    refine .of_size_le ?_ fun _ => Nat.le_refl _
    rw [← hsize, Queue.size_eq_length, Queue.size_eq_length, Queue.toList_of_pop?_eq_some hpop]
    exact Nat.le_succ _
  | @badBatch text batches e hempty hpop hread =>
    refine .of_size_le ?_ fun _ => Nat.le_refl _
    rw [← hsize, Queue.size_eq_length, Queue.size_eq_length, Queue.toList_of_pop?_eq_some hpop]
    exact Nat.le_succ _
  | error | finished | closed => exact .of_size_le (Nat.le_of_eq hsize) fun _ => Nat.le_refl _
  | fetch hrows hempty hopen =>
    refine .of_size_le (Nat.le_of_eq hsize) fun h => ?_
    rw [← hstocked, Cursor.stocked, Queue.size_eq_length, hempty] at h
    cases h

theorem Next.Steps.stockTurn {n : Next t} {turn : Turn (Next t)} (h : Steps setup c n turn) :
    StockTurn c n.fetch? turn.next.fetch? turn.cursor turn.events := by
  cases h with
  | @looks slot phase sight turn hsight hlooks =>
    obtain ⟨-, hbatches, hfetch⟩ := sight?_account (n := ⟨slot, phase⟩) hsight
    rw [hfetch]
    exact hlooks.stockTurn hbatches
  | @fetches slot f turn hstep =>
    refine hstep.stockTurn.congr_next ?_
    simp only [Turn.map, fetch?_ofFetch]
    cases turn.next <;> rfl
  | @closes slot close turn hstep =>
    refine hstep.stockTurn.congr_next ?_
    simp only [Turn.map]
    cases turn.next <;> rfl
  | enters | ends | sleeps | records =>
    exact .of_size_le (Nat.le_refl _) fun _ => Nat.le_refl _

theorem Call.Steps.stockTurn {call : Call} {turn : Turn Call} (h : Steps setup c call turn) :
    StockTurn c call.fetch? turn.next.fetch? turn.cursor turn.events := by
  cases h with
  | judges hfetch hnext hcursor hevents =>
    rw [hfetch, hnext, hcursor, hevents]
    exact .of_size_le (Nat.le_refl _) fun _ => Nat.le_refl _
  | advances hstep hfetch hnext hcursor hevents =>
    rw [hfetch, hnext, hcursor, hevents]
    exact hstep.stockTurn
  | closes hstep hfetch hnext hcursor hevents =>
    rw [hfetch, hnext, hcursor, hevents]
    exact hstep.stockTurn
  | fetches hstep hfetch hnext hcursor hevents =>
    rw [hfetch, hnext, hcursor, hevents]
    exact hstep.stockTurn

theorem Task.Steps.stockTurn {task : Task} {turn : Turn Task} (h : Steps setup c task turn) :
    StockTurn c task.fetch? turn.next.fetch? turn.cursor turn.events := by
  cases h with
  | @fetches f turn hstep =>
    refine hstep.stockTurn.congr_next ?_
    simp only [Turn.map]
    cases turn.next with
    | done outcome =>
      rw [Task.fetch?_ofFetch_done]
      rfl
    | _ => rfl
  | notices => exact .of_size_le (Nat.le_refl _) fun _ => Nat.le_refl _
  | reports | tells => exact .of_size_le (Nat.le_refl _) fun _ => Nat.le_refl _

theorem Fetch.count_stands_answer (f? : Option Fetch) (a : Answer) :
    count stands (f?.map (answer a)) = count stands f? := by
  cases f? with
  | none => rfl
  | some f =>
    cases f with
    | waiting => cases a <;> rfl
    | _ => rfl

/-! ## 3. Moves -/

namespace System

theorem standing_replicate_scheduled (c : Cursor) (n : Nat) :
    standing ⟨c, [], List.replicate n .scheduled⟩ = n := by
  have hone : Fetch.count Fetch.stands Task.scheduled.fetch? = 1 := rfl
  rw [standing, List.map_nil, List.sum_nil, Nat.zero_add, List.map_replicate,
    List.sum_replicate_nat, hone, Nat.mul_one]

/-- What a move does to the stock and to the fetches that stand. -/
structure StockMove (s s' : System) (move : Move) (happenings : List Happening) : Prop where
  stocked (h : s.cursor.stocked = true) :
    happenings.countP Happening.asks + s'.standing ≤ s.standing
  fills (h : s.cursor.stocked = false) (h' : s'.cursor.stocked = true) :
    Stage.fills ⟨s, move, happenings⟩ = true ∧ s'.standing ≤ s.standing

-- A move that leaves the cursor as it is fills nothing.
theorem StockMove.quiet (hcursor : s'.cursor = s.cursor)
    (hasks : happenings.countP Happening.asks = 0) (hstanding : s'.standing ≤ s.standing) :
    StockMove s s' move happenings where
  stocked _ := by omega
  fills h h' := by
    rw [hcursor, h] at h'
    cases h'

-- The move is the turn of an activity in a fetch, or in none; the others stand as before.
theorem StockMove.of_turn {rest : Nat} {turned : Cursor}
    (h : StockTurn s.cursor f? f'? turned events)
    (hcursor : s'.cursor = turned) (hturning : s.turning? move = f?)
    (hbefore : s.standing = rest + Fetch.count Fetch.stands f?)
    (hafter : s'.standing = rest + Fetch.count Fetch.stands f'? + events.countP Event.schedules) :
    StockMove s s' move (events.map .event) where
  stocked hstocked := by
    have := h.stocked hstocked
    omega
  fills hstocked hstocked' := by
    subst hcursor
    obtain ⟨hsize, hstands⟩ := h.fills hstocked hstocked'
    refine ⟨?_, by omega⟩
    have hdelivered : Stage.delivered ⟨s, move, events.map .event⟩ =
        ((f?.bind (Fetch.accepts? s.cursor)).map fun r => r.texts.length).getD 0 := by
      rw [Stage.delivered, Stage.accepted?, hturning]
    simp only [Stage.fills, hstocked, hdelivered, ← hsize]
    exact hstocked'

theorem stockMove (hmove : s.move? setup move = some (s', happenings)) :
    StockMove s s' move happenings := by
  cases counts_of_move hmove with
  | begins op hcursor hcount =>
    have hbegin : Fetch.count Fetch.stands op.begin.fetch? = 0 := by
      rcases op.fetch?_begin_eq with h | ⟨reply, h⟩ <;> rw [h] <;> rfl
    have hmore : s'.standing = s.standing + _ := hcount Fetch.stands Fetch.stands
    exact .quiet hcursor rfl (by omega)
  | call hcall hstep hcursor hcount =>
    obtain ⟨rest, hbefore, hafter⟩ := hcount Fetch.stands Fetch.stands rfl
    refine .of_turn (Call.steps_of_step hstep).stockTurn hcursor ?_ hbefore hafter
    rw [turning?, hcall]
    rfl
  | answerCall hcursor hcount =>
    obtain ⟨rest, hbefore, hafter⟩ := hcount Fetch.stands Fetch.stands
    rw [Fetch.count_stands_answer, ← hbefore] at hafter
    exact .quiet hcursor rfl (Nat.le_of_eq hafter)
  | collect _ _ hcursor hcount =>
    have hless : s.standing = s'.standing + _ := hcount Fetch.stands Fetch.stands
    exact .quiet hcursor rfl (by omega)
  | task htask hstep hcursor hcount =>
    obtain ⟨rest, hbefore, hafter⟩ := hcount Fetch.stands Fetch.stands rfl
    refine .of_turn (Task.steps_of_step hstep).stockTurn hcursor ?_ hbefore hafter
    rw [turning?, htask]
    rfl
  | answerTask hcursor hcount =>
    obtain ⟨rest, hbefore, hafter⟩ := hcount Fetch.stands Fetch.stands
    rw [Fetch.count_stands_answer, ← hbefore] at hafter
    exact .quiet hcursor rfl (Nat.le_of_eq hafter)

end System

/-! ## 4. Runs -/

theorem askedAhead_concat (stages : List Stage) (stage : Stage) :
    askedAhead (stages ++ [stage]) = askedAhead stages + stage.asksAhead := by
  simp only [askedAhead, List.map_append, List.sum_append, List.map_singleton, List.sum_singleton]

theorem askedAhead_append (stages later : List Stage) :
    askedAhead (stages ++ later) = askedAhead stages + askedAhead later := by
  simp only [askedAhead, List.map_append, List.sum_append]

theorem caught_concat (stages : List Stage) (stage : Stage) :
    caught (stages ++ [stage]) = caught stages + stage.catches := by
  simp only [caught, List.map_append, List.sum_append, List.map_singleton, List.sum_singleton]

theorem caught_append (stages later : List Stage) :
    caught (stages ++ later) = caught stages + caught later := by
  simp only [caught, List.map_append, List.sum_append]

/-- How many fetches may still come to ask with more than one batch queued. -/
def System.ahead (s : System) : Nat := if s.cursor.stocked then s.standing else 0

-- The fetches that ask while the stock is full stood when it was filled.
theorem Run.asked_ahead {release : Bool} (hrun : Run setup (.opened release) stages s) :
    askedAhead stages + s.ahead ≤ caught stages := by
  induction hrun with
  | nil => exact Nat.le_refl 0
  | @snoc stages s s' move happenings hrun hmove ih =>
    have hstock := System.stockMove hmove
    have hahead : s'.ahead ≤ s'.standing := by
      unfold System.ahead
      split
      · exact Nat.le_refl _
      · exact Nat.zero_le _
    rw [askedAhead_concat, caught_concat]
    cases hstocked : s.cursor.stocked with
    | true =>
      have hasks : Stage.asksAhead ⟨s, move, happenings⟩ = happenings.countP Happening.asks :=
        if_pos hstocked
      have hstands := hstock.stocked hstocked
      rw [System.ahead, if_pos hstocked] at ih
      omega
    | false =>
      have hasks : Stage.asksAhead ⟨s, move, happenings⟩ = 0 :=
        if_neg (by rw [hstocked]; exact Bool.false_ne_true)
      cases hstocked' : s'.cursor.stocked with
      | true =>
        obtain ⟨hfills, hstands⟩ := hstock.fills hstocked hstocked'
        have hcatches : Stage.catches ⟨s, move, happenings⟩ = s.standing := if_pos hfills
        omega
      | false =>
        have hnone : s'.ahead = 0 := if_neg (by rw [hstocked']; exact Bool.false_ne_true)
        omega

/-! ## 5. Runs that ask ahead -/

namespace System

theorem move?_of_task {task : Task} {turn : Turn Task} (hstep : task.step setup c = some turn)
    (hquiet : turn.events.countP Event.schedules = 0) (before later : List Task) :
    move? setup ⟨c, [], before ++ task :: later⟩ (.task before.length) =
      some (⟨turn.cursor, [], before ++ turn.next :: later⟩, turn.events.map .event) := by
  have hafter : after turn.cursor [] (before ++ turn.next :: later) turn.events =
      ⟨turn.cursor, [], before ++ turn.next :: later⟩ := by
    rw [after, hquiet, List.replicate_zero, List.append_nil, List.map_nil, ite_self]
  simp [move?, hstep, heedAll, foldl_heed, hafter]

theorem move?_of_answerTask (setup : Setup) (c : Cursor) {task : Task} {kind : Query.Kind}
    (hawaits : task.awaits? = some kind) (a : Answer) (before later : List Task) :
    move? setup ⟨c, [], before ++ task :: later⟩ (.answerTask before.length a) =
      some (⟨c, [], before ++ task.answer a :: later⟩, [.answered kind a]) := by
  simp [move?, hawaits]

theorem move?_of_call {call : Call} {turn : Turn Call} (hstep : call.step setup c = some turn)
    (tasks : List Task) : move? setup ⟨c, [call], tasks⟩ (.call 0) =
      some (⟨turn.cursor, [turn.next],
        tasks ++ List.replicate (turn.events.countP Event.schedules) .scheduled⟩,
        turn.events.map .event) := by
  rw [← after_of_step hstep tasks]
  simp [move?, hstep, heedAll, foldl_heed]

end System

theorem Stage.catches_of_still {stage : Stage} (h : stage.accepted? = none) :
    stage.catches = 0 := by
  have hdelivered : stage.delivered = 0 := by
    rw [Stage.delivered, h]
    rfl
  have hfills : stage.fills = false := by
    rw [Stage.fills, hdelivered, Nat.add_zero]
    exact Bool.not_and_self _
  rw [Stage.catches, hfills]
  rfl

/-- A run leads from one state to another.  In it operations are begun, fetches are caught when the
stock is filled, and queries go out with the stock full. -/
def Trail (setup : Setup) (start s : System) (ops : List Operation) (held sent : Nat) : Prop :=
  ∃ stages, Run setup start stages s ∧ begun stages = ops ∧ caught stages = held ∧
    askedAhead stages = sent

namespace Trail

variable {ops ops' : List Operation} {held held' sent sent' : Nat}

theorem of_move (hmove : s.move? setup move = some (s', happenings)) :
    Trail setup s s' (happenings.filterMap Happening.begun?)
      (Stage.catches ⟨s, move, happenings⟩) (Stage.asksAhead ⟨s, move, happenings⟩) := by
  refine ⟨[⟨s, move, happenings⟩], .snoc .nil hmove, ?_, ?_, ?_⟩
  · exact (begun_concat [] _).trans (List.nil_append _)
  · exact (caught_concat [] _).trans (Nat.zero_add _)
  · exact (askedAhead_concat [] _).trans (Nat.zero_add _)

theorem append (h : Trail setup start s ops held sent) (h' : Trail setup s s' ops' held' sent') :
    Trail setup start s' (ops ++ ops') (held + held') (sent + sent') := by
  obtain ⟨stages, hrun, rfl, rfl, rfl⟩ := h
  obtain ⟨later, hrun', rfl, rfl, rfl⟩ := h'
  refine ⟨stages ++ later, hrun.append hrun', ?_, caught_append .., askedAhead_append ..⟩
  rw [begun, happened_append, List.filterMap_append]
  rfl

theorem congr (h : Trail setup start s ops held sent) (hops : ops = ops') (hheld : held = held')
    (hsent : sent = sent') : Trail setup start s ops' held' sent' := by
  subst hops hheld hsent
  exact h

-- A turn of a background fetch that takes no reply in.
theorem of_task {f : Fetch} {turn : Turn Task} (hstep : (Task.running f).step setup c = some turn)
    (hquiet : turn.events.countP Event.schedules = 0) (hbrings : f.brings? = none) {asks : Nat}
    (hasks : (turn.events.map Happening.event).countP Happening.asks = asks)
    (before later : List Task) :
    Trail setup ⟨c, [], before ++ .running f :: later⟩
      ⟨turn.cursor, [], before ++ turn.next :: later⟩ [] 0 (if c.stocked then asks else 0) := by
  have h := of_move (System.move?_of_task hstep hquiet before later)
  have hbegun : (turn.events.map Happening.event).filterMap Happening.begun? = [] := by
    simp [List.filterMap_eq_nil_iff, Happening.begun?]
  have hstill : Stage.accepted? ⟨⟨c, [], before ++ .running f :: later⟩, .task before.length,
      turn.events.map .event⟩ = none := by
    simp [Stage.accepted?, System.turning?, Task.fetch?, Fetch.accepts?_of_brings?_eq_none hbrings]
  rw [hbegun, Stage.catches_of_still hstill, Stage.asksAhead, hasks] at h
  exact h

/-- A fetch in the background from its beginning to its end, with nothing else in between. -/
theorem fetch (setup : Setup) (c : Cursor) (reply : Reply) (hopen : c.canContinue = true)
    (hgate : c.fetching = false)
    (hlow : (({ c with fetching := true } : Cursor).accept reply).openGate.runsLow = false)
    (before later : List Task) :
    Trail setup ⟨c, [], before ++ .scheduled :: later⟩
      ⟨(({ c with fetching := true } : Cursor).accept reply).openGate, [], before ++ .done :: later⟩
      [] (if !c.stocked && 1 < c.batches.size + reply.texts.length
        then System.standing ⟨c, [], before ++ later⟩ else 0) c.stocked.toNat := by
  -- The cursor with the gate shut; whether it can go on and how much is queued does not change.
  let shut : Cursor := { c with fetching := true }
  have hclaim : (Task.running .claim).step setup c = some ⟨shut, .running .check, []⟩ := by
    simp [Task.step, Fetch.step, hgate, Turn.map, Task.ofFetch, shut]
  have hnotClosed : shut.closed = false := by
    simp only [Cursor.canContinue, Bool.and_eq_true, Bool.not_eq_true'] at hopen
    exact hopen.1.1
  have hcheck : (Task.running .check).step setup shut = some ⟨shut, .running .send, []⟩ := by
    have hopen' : shut.canContinue = true := hopen
    simp [Task.step, Fetch.step, hopen', Turn.map, Task.ofFetch]
  have hfold : (Task.running (.fold (.ok reply))).step setup shut =
      some ⟨(shut.accept reply).openGate, .running (.wake (.ok true) false), []⟩ := by
    simp [Task.step, Fetch.step, hlow, Turn.map, Task.ofFetch, shut]
  have hsend : (Task.running .send).step setup shut =
      some ⟨shut, .running .waiting, [.logged .requesting, .sent .more]⟩ := rfl
  have hwake : (Task.running (.wake (.ok true) false)).step setup (shut.accept reply).openGate =
      some ⟨(shut.accept reply).openGate, .done, [.notified]⟩ := rfl
  have hall := (((((of_task hclaim rfl rfl rfl before later).append
    (of_task hcheck rfl rfl rfl before later)).append
    (of_task hsend rfl rfl rfl before later)).append
    (of_move (System.move?_of_answerTask setup shut rfl (.reply reply) before later))).append
    (of_move (System.move?_of_task hfold rfl before later))).append
    (of_task hwake rfl rfl rfl before later)
  have hturning : System.turning? ⟨shut, [], before ++ .running (.fold (.ok reply)) :: later⟩
      (.task before.length) = some (.fold (.ok reply)) := by
    simp [System.turning?, Task.fetch?]
  have hdelivered : Stage.delivered ⟨⟨shut, [], before ++ .running (.fold (.ok reply)) :: later⟩,
      .task before.length, []⟩ = reply.texts.length := by
    rw [Stage.delivered, Stage.accepted?, hturning, Option.bind_some,
      Fetch.accepts?_fold_of_open reply hnotClosed]
    rfl
  have hcatches : Stage.catches ⟨⟨shut, [], before ++ .running (.fold (.ok reply)) :: later⟩,
      .task before.length, []⟩ = if !c.stocked && 1 < c.batches.size + reply.texts.length
        then System.standing ⟨c, [], before ++ later⟩ else 0 := by
    have htask : System.standing ⟨shut, [], before ++ .running (.fold (.ok reply)) :: later⟩ =
        System.standing ⟨shut, [], before ++ later⟩ + 0 :=
      System.counting_task (s := ⟨shut, [], before ++ .running (.fold (.ok reply)) :: later⟩) rfl
    rw [Stage.catches, Stage.fills, hdelivered, htask]
    rfl
  refine hall.congr rfl ?_ ?_
  · rw [Stage.catches_of_still rfl]
    exact (Nat.zero_add _).trans hcatches
  · have hshut : shut.stocked = c.stocked := rfl
    simp only [hshut, Stage.asksAhead]
    cases c.stocked <;> simp [Happening.asks]

-- Fetches that begin with the stock full, one after the other, each answered by an empty reply.
theorem fetches {release : Bool} {rows : Queue Datum} {batches : Queue String}
    (hstocked : ({ rows, batches, release } : Cursor).stocked = true)
    (n : Nat) (before : List Task) :
    Trail setup
      ⟨{ rows, batches, release }, [], before ++ List.replicate n .scheduled⟩
      ⟨{ rows, batches, release }, [], before ++ List.replicate n .done⟩ [] 0 n := by
  induction n generalizing before with
  | zero => exact ⟨[], .nil, rfl, rfl, rfl⟩
  | succ n ih =>
    let c : Cursor := { rows, batches, release }
    have hfirst : Trail setup ⟨c, [], before ++ .scheduled :: List.replicate n .scheduled⟩
        ⟨c, [], before ++ .done :: List.replicate n .scheduled⟩ [] _ c.stocked.toNat :=
      fetch setup c ⟨.partialSequence, [], none⟩ rfl rfl
        (Cursor.not_runsLow_of_stocked hstocked) before (List.replicate n .scheduled)
    have hrest := ih (before ++ [.done])
    rw [List.append_assoc, List.append_assoc] at hrest
    refine (hfirst.append hrest).congr rfl ?_ ?_
    · rw [hstocked]
      rfl
    · rw [hstocked]
      exact Nat.add_comm 1 n

/-! ### Advances -/

section

variable {call : Call} {tasks : List Task}

theorem of_begin (c : Cursor) (op : Operation) (tasks : List Task) :
    Trail setup ⟨c, [], tasks⟩ ⟨c, [op.begin], tasks⟩ [op] 0 0 := by
  have hmove : System.move? setup ⟨c, [], tasks⟩ (.begin op) =
      some (⟨c, [op.begin], tasks⟩, [.began op]) := rfl
  refine (of_move hmove).congr rfl ?_ ?_
  · exact Stage.catches_of_still rfl
  · exact ite_self 0

theorem of_collect (h : (call.isDone || call.isAborted) = true) :
    Trail setup ⟨c, [call], tasks⟩ ⟨c, [], tasks⟩ [] 0 0 := by
  have hmove : System.move? setup ⟨c, [call], tasks⟩ (.collect 0) =
      some (⟨c, [], tasks⟩, [.collected call]) := if_pos h
  refine (of_move hmove).congr rfl ?_ ?_
  · exact Stage.catches_of_still rfl
  · exact ite_self 0

-- A turn of an operation that takes no reply in.
theorem of_call {turn : Turn Call} (hstep : call.step setup c = some turn)
    (hstill : call.fetch?.bind (Fetch.accepts? c) = none)
    (hasks : (turn.events.map Happening.event).countP Happening.asks = 0) :
    Trail setup ⟨c, [call], tasks⟩
      ⟨turn.cursor, [turn.next],
        tasks ++ List.replicate (turn.events.countP Event.schedules) .scheduled⟩ [] 0 0 := by
  refine (of_move (System.move?_of_call hstep tasks)).congr ?_ (Stage.catches_of_still ?_) ?_
  · simp [List.filterMap_eq_nil_iff, Happening.begun?]
  · exact hstill
  · rw [Stage.asksAhead, hasks]
    exact ite_self 0

end

-- An advance that takes a row schedules a fetch if the stock is low, and none otherwise.
theorem of_row {c sight : Cursor} {n : Next .datum} {row : Datum} {rest : Queue Datum}
    (hstep : n.step setup c = some (Next.look setup sight n.slot)) (hfetch : n.fetch? = none)
    (hpop : sight.rows.pop? = some (row, rest)) (tasks : List Task) :
    Trail setup ⟨c, [.next n], tasks⟩
      ⟨{ sight with rows := rest }, [.next (⟨row, .done true⟩ : Next .datum)],
        tasks ++ List.replicate ((if sight.runsLow then sight.schedule setup else []).countP
          Event.schedules) .scheduled⟩ [] 0 0 := by
  have hlook : Next.look setup sight n.slot =
      ⟨{ sight with rows := rest }, ⟨row, .done true⟩,
        if sight.runsLow then sight.schedule setup else []⟩ := by
    simp only [Next.look, hpop]
    rfl
  have hturn : (Call.next n).step setup c =
      some ⟨{ sight with rows := rest }, .next (⟨row, .done true⟩ : Next .datum),
        if sight.runsLow then sight.schedule setup else []⟩ := by
    rw [Call.step, hstep, hlook]
    rfl
  refine of_call hturn (by rw [Call.fetch?, hfetch]; rfl) ?_
  dsimp only
  split
  · exact sight.countP_asks_schedule
  · rfl

theorem of_low_row {c sight : Cursor} {n : Next .datum} {row : Datum} {rest : Queue Datum}
    (hprefetch : setup.options.prefetch = true)
    (hstep : n.step setup c = some (Next.look setup sight n.slot)) (hfetch : n.fetch? = none)
    (hpop : sight.rows.pop? = some (row, rest)) (hlow : sight.runsLow = true)
    (hgate : sight.fetching = false) (tasks : List Task) :
    Trail setup ⟨c, [.next n], tasks⟩ ⟨{ sight with rows := rest }, [], tasks ++ [.scheduled]⟩
      [] 0 0 := by
  have hrow := of_row hstep hfetch hpop tasks
  have hone : (sight.schedule setup).countP Event.schedules = 1 := by
    rw [Cursor.schedule, hprefetch, hgate]
    rfl
  rw [hlow, if_pos rfl, hone, List.replicate_one] at hrow
  exact hrow.append (of_collect rfl)

theorem of_quiet_row {c sight : Cursor} {n : Next .datum} {row : Datum} {rest : Queue Datum}
    (hstep : n.step setup c = some (Next.look setup sight n.slot)) (hfetch : n.fetch? = none)
    (hpop : sight.rows.pop? = some (row, rest)) (hlow : sight.runsLow = false)
    (tasks : List Task) :
    Trail setup ⟨c, [.next n], tasks⟩
      ⟨{ sight with rows := rest }, [.next (⟨row, .done true⟩ : Next .datum)], tasks⟩ [] 0 0 := by
  have hrow := of_row hstep hfetch hpop tasks
  rwa [hlow, if_neg Bool.false_ne_true, List.countP_nil, List.replicate_zero,
    List.append_nil] at hrow

-- With no row at hand an advance reads a batch.
theorem of_batch {c sight : Cursor} {n : Next .datum} {text : String} {rows : List Datum}
    {rest : Queue String} (hstep : n.step setup c = some (Next.look setup sight n.slot))
    (hfetch : n.fetch? = none) (hempty : sight.rows.toList = [])
    (hpop : sight.batches.pop? = some (text, rest)) (hread : setup.rows text = .ok rows)
    (tasks : List Task) :
    Trail setup ⟨c, [.next n], tasks⟩
      ⟨{ sight with batches := rest }, [.next (⟨n.slot, .refill rows⟩ : Next .datum)], tasks⟩
      [] 0 0 := by
  have hlook : Next.look setup sight n.slot =
      ⟨{ sight with batches := rest }, ⟨n.slot, .refill rows⟩, []⟩ := by
    simp only [Next.look, Queue.pop?_of_toList_eq_nil hempty, hpop, hread]
  have hturn : (Call.next n).step setup c =
      some ⟨{ sight with batches := rest }, .next (⟨n.slot, .refill rows⟩ : Next .datum), []⟩ := by
    rw [Call.step, hstep, hlook]
    rfl
  have hread : Trail setup ⟨c, [.next n], tasks⟩ _ [] 0 0 :=
    of_call hturn (by rw [Call.fetch?, hfetch]; rfl) rfl
  rwa [List.countP_nil, List.replicate_zero, List.append_nil] at hread

theorem enter {c : Cursor} (hopen : c.closed = false) (tasks : List Task) :
    Trail setup ⟨c, [], tasks⟩ ⟨c, [.next (⟨Datum.null, .look⟩ : Next .datum)], tasks⟩
      [.next (t := .datum) Datum.null] 0 0 := by
  have henter : (Call.next (⟨Datum.null, .enter⟩ : Next .datum)).step setup c =
      some ⟨c, .next (⟨Datum.null, .look⟩ : Next .datum), []⟩ := by
    simp [Call.step, Next.step, hopen, Turn.map]
  have hall := (of_begin c (.next (t := .datum) Datum.null) tasks).append
    (of_call henter rfl rfl)
  rwa [List.countP_nil, List.replicate_zero, List.append_nil] at hall

/-- An advance takes a row while one batch is queued. -/
theorem row {c : Cursor} {row : Datum} {rest : Queue Datum}
    (hprefetch : setup.options.prefetch = true) (hopen : c.closed = false)
    (hpop : c.rows.pop? = some (row, rest)) (hlow : c.runsLow = true) (hgate : c.fetching = false)
    (tasks : List Task) :
    Trail setup ⟨c, [], tasks⟩ ⟨{ c with rows := rest }, [], tasks ++ [.scheduled]⟩
      [.next (t := .datum) Datum.null] 0 0 :=
  (enter hopen tasks).append (of_low_row hprefetch rfl rfl hpop hlow hgate tasks)

/-- Advances take all rows while one batch is queued: each schedules a fetch. -/
theorem rows {release : Bool} {batches : Queue String} (hprefetch : setup.options.prefetch = true)
    (hsize : batches.size = 1) {queue : Queue Datum} {rows : List Datum}
    (hrows : queue.toList = rows) (tasks : List Task) :
    ∃ rest, Trail setup
      ⟨{ rows := queue, batches, release }, [], tasks⟩
      ⟨{ rows := rest, batches, release }, [],
        tasks ++ List.replicate rows.length .scheduled⟩
      (List.replicate rows.length (.next (t := .datum) Datum.null)) 0 0 := by
  induction rows generalizing queue tasks with
  | nil =>
    rw [List.length_nil, List.replicate_zero, List.append_nil]
    exact ⟨queue, [], .nil, rfl, rfl, rfl⟩
  | cons first rows ih =>
    obtain ⟨rest, hpop, hrest⟩ := Queue.pop?_of_toList_eq_cons hrows
    let c : Cursor := { rows := queue, batches, release }
    have hlow : c.runsLow = true := by
      rw [Cursor.runsLow, hsize]
      rfl
    have hfirst : Trail setup ⟨c, [], tasks⟩ _ _ 0 0 := row hprefetch rfl hpop hlow rfl tasks
    obtain ⟨last, hlast⟩ := ih hrest (tasks ++ [.scheduled])
    rw [List.append_assoc] at hlast
    exact ⟨last, hfirst.append hlast⟩

/-- An advance reads the batch before the last one, takes its first row and schedules a fetch. -/
theorem batch (release : Bool) {text : String} {first : Datum} {rows : List Datum}
    {queue : Queue Datum} {batches rest : Queue String} (hprefetch : setup.options.prefetch = true)
    (hempty : queue.toList = []) (hpop : batches.pop? = some (text, rest)) (hsize : rest.size = 1)
    (hread : setup.rows text = .ok (first :: rows)) :
    ∃ left : Queue Datum, left.toList = rows ∧ Trail setup
      ⟨{ rows := queue, batches, release }, [], []⟩
      ⟨{ rows := left, batches := rest, release }, [], [.scheduled]⟩
      [.next (t := .datum) Datum.null] 0 0 := by
  let c : Cursor := { rows := queue, batches, release }
  let sight : Cursor := { rows := queue.pushAll (first :: rows), batches := rest, release }
  have hrows : sight.rows.toList = first :: rows := by
    rw [Queue.toList_pushAll, hempty, List.nil_append]
  obtain ⟨left, hfirst, hleft⟩ := Queue.pop?_of_toList_eq_cons hrows
  have hlow : sight.runsLow = true := by
    rw [Cursor.runsLow, hsize]
    rfl
  have hstep : (⟨Datum.null, .look⟩ : Next .datum).step setup c =
      some (Next.look setup c Datum.null) := rfl
  have hbatch : Trail setup ⟨c, [.next (⟨Datum.null, .look⟩ : Next .datum)], []⟩
      ⟨{ rows := queue, batches := rest, release },
        [.next (⟨Datum.null, .refill (first :: rows)⟩ : Next .datum)], []⟩ [] 0 0 :=
    of_batch hstep rfl hempty hpop hread []
  have hrefill : Trail setup
      ⟨{ rows := queue, batches := rest, release },
        [.next (⟨Datum.null, .refill (first :: rows)⟩ : Next .datum)], []⟩
      ⟨{ sight with rows := left }, [], [.scheduled]⟩ [] 0 0 :=
    of_low_row hprefetch rfl rfl hfirst hlow rfl []
  exact ⟨left, hleft, ((enter (c := c) rfl []).append hbatch).append hrefill⟩

/-- The first reply brings more than one batch. -/
theorem first_reply (setup : Setup) (release : Bool) {texts : List String}
    (hlength : 1 < texts.length) :
    Trail setup (.opened release) ⟨{ batches := Queue.empty.pushAll texts, release }, [], []⟩
      [.extend ⟨.partialSequence, texts, none⟩] 0 0 := by
  let reply : Reply := ⟨.partialSequence, texts, none⟩
  let c : Cursor := { batches := Queue.empty.pushAll texts, release }
  have hstocked : c.stocked = true := by
    rw [Cursor.stocked, Queue.size_eq_length, Queue.toList_pushAll, Queue.toList_empty]
    exact decide_eq_true hlength
  have hfold : (Call.extend (.fold (.ok reply))).step setup { release } =
      some ⟨c, .extend (.wake (.ok true) c.runsLow), []⟩ := rfl
  rw [Cursor.not_runsLow_of_stocked hstocked] at hfold
  have hwake : (Call.extend (.wake (.ok true) false)).step setup c =
      some ⟨c, .extend (.done (.ok true)), [.notified]⟩ := rfl
  have hadd : Trail setup ⟨{ release }, [.extend (.fold (.ok reply))], []⟩
      ⟨c, [.extend (.wake (.ok true) false)], []⟩ [] 0 0 := by
    refine (of_move (System.move?_of_call hfold [])).congr rfl ?_ (ite_self 0)
    exact ite_self 0
  exact (((of_begin { release } (.extend reply) []).append hadd).append
    (of_call hwake rfl rfl)).append (of_collect rfl)

end Trail

/-! ## 6. The theorem -/

-- One reply brings two batches of the same text.  The rows of the first are taken, and a fetch is
-- scheduled with each; the reply to the first fetch fills the stock.
theorem Trail.ahead (release : Bool) (hprefetch : setup.options.prefetch = true) {text : String}
    {rows : List Datum} (hread : setup.rows text = .ok rows) : ∃ s, Trail setup (.opened release) s
      (.extend ⟨.partialSequence, [text, text], none⟩ ::
        List.replicate rows.length (.next (t := .datum) Datum.null))
      (rows.length - 1) (rows.length - 1) := by
  have hfirst : Trail setup _ _ [.extend ⟨.partialSequence, [text, text], none⟩] 0 0 :=
    Trail.first_reply setup release Nat.one_lt_two
  cases rows with
  | nil => exact ⟨_, hfirst⟩
  | cons first rows =>
    have htexts : (Queue.empty.pushAll [text, text]).toList = [text, text] := by
      rw [Queue.toList_pushAll, Queue.toList_empty, List.nil_append]
    obtain ⟨rest, hpop, hrest⟩ := Queue.pop?_of_toList_eq_cons htexts
    have hsize : rest.size = 1 := by rw [Queue.size_eq_length, hrest, List.length_singleton]
    obtain ⟨left, hleft, hbatch⟩ := batch release hprefetch Queue.toList_empty hpop hsize hread
    obtain ⟨last, hrows⟩ := Trail.rows hprefetch hsize hleft [.scheduled]
    let low : Cursor := { rows := last, batches := rest, release }
    let full : Cursor := { rows := last, batches := rest.pushAll [text], release }
    have hstocked : full.stocked = true := by
      rw [Cursor.stocked, Queue.size_eq_length, Queue.toList_pushAll, hrest]
      rfl
    have hfill : Trail setup ⟨low, [], .scheduled :: List.replicate rows.length .scheduled⟩
        ⟨full, [], .done :: List.replicate rows.length .scheduled⟩ [] rows.length 0 := by
      have hfetch : Trail setup _ ⟨full, [], [] ++ .done :: List.replicate rows.length .scheduled⟩
          [] _ _ := fetch setup low ⟨.partialSequence, [text], none⟩ rfl rfl
        (Cursor.not_runsLow_of_stocked hstocked) [] (List.replicate rows.length .scheduled)
      have hlow : low.stocked = false := by
        rw [Cursor.stocked, hsize]
        rfl
      have hfills : (!low.stocked && decide (1 < low.batches.size + 1)) = true := by
        rw [hlow, hsize]
        rfl
      refine hfetch.congr rfl ?_ ?_
      · refine (if_pos hfills).trans ?_
        rw [List.nil_append, System.standing_replicate_scheduled]
      · rw [hlow]
        rfl
    have hlater : Trail setup ⟨full, [], .done :: List.replicate rows.length .scheduled⟩
        ⟨full, [], .done :: List.replicate rows.length .done⟩ [] 0 rows.length :=
      fetches hstocked rows.length [.done]
    have hall := (((hfirst.append hbatch).append hrows).append hfill).append hlater
    refine ⟨_, hall.congr ?_ ?_ ?_⟩
    · rw [List.append_nil, List.append_nil]
      rfl
    · simp
    · simp

/-- On every run, no more queries for more rows go out with more than one batch queued than fetches
stood when replies brought the stock to more than one batch; so none goes out if none stood then.
If fetches are made in the background, there is for every text of a batch a run in which the only
reply from outside is the first one, the rows of the batch are taken by that many advances, and for
each of the rows but one a query goes out so. -/
theorem asked_ahead_bounded (setup : Setup) (release : Bool) :
    (∀ {stages : List Stage} {s : System}, Run setup (.opened release) stages s →
      askedAhead stages ≤ caught stages) ∧
    (setup.options.prefetch = true → ∀ text rows, setup.rows text = .ok rows →
      ∃ stages s, Run setup (.opened release) stages s ∧
        begun stages = .extend ⟨.partialSequence, [text, text], none⟩ ::
          List.replicate rows.length (.next (t := .datum) Datum.null) ∧
        caught stages = rows.length - 1 ∧ askedAhead stages = rows.length - 1) := by
  constructor
  · intro stages s hrun
    exact (Nat.le_add_right _ _).trans hrun.asked_ahead
  · intro hprefetch text rows hread
    obtain ⟨s, stages, hrun, hcounts⟩ := Trail.ahead release hprefetch hread
    exact ⟨stages, s, hrun, hcounts⟩

/-- Two batches of three rows each: the three advances that take the rows of the first schedule a
fetch each, and two of these ask for more with two batches queued. -/
theorem asked_ahead_bounded_three :
    ∃ stages s, Run (.ordinary 1 {}) (.opened false) stages s ∧
      begun stages = [
        .extend ⟨.partialSequence, ["[\"a\",\"b\",\"c\"]", "[\"a\",\"b\",\"c\"]"], none⟩,
        .next (t := .datum) Datum.null, .next (t := .datum) Datum.null,
        .next (t := .datum) Datum.null] ∧
      askedAhead stages ≤ caught stages ∧ askedAhead stages = 2 := by
  have hread : (Setup.ordinary 1 {}).rows "[\"a\",\"b\",\"c\"]" =
      .ok [.string "a", .string "b", .string "c"] := by cbv
  have h := asked_ahead_bounded (.ordinary 1 {}) false
  obtain ⟨stages, s, hrun, hbegun, -, hasked⟩ := h.2 rfl _ _ hread
  exact ⟨stages, s, hrun, hbegun, h.1 hrun, hasked⟩

end RowStream
