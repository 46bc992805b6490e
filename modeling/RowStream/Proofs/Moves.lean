import RowStream.Cursor.System
import RowStream.Proofs.Advance

/-!
# Moves of a system

A turn of one activity changes the cursor and that activity, wakes the operations that sleep if it
notifies, and adds the fetches that it schedules at the end.
-/

namespace RowStream

/-- Whether an event tells those who sleep to look again. -/
def Event.notifies : Event → Bool
  | notified => true
  | _ => false

/-- Whether an event starts a fetch in the background. -/
def Event.schedules : Event → Bool
  | scheduled => true
  | _ => false

theorem Next.wake_wake {t : Target} (n : Next t) : n.wake.wake = n.wake := by
  obtain ⟨slot, phase⟩ := n
  cases phase <;> rfl

theorem Call.wake_wake (call : Call) : call.wake.wake = call.wake := by
  cases call with
  | next n => exact congrArg Call.next n.wake_wake
  | one o =>
    cases o with
    | advancing n => exact congrArg (fun n => Call.one (.advancing n)) n.wake_wake
    | _ => rfl
  | all a =>
    cases a with
    | advancing got spare n =>
      exact congrArg (fun n => Call.all (.advancing got spare n)) n.wake_wake
    | _ => rfl
  | item i =>
    cases i with
    | advancing n => exact congrArg (fun n => Call.item (.advancing n)) n.wake_wake
    | _ => rfl
  | close | extend => rfl

/-! ## 1. An operation does not wake itself -/

section

variable {setup : Setup} {c : Cursor} {t : Target}

theorem Next.wake_ofFetch (slot : t.Slot) (f : Fetch) :
    (⟨slot, .ofFetch f⟩ : Next t).wake = ⟨slot, .ofFetch f⟩ := by
  rcases phase_ofFetch f with hf | hf | hf | ⟨e, hf⟩ <;> rw [hf] <;> rfl

theorem Next.wake_ofClose (slot : t.Slot) (close : Close) :
    (⟨slot, .ofClose close⟩ : Next t).wake = ⟨slot, .ofClose close⟩ := by
  cases close <;> rfl

theorem Next.Looks.any_notifies {slot : t.Slot} {turn : Turn (Next t)}
    (h : Looks setup c slot turn) : turn.events.any Event.notifies = false := by
  cases h with
  | row hpop =>
    simp only [Cursor.schedule]
    split
    · split <;> rfl
    · rfl
  | _ => rfl

-- The only notifications of an advance come from its fetch and its closing, neither of which
-- sleeps afterwards.
theorem Next.wake_of_notifies {n : Next t} {turn : Turn (Next t)}
    (h : n.step setup c = some turn) (hnotifies : turn.events.any Event.notifies = true) :
    turn.next.wake = turn.next := by
  cases steps_of_step h with
  | looks slot hsight hlooks =>
    rw [hlooks.any_notifies] at hnotifies
    cases hnotifies
  | sleeps => cases hnotifies
  | fetches slot hstep => exact wake_ofFetch slot _
  | closes slot hstep => exact wake_ofClose slot _
  | enters | ends | records => rfl

theorem One.wake_ofNext {n : Next t} (h : n.wake = n) : (ofNext n).wake = ofNext n := by
  unfold ofNext
  split
  · rfl
  · rw [wake, h]

theorem All.wake_ofNext {got spare : List t.Slot} {n : Next t} (h : n.wake = n) :
    (ofNext got spare n).wake = ofNext got spare n := by
  unfold ofNext
  split
  · cases spare <;> rfl
  · rfl
  · rw [wake, h]

theorem NextItem.wake_ofNext {n : Next t} (h : n.wake = n) : (ofNext n).wake = ofNext n := by
  unfold ofNext
  split
  · rfl
  · rfl
  · rw [wake, h]

theorem Call.wake_of_notifies {call : Call} {turn : Turn Call} (h : call.step setup c = some turn)
    (hnotifies : turn.events.any Event.notifies = true) : turn.next.wake = turn.next := by
  cases call with
  | next n =>
    obtain ⟨turn, hstep, rfl⟩ := Option.map_eq_some_iff.mp h
    exact congrArg Call.next (Next.wake_of_notifies hstep hnotifies)
  | one o =>
    obtain ⟨turn, hstep, rfl⟩ := Option.map_eq_some_iff.mp h
    apply congrArg Call.one
    cases o with
    | advancing n =>
      obtain ⟨turn, hadvance, rfl⟩ := Option.map_eq_some_iff.mp hstep
      exact One.wake_ofNext (Next.wake_of_notifies hadvance hnotifies)
    | closing slot verdict close =>
      obtain ⟨turn, -, rfl⟩ := Option.map_eq_some_iff.mp hstep
      cases hnext : turn.next <;> simp only [Turn.map, hnext] <;> rfl
    | look slot => cases hstep; cases hnotifies
    | judge slot more => cases hstep; cases hnotifies
    | done => cases hstep
  | all a =>
    obtain ⟨turn, hstep, rfl⟩ := Option.map_eq_some_iff.mp h
    apply congrArg Call.all
    cases a with
    | advancing got spare n =>
      obtain ⟨turn, hadvance, rfl⟩ := Option.map_eq_some_iff.mp hstep
      exact All.wake_ofNext (Next.wake_of_notifies hadvance hnotifies)
    | closing got verdict close =>
      obtain ⟨turn, -, rfl⟩ := Option.map_eq_some_iff.mp hstep
      cases hnext : turn.next <;> simp only [Turn.map, hnext] <;> rfl
    | judge got => cases hstep; cases hnotifies
    | done => cases hstep
  | item i =>
    obtain ⟨turn, hstep, rfl⟩ := Option.map_eq_some_iff.mp h
    apply congrArg Call.item
    cases i with
    | advancing n =>
      obtain ⟨turn, hadvance, rfl⟩ := Option.map_eq_some_iff.mp hstep
      exact NextItem.wake_ofNext (Next.wake_of_notifies hadvance hnotifies)
    | judge => cases hstep; cases hnotifies
    | done => cases hstep
  | close x =>
    obtain ⟨turn, -, rfl⟩ := Option.map_eq_some_iff.mp h
    rfl
  | extend f =>
    obtain ⟨turn, -, rfl⟩ := Option.map_eq_some_iff.mp h
    rfl

end

/-! ## 2. The steps of an operation -/

/-- The fetch that an operation is in. -/
def Call.fetch? : Call → Option Fetch
  | next n => n.fetch?
  | one (.advancing n) => n.fetch?
  | all (.advancing _ _ n) => n.fetch?
  | item (.advancing n) => n.fetch?
  | extend f => some f
  | _ => none

/-- The steps of an operation: what they do is done by its advance, its closing or its fetch. -/
inductive Call.Steps (setup : Setup) (c : Cursor) (call : Call) (turn : Turn Call) : Prop
  | judges (hfetch : call.fetch? = none) (hnext : turn.next.fetch? = none)
    (hcursor : turn.cursor = c) (hevents : turn.events = [])
  | advances {t : Target} {n : Next t} {inner : Turn (Next t)} (hstep : Next.Steps setup c n inner)
    (hfetch : call.fetch? = n.fetch?) (hnext : turn.next.fetch? = inner.next.fetch?)
    (hcursor : turn.cursor = inner.cursor) (hevents : turn.events = inner.events)
  | closes {x : Close} {inner : Turn Close} (hstep : Close.Steps c x inner)
    (hfetch : call.fetch? = none) (hnext : turn.next.fetch? = none)
    (hcursor : turn.cursor = inner.cursor) (hevents : turn.events = inner.events)
  | fetches {f : Fetch} {inner : Turn Fetch} (hstep : Fetch.Steps setup c f inner)
    (hfetch : call.fetch? = some f) (hnext : turn.next.fetch? = some inner.next)
    (hcursor : turn.cursor = inner.cursor) (hevents : turn.events = inner.events)

section

variable {setup : Setup} {c : Cursor} {t : Target}

theorem One.fetch?_ofNext (n : Next t) : (Call.one (ofNext n)).fetch? = n.fetch? := by
  obtain ⟨slot, phase⟩ := n
  cases phase <;> rfl

theorem All.fetch?_ofNext (got spare : List t.Slot) (n : Next t) :
    (Call.all (ofNext got spare n)).fetch? = n.fetch? := by
  obtain ⟨slot, phase⟩ := n
  cases phase with
  | done more =>
    cases more with
    | true => cases spare <;> rfl
    | false => rfl
  | _ => rfl

theorem NextItem.fetch?_ofNext (n : Next t) : (Call.item (ofNext n)).fetch? = n.fetch? := by
  obtain ⟨slot, phase⟩ := n
  cases phase with
  | done more => cases more <;> rfl
  | _ => rfl

theorem One.fetch?_ofClose (slot : t.Slot) (verdict : Verdict) (close : Close) :
    (Call.one (ofClose slot verdict close)).fetch? = none := by
  cases close <;> rfl

theorem All.fetch?_ofClose (got : List t.Slot) (verdict : Verdict) (close : Close) :
    (Call.all (ofClose got verdict close)).fetch? = none := by
  cases close <;> rfl

theorem Call.steps_of_step {call : Call} {turn : Turn Call} (h : call.step setup c = some turn) :
    Steps setup c call turn := by
  cases call with
  | next n =>
    obtain ⟨inner, hn, rfl⟩ := Option.map_eq_some_iff.mp h
    exact .advances (Next.steps_of_step hn) rfl rfl rfl rfl
  | one o =>
    obtain ⟨middle, ho, rfl⟩ := Option.map_eq_some_iff.mp h
    cases o with
    | look slot =>
      cases ho
      refine .judges rfl ?_ rfl rfl
      show (Call.one (if c.isNil then _ else _)).fetch? = none
      split <;> rfl
    | judge slot more => cases ho; exact .judges rfl rfl rfl rfl
    | advancing n =>
      obtain ⟨inner, hn, rfl⟩ := Option.map_eq_some_iff.mp ho
      exact .advances (Next.steps_of_step hn) rfl (One.fetch?_ofNext inner.next) rfl rfl
    | closing slot verdict x =>
      obtain ⟨inner, hx, rfl⟩ := Option.map_eq_some_iff.mp ho
      exact .closes (Close.steps_of_step hx) rfl (One.fetch?_ofClose slot verdict _) rfl rfl
    | done => cases ho
  | all a =>
    obtain ⟨middle, ha, rfl⟩ := Option.map_eq_some_iff.mp h
    cases a with
    | judge got => cases ha; exact .judges rfl rfl rfl rfl
    | advancing got spare n =>
      obtain ⟨inner, hn, rfl⟩ := Option.map_eq_some_iff.mp ha
      exact .advances (Next.steps_of_step hn) rfl (All.fetch?_ofNext got spare inner.next) rfl rfl
    | closing got verdict x =>
      obtain ⟨inner, hx, rfl⟩ := Option.map_eq_some_iff.mp ha
      exact .closes (Close.steps_of_step hx) rfl (All.fetch?_ofClose got verdict _) rfl rfl
    | done => cases ha
  | item i =>
    obtain ⟨middle, hi, rfl⟩ := Option.map_eq_some_iff.mp h
    cases i with
    | judge => cases hi; exact .judges rfl rfl rfl rfl
    | advancing n =>
      obtain ⟨inner, hn, rfl⟩ := Option.map_eq_some_iff.mp hi
      exact .advances (Next.steps_of_step hn) rfl (NextItem.fetch?_ofNext inner.next) rfl rfl
    | done => cases hi
  | close x =>
    obtain ⟨inner, hx, rfl⟩ := Option.map_eq_some_iff.mp h
    exact .closes (Close.steps_of_step hx) rfl rfl rfl rfl
  | extend f =>
    obtain ⟨inner, hf, rfl⟩ := Option.map_eq_some_iff.mp h
    exact .fetches (Fetch.steps_of_step hf) rfl rfl rfl rfl

end

/-! ## 3. Moves -/

namespace System

/-- A system after a turn with some events. -/
def after (c : Cursor) (calls : List Call) (tasks : List Task) (events : List Event) : System :=
  { cursor := c
    calls := if events.any Event.notifies then calls.map Call.wake else calls
    tasks := tasks ++ List.replicate (events.countP Event.schedules) .scheduled }

@[simp] theorem cursor_after (c : Cursor) (calls : List Call) (tasks : List Task)
    (events : List Event) : (after c calls tasks events).cursor = c := rfl

-- An operation that notifies is not asleep, so its turn does not wake it.
theorem after_of_step {setup : Setup} {c : Cursor} {call : Call} {turn : Turn Call}
    (h : call.step setup c = some turn) (tasks : List Task) :
    after turn.cursor [turn.next] tasks turn.events =
      ⟨turn.cursor, [turn.next],
        tasks ++ List.replicate (turn.events.countP Event.schedules) .scheduled⟩ := by
  unfold after
  split
  next hnotifies => rw [List.map_singleton, Call.wake_of_notifies h hnotifies]
  next => rfl

-- The induction is on the events: what the first one does is what it does to the whole list.
theorem foldl_heed (s : System) (events : List Event) :
    events.foldl heed s = after s.cursor s.calls s.tasks events := by
  induction events generalizing s with
  | nil => exact congrArg (System.mk s.cursor s.calls) (List.append_nil _).symm
  | cons event events ih =>
    rw [List.foldl_cons, ih]
    cases event with
    | notified =>
      -- Being told twice is no more than being told once.
      have hwake : (s.calls.map Call.wake).map Call.wake = s.calls.map Call.wake := by
        rw [List.map_map]
        exact List.map_congr_left fun call _ => call.wake_wake
      simp [after, heed, Event.notifies, Event.schedules, hwake]
    | scheduled =>
      have hcount : (Event.scheduled :: events).countP Event.schedules =
        events.countP Event.schedules + 1 := List.countP_cons_of_pos rfl
      simp [after, heed, Event.notifies, hcount, List.replicate_succ]
    | sent | logged | released => simp [after, heed, Event.notifies, Event.schedules]

-- Replacing the activity at a place leaves those before it and after it as they are.
theorem split_of_getElem? {α : Type} {xs : List α} {place : Nat} {x : α}
    (h : xs[place]? = some x) (y : α) :
    ∃ before later, xs = before ++ x :: later ∧ before.length = place ∧
      xs.set place y = before ++ y :: later := by
  obtain ⟨hplace, rfl⟩ := List.getElem?_eq_some_iff.mp h
  exact List.exists_of_set hplace

theorem getElem?_of_split {α : Type} {xs before later : List α} {x : α}
    (h : xs = before ++ x :: later) : xs[before.length]? = some x := by
  rw [h, List.getElem?_append_right (Nat.le_refl _), Nat.sub_self]
  rfl

theorem alone_of_length_le {α : Type} {xs before later : List α} {x : α} (hlength : xs.length ≤ 1)
    (h : xs = before ++ x :: later) : before = [] ∧ later = [] := by
  rw [h, List.length_append, List.length_cons] at hlength
  exact ⟨List.length_eq_zero_iff.mp (by omega), List.length_eq_zero_iff.mp (by omega)⟩

-- What is there after an activity was taken away, or replaced by another.
theorem mem_of_taken {α : Type} {xs before later : List α} {x y : α}
    (h : xs = before ++ x :: later) (hmem : y ∈ before ++ later) : y ∈ xs := by
  rw [h]
  exact (List.mem_append.mp hmem).elim (List.mem_append_left _) fun hmem =>
    List.mem_append_right _ (List.mem_cons_of_mem _ hmem)

theorem mem_of_replaced {α : Type} {xs before later : List α} {x x' y : α}
    (h : xs = before ++ x :: later) (hmem : y ∈ before ++ x' :: later) : y = x' ∨ y ∈ xs := by
  rcases List.mem_append.mp hmem with hmem | hmem
  · exact .inr (mem_of_taken h (List.mem_append_left _ hmem))
  · rcases List.mem_cons.mp hmem with rfl | hmem
    · exact .inl rfl
    · exact .inr (mem_of_taken h (List.mem_append_right _ hmem))

variable {setup : Setup} {s s' : System} {happenings : List Happening} {place : Nat}

theorem move?_call (h : s.move? setup (.call place) = some (s', happenings)) :
    ∃ before call later turn, s.calls = before ++ call :: later ∧ before.length = place ∧
      call.step setup s.cursor = some turn ∧ happenings = turn.events.map .event ∧
      s' = after turn.cursor (before ++ turn.next :: later) s.tasks turn.events := by
  simp only [move?, Option.bind_eq_bind, Option.bind_eq_some_iff] at h
  obtain ⟨call, hcall, turn, hstep, h⟩ := h
  obtain ⟨before, later, hcalls, hlength, hset⟩ := split_of_getElem? hcall turn.next
  refine ⟨before, _, later, turn, hcalls, hlength, hstep, ?_⟩
  cases h
  exact ⟨rfl, by rw [foldl_heed, hset]⟩

theorem move?_task (h : s.move? setup (.task place) = some (s', happenings)) :
    ∃ before task later turn, s.tasks = before ++ task :: later ∧ before.length = place ∧
      task.step setup s.cursor = some turn ∧ happenings = turn.events.map .event ∧
      s' = after turn.cursor s.calls (before ++ turn.next :: later) turn.events := by
  simp only [move?, Option.bind_eq_bind, Option.bind_eq_some_iff] at h
  obtain ⟨task, htask, turn, hstep, h⟩ := h
  obtain ⟨before, later, htasks, hlength, hset⟩ := split_of_getElem? htask turn.next
  refine ⟨before, _, later, turn, htasks, hlength, hstep, ?_⟩
  cases h
  exact ⟨rfl, by rw [foldl_heed, hset]⟩

theorem move?_answerCall {a : Answer}
    (h : s.move? setup (.answerCall place a) = some (s', happenings)) :
    ∃ before call later kind, s.calls = before ++ call :: later ∧ before.length = place ∧
      call.awaits? = some kind ∧ happenings = [.answered kind a] ∧
      s' = { s with calls := before ++ call.answer a :: later } := by
  simp only [move?, Option.bind_eq_bind, Option.bind_eq_some_iff] at h
  obtain ⟨call, hcall, kind, hkind, h⟩ := h
  obtain ⟨before, later, hcalls, hlength, hset⟩ := split_of_getElem? hcall (call.answer a)
  refine ⟨before, _, later, kind, hcalls, hlength, hkind, ?_⟩
  cases h
  exact ⟨rfl, by rw [hset]⟩

theorem move?_answerTask {a : Answer}
    (h : s.move? setup (.answerTask place a) = some (s', happenings)) :
    ∃ before task later kind, s.tasks = before ++ task :: later ∧ before.length = place ∧
      task.awaits? = some kind ∧ happenings = [.answered kind a] ∧
      s' = { s with tasks := before ++ task.answer a :: later } := by
  simp only [move?, Option.bind_eq_bind, Option.bind_eq_some_iff] at h
  obtain ⟨task, htask, kind, hkind, h⟩ := h
  obtain ⟨before, later, htasks, hlength, hset⟩ := split_of_getElem? htask (task.answer a)
  refine ⟨before, _, later, kind, htasks, hlength, hkind, ?_⟩
  cases h
  exact ⟨rfl, by rw [hset]⟩

theorem move?_collect (h : s.move? setup (.collect place) = some (s', happenings)) :
    ∃ before call later, s.calls = before ++ call :: later ∧ before.length = place ∧
      (call.isDone || call.isAborted) = true ∧ happenings = [.collected call] ∧
      s' = { s with calls := before ++ later } := by
  simp only [move?, Option.bind_eq_bind, Option.bind_eq_some_iff] at h
  obtain ⟨call, hcall, h⟩ := h
  obtain ⟨before, later, hcalls, hlength, -⟩ := split_of_getElem? hcall call
  refine ⟨before, call, later, hcalls, hlength, ?_⟩
  split at h
  next hended =>
    cases h
    refine ⟨hended, rfl, ?_⟩
    rw [hcalls, ← hlength, List.eraseIdx_append_of_length_le (Nat.le_refl _), Nat.sub_self]
    rfl
  next => cases h

end System

/-! ## 4. Where operations come from -/

section

variable {setup : Setup} {s s' : System} {move : Move} {happenings : List Happening}

/-- Where an operation under way comes from that is there after a move. -/
inductive Call.Stems (setup : Setup) (s s' : System) (move : Move) (happenings : List Happening) :
    Call → Prop
  | same {call : Call} (hmem : call ∈ s.calls) (hquiet : .event .notified ∉ happenings) :
    Stems setup s s' move happenings call
  | woken {call : Call} (hmem : call ∈ s.calls) : Stems setup s s' move happenings call.wake
  | begun {op : Operation} (hmove : move = .begin op) : Stems setup s s' move happenings op.begin
  | turned {place : Nat} {call : Call} {turn : Turn Call} (hmove : move = .call place)
    (hcall : s.calls[place]? = some call) (hstep : call.step setup s.cursor = some turn)
    (hcursor : s'.cursor = turn.cursor) (hhappened : happenings = turn.events.map .event) :
    Stems setup s s' move happenings turn.next
  | answered {place : Nat} {call : Call} {kind : Query.Kind} {a : Answer}
    (hmove : move = .answerCall place a) (hcall : s.calls[place]? = some call)
    (hawaits : call.awaits? = some kind) (hcursor : s'.cursor = s.cursor)
    (hhappened : happenings = [.answered kind a]) :
    Stems setup s s' move happenings (call.answer a)

theorem Event.notified_not_mem {events : List Event} (h : events.any notifies = false) :
    .event .notified ∉ events.map Happening.event := by
  intro hnotified
  obtain ⟨event, hevent, hhappening⟩ := List.mem_map.mp hnotified
  cases hhappening
  rw [List.any_eq_true.mpr ⟨notified, hevent, rfl⟩] at h
  cases h

theorem Call.stems_of_after {c : Cursor} {calls : List Call} {tasks : List Task}
    {events : List Event} {call : Call} (h : call ∈ (System.after c calls tasks events).calls) :
    (call ∈ calls ∧ .event .notified ∉ events.map Happening.event) ∨
      (events.any Event.notifies = true ∧ ∃ other ∈ calls, call = other.wake) := by
  unfold System.after at h
  split at h
  next hnotifies =>
    obtain ⟨other, hmem, rfl⟩ := List.mem_map.mp h
    exact .inr ⟨hnotifies, other, hmem, rfl⟩
  next hquiet => exact .inl ⟨h, Event.notified_not_mem (Bool.eq_false_iff.mpr hquiet)⟩

theorem System.stems_of_move (hmove : s.move? setup move = some (s', happenings)) {call : Call}
    (h : call ∈ s'.calls) : call.Stems setup s s' move happenings := by
  cases move with
  | begin op =>
    cases hmove
    rcases List.mem_cons.mp h with rfl | hmem
    · exact .begun rfl
    · exact .same hmem (by simp)
  | call place =>
    obtain ⟨before, turning, later, turn, hcalls, rfl, hstep, rfl, rfl⟩ := move?_call hmove
    have hturned : turn.next.Stems setup s
        (after turn.cursor (before ++ turn.next :: later) s.tasks turn.events)
        (.call before.length) (turn.events.map .event) :=
      .turned rfl (getElem?_of_split hcalls) hstep rfl rfl
    rcases Call.stems_of_after h with ⟨hcall, hquiet⟩ | ⟨hnotifies, other, hother, rfl⟩
    · rcases mem_of_replaced hcalls hcall with rfl | hcall
      · exact hturned
      · exact .same hcall hquiet
    · rcases mem_of_replaced hcalls hother with rfl | hother
      · rw [Call.wake_of_notifies hstep hnotifies]
        exact hturned
      · exact .woken hother
  | answerCall place a =>
    obtain ⟨before, answered, later, kind, hcalls, rfl, hawaits, rfl, rfl⟩ :=
      move?_answerCall hmove
    rcases mem_of_replaced hcalls h with rfl | hmem
    · exact .answered rfl (getElem?_of_split hcalls) hawaits rfl rfl
    · exact .same hmem (by simp)
  | collect place =>
    obtain ⟨before, taken, later, hcalls, rfl, hended, rfl, rfl⟩ := move?_collect hmove
    exact .same (mem_of_taken hcalls h) (by simp)
  | task place =>
    obtain ⟨before, task, later, turn, htasks, rfl, hstep, rfl, rfl⟩ := move?_task hmove
    rcases Call.stems_of_after h with ⟨hcall, hquiet⟩ | ⟨-, other, hother, rfl⟩
    · exact .same hcall hquiet
    · exact .woken hother
  | answerTask place a =>
    obtain ⟨before, task, later, kind, htasks, rfl, hawaits, rfl, rfl⟩ := move?_answerTask hmove
    exact .same h (by simp)

/-- Where a task comes from that is there after a move. -/
inductive Task.Stems (setup : Setup) (s s' : System) (move : Move) (happenings : List Happening) :
    Task → Prop
  | same {task : Task} (hmem : task ∈ s.tasks) : Stems setup s s' move happenings task
  | scheduled : Stems setup s s' move happenings .scheduled
  | turned {place : Nat} {task : Task} {turn : Turn Task} (hmove : move = .task place)
    (htask : s.tasks[place]? = some task) (hstep : task.step setup s.cursor = some turn)
    (hcursor : s'.cursor = turn.cursor) (hhappened : happenings = turn.events.map .event) :
    Stems setup s s' move happenings turn.next
  | answered {place : Nat} {task : Task} {kind : Query.Kind} {a : Answer}
    (hmove : move = .answerTask place a) (htask : s.tasks[place]? = some task)
    (hawaits : task.awaits? = some kind) (hcursor : s'.cursor = s.cursor)
    (hhappened : happenings = [.answered kind a]) : Stems setup s s' move happenings (task.answer a)

theorem Task.mem_after {c : Cursor} {calls : List Call} {tasks : List Task} {events : List Event}
    {task : Task} (h : task ∈ (System.after c calls tasks events).tasks) :
    task ∈ tasks ∨ task = .scheduled :=
  (List.mem_append.mp h).imp_right List.eq_of_mem_replicate

theorem System.taskStems_of_move (hmove : s.move? setup move = some (s', happenings)) {task : Task}
    (h : task ∈ s'.tasks) : task.Stems setup s s' move happenings := by
  cases move with
  | begin op =>
    cases hmove
    exact .same h
  | call place =>
    obtain ⟨before, call, later, turn, hcalls, rfl, hstep, rfl, rfl⟩ := move?_call hmove
    rcases Task.mem_after h with hmem | rfl
    · exact .same hmem
    · exact .scheduled
  | answerCall place a =>
    obtain ⟨before, call, later, kind, hcalls, rfl, hawaits, rfl, rfl⟩ := move?_answerCall hmove
    exact .same h
  | collect place =>
    obtain ⟨before, call, later, hcalls, rfl, hended, rfl, rfl⟩ := move?_collect hmove
    exact .same h
  | task place =>
    obtain ⟨before, turning, later, turn, htasks, rfl, hstep, rfl, rfl⟩ := move?_task hmove
    rcases Task.mem_after h with hmem | rfl
    · rcases mem_of_replaced htasks hmem with rfl | hmem
      · exact .turned rfl (getElem?_of_split htasks) hstep rfl rfl
      · exact .same hmem
    · exact .scheduled
  | answerTask place a =>
    obtain ⟨before, answered, later, kind, htasks, rfl, hawaits, rfl, rfl⟩ :=
      move?_answerTask hmove
    rcases mem_of_replaced htasks h with rfl | hmem
    · exact .answered rfl (getElem?_of_split htasks) hawaits rfl rfl
    · exact .same hmem

end
end RowStream
