import RowStream.Proofs.InFlight

/-!
# Counting fetches

How many operations and tasks are in a fetch of some kind, and what each move does to the number:
one operation or one task is in another fetch afterwards, and fetches may be scheduled.
-/

namespace RowStream.System

variable {setup : Setup} {s s' : System} {move : Move} {happenings : List Happening}
  {ofCall ofTask : Fetch → Bool}

/-! ## 1. The number of fetches of a kind -/

/-- How many operations and tasks are in a fetch of some kind. -/
def counting (ofCall ofTask : Fetch → Bool) (s : System) : Nat :=
  (s.calls.map fun call => Fetch.count ofCall call.fetch?).sum +
    (s.tasks.map fun task => Fetch.count ofTask task.fetch?).sum

theorem counting_after (hclaim : ofTask .claim = true) (c : Cursor) (calls : List Call)
    (tasks : List Task) (events : List Event) :
    (after c calls tasks events).counting ofCall ofTask =
      counting ofCall ofTask ⟨c, calls, tasks⟩ + events.countP Event.schedules := by
  have hcalls : (after c calls tasks events).calls.map (fun call =>
      Fetch.count ofCall call.fetch?) = calls.map fun call => Fetch.count ofCall call.fetch? := by
    unfold after
    split
    · rw [List.map_map]
      exact List.map_congr_left fun call _ => congrArg _ call.fetch?_wake
    · rfl
  have hone : Fetch.count ofTask Task.scheduled.fetch? = 1 := by
    show (ofTask .claim).toNat = 1
    rw [hclaim]
    rfl
  have htasks (k : Nat) : ((tasks ++ List.replicate k Task.scheduled).map fun task =>
      Fetch.count ofTask task.fetch?).sum =
        (tasks.map fun task => Fetch.count ofTask task.fetch?).sum + k := by
    rw [List.map_append, List.sum_append, List.map_replicate, List.sum_replicate_nat, hone,
      Nat.mul_one]
  rw [counting, hcalls, counting, Nat.add_assoc]
  exact congrArg (_ + ·) (htasks _)

theorem counting_call {before later : List Call} {call : Call}
    (h : s.calls = before ++ call :: later) : s.counting ofCall ofTask =
      counting ofCall ofTask ⟨s.cursor, before ++ later, s.tasks⟩ +
        Fetch.count ofCall call.fetch? := by
  simp only [counting, h, List.map_append, List.map_cons, List.sum_append, List.sum_cons]
  omega

theorem counting_task {before later : List Task} {task : Task}
    (h : s.tasks = before ++ task :: later) : s.counting ofCall ofTask =
      counting ofCall ofTask ⟨s.cursor, s.calls, before ++ later⟩ +
        Fetch.count ofTask task.fetch? := by
  simp only [counting, h, List.map_append, List.map_cons, List.sum_append, List.sum_cons]
  omega

/-! ## 2. Moves -/

/-- What a move does to the cursor and to numbers of fetches: one operation or one task is in
another fetch afterwards, and fetches may be scheduled, which are about to pass the gate. -/
inductive Counts (setup : Setup) (s s' : System) : Move → List Happening → Prop
  | begins (op : Operation) (hcursor : s'.cursor = s.cursor)
    (hcount : ∀ ofCall ofTask,
      s'.counting ofCall ofTask = s.counting ofCall ofTask + Fetch.count ofCall op.begin.fetch?) :
    Counts setup s s' (.begin op) [.began op]
  | call {place : Nat} {call : Call} {turn : Turn Call} (hcall : s.calls[place]? = some call)
    (hstep : call.step setup s.cursor = some turn) (hcursor : s'.cursor = turn.cursor)
    (hcount : ∀ ofCall ofTask, ofTask .claim = true → ∃ rest,
      s.counting ofCall ofTask = rest + Fetch.count ofCall call.fetch? ∧
        s'.counting ofCall ofTask =
          rest + Fetch.count ofCall turn.next.fetch? + turn.events.countP Event.schedules) :
    Counts setup s s' (.call place) (turn.events.map .event)
  | answerCall {place : Nat} {call : Call} {kind : Query.Kind} {a : Answer}
    (hcursor : s'.cursor = s.cursor)
    (hcount : ∀ ofCall ofTask, ∃ rest,
      s.counting ofCall ofTask = rest + Fetch.count ofCall call.fetch? ∧
        s'.counting ofCall ofTask =
          rest + Fetch.count ofCall (call.fetch?.map (Fetch.answer a))) :
    Counts setup s s' (.answerCall place a) [.answered kind a]
  | collect {place : Nat} {call : Call} (hmem : call ∈ s.calls)
    (hended : (call.isDone || call.isAborted) = true) (hcursor : s'.cursor = s.cursor)
    (hcount : ∀ ofCall ofTask,
      s.counting ofCall ofTask = s'.counting ofCall ofTask + Fetch.count ofCall call.fetch?) :
    Counts setup s s' (.collect place) [.collected call]
  | task {place : Nat} {task : Task} {turn : Turn Task} (htask : s.tasks[place]? = some task)
    (hstep : task.step setup s.cursor = some turn) (hcursor : s'.cursor = turn.cursor)
    (hcount : ∀ ofCall ofTask, ofTask .claim = true → ∃ rest,
      s.counting ofCall ofTask = rest + Fetch.count ofTask task.fetch? ∧
        s'.counting ofCall ofTask =
          rest + Fetch.count ofTask turn.next.fetch? + turn.events.countP Event.schedules) :
    Counts setup s s' (.task place) (turn.events.map .event)
  | answerTask {place : Nat} {task : Task} {kind : Query.Kind} {a : Answer}
    (hcursor : s'.cursor = s.cursor)
    (hcount : ∀ ofCall ofTask, ∃ rest,
      s.counting ofCall ofTask = rest + Fetch.count ofTask task.fetch? ∧
        s'.counting ofCall ofTask =
          rest + Fetch.count ofTask (task.fetch?.map (Fetch.answer a))) :
    Counts setup s s' (.answerTask place a) [.answered kind a]

theorem counts_of_move (hmove : s.move? setup move = some (s', happenings)) :
    Counts setup s s' move happenings := by
  cases move with
  | begin op =>
    cases hmove
    have hsplit : op.begin :: s.calls = [] ++ op.begin :: s.calls := rfl
    exact .begins op rfl fun ofCall ofTask =>
      counting_call (s := ⟨s.cursor, op.begin :: s.calls, s.tasks⟩) hsplit
  | call place =>
    obtain ⟨before, call, later, turn, hcalls, rfl, hstep, rfl, rfl⟩ := move?_call hmove
    refine .call (getElem?_of_split hcalls) hstep rfl fun ofCall ofTask hclaim =>
      ⟨_, counting_call hcalls, ?_⟩
    rw [counting_after hclaim,
      counting_call (s := ⟨turn.cursor, before ++ turn.next :: later, s.tasks⟩) rfl]
    rfl
  | answerCall place a =>
    obtain ⟨before, call, later, kind, hcalls, rfl, hawaits, rfl, rfl⟩ := move?_answerCall hmove
    refine .answerCall rfl fun ofCall ofTask => ⟨_, counting_call hcalls, ?_⟩
    rw [counting_call (s := ⟨s.cursor, before ++ call.answer a :: later, s.tasks⟩) rfl,
      call.fetch?_answer]
  | collect place =>
    obtain ⟨before, call, later, hcalls, rfl, hended, rfl, rfl⟩ := move?_collect hmove
    exact .collect (List.mem_of_getElem? (getElem?_of_split hcalls)) hended rfl fun ofCall ofTask =>
      counting_call hcalls
  | task place =>
    obtain ⟨before, task, later, turn, htasks, rfl, hstep, rfl, rfl⟩ := move?_task hmove
    refine .task (getElem?_of_split htasks) hstep rfl fun ofCall ofTask hclaim =>
      ⟨_, counting_task htasks, ?_⟩
    rw [counting_after hclaim,
      counting_task (s := ⟨turn.cursor, s.calls, before ++ turn.next :: later⟩) rfl]
    rfl
  | answerTask place a =>
    obtain ⟨before, task, later, kind, htasks, rfl, hawaits, rfl, rfl⟩ := move?_answerTask hmove
    refine .answerTask rfl fun ofCall ofTask => ⟨_, counting_task htasks, ?_⟩
    rw [counting_task (s := ⟨s.cursor, s.calls, before ++ task.answer a :: later⟩) rfl,
      task.fetch?_answer]

end RowStream.System
