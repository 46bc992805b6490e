import RowStream.Proofs.Asking

/-!
# Activities

An operation or a fetch in the background, followed through a run.  Other operations that begin or
are taken back change the place of an operation; what an activity is doing is changed by its own
moves only.
-/

namespace RowStream

variable {setup : Setup} {s s' start : System} {move : Move} {happenings : List Happening}
  {stages : List Stage}

/-- An operation or a fetch in the background, by its place. -/
inductive Activity
  | call (place : Nat)
  | task (place : Nat)
deriving DecidableEq

namespace Activity

variable {a b : Activity}

/-! ## 1. Places -/

/-- The turn of an activity as a move. -/
def turn : Activity → Move
  | call place => .call place
  | task place => .task place

/-- The answer to the query of an activity as a move. -/
def answered (answer : Answer) : Activity → Move
  | call place => .answerCall place answer
  | task place => .answerTask place answer

/-- Whether a move is a turn of an activity, or the answer to its query. -/
def owns : Activity → Move → Bool
  | call place, .call turning => place == turning
  | call place, .answerCall answered _ => place == answered
  | task place, .task turning => place == turning
  | task place, .answerTask answered _ => place == answered
  | _, _ => false

/-- Where an activity is after a move, unless the caller takes it back. -/
def after (move : Move) : Activity → Option Activity
  | call place =>
    match move with
    | .begin _ => some (call (place + 1))
    | .collect taken =>
      if place < taken then some (call place)
      else if place = taken then none
      else some (call (place - 1))
    | _ => some (call place)
  | task place => some (task place)

/-- Where an activity is after a run, unless the caller has taken it back. -/
def afterAll : List Stage → Activity → Option Activity
  | [], a => some a
  | stage :: stages, a => (a.after stage.move).bind (afterAll stages)

/-- The stages of a run in which an activity moves. -/
def own : List Stage → Activity → List Stage
  | [], _ => []
  | stage :: stages, a =>
    (if a.owns stage.move then [stage] else []) ++ ((a.after stage.move).map (own stages)).getD []

theorem afterAll_append (stages later : List Stage) (a : Activity) :
    a.afterAll (stages ++ later) = (a.afterAll stages).bind (afterAll later) := by
  induction stages generalizing a with
  | nil => rfl
  | cons stage stages ih =>
    show (a.after stage.move).bind _ = ((a.after stage.move).bind _).bind _
    cases a.after stage.move with
    | none => rfl
    | some b => exact ih b

theorem own_append (stages later : List Stage) (a : Activity) :
    a.own (stages ++ later) = a.own stages ++ ((a.afterAll stages).map (own later)).getD [] := by
  induction stages generalizing a with
  | nil => rfl
  | cons stage stages ih =>
    simp only [List.cons_append, own, afterAll, List.append_assoc]
    cases a.after stage.move with
    | none => rfl
    | some b => exact congrArg (_ ++ ·) (ih b)

theorem after_of_owns (h : a.owns move = true) : a.after move = some a := by
  cases a with
  | call place =>
    cases move with
    | call | answerCall => rfl
    | begin | collect | task | answerTask => cases h
  | task place => rfl

theorem afterAll_concat (h : a.afterAll stages = some b) (stage : Stage) :
    a.afterAll (stages ++ [stage]) = b.after stage.move := by
  rw [afterAll_append, h]
  cases hafter : b.after stage.move <;> simp [afterAll, hafter]

theorem own_concat (h : a.afterAll stages = some b) (stage : Stage) :
    a.own (stages ++ [stage]) =
      a.own stages ++ if b.owns stage.move then [stage] else [] := by
  rw [own_append, h]
  cases hafter : b.after stage.move <;> simp [own, hafter]

/-! ## 2. What an activity counts for -/

/-- What the activity at a place counts for; where there is none, it is nothing. -/
def weight (w : Weight) (s : System) : Activity → Nat
  | call place => (s.calls[place]?.map w.ofCall).getD 0
  | task place => (s.tasks[place]?.map w.ofTask).getD 0

theorem weight_call {place : Nat} {call : Call} (h : s.calls[place]? = some call) (w : Weight) :
    (Activity.call place).weight w s = w.ofCall call := by
  rw [weight, h]
  rfl

theorem weight_task {place : Nat} {task : Task} (h : s.tasks[place]? = some task) (w : Weight) :
    (Activity.task place).weight w s = w.ofTask task := by
  rw [weight, h]
  rfl

theorem call_of_weight {place : Nat} {w : Weight} (h : 0 < (Activity.call place).weight w s) :
    ∃ own, s.calls[place]? = some own ∧ 0 < w.ofCall own := by
  cases hcall : s.calls[place]? with
  | none =>
    rw [weight, hcall] at h
    cases h
  | some own => exact ⟨own, rfl, weight_call hcall w ▸ h⟩

theorem task_of_weight {place : Nat} {w : Weight} (h : 0 < (Activity.task place).weight w s) :
    ∃ own, s.tasks[place]? = some own ∧ 0 < w.ofTask own := by
  cases htask : s.tasks[place]? with
  | none =>
    rw [weight, htask] at h
    cases h
  | some own => exact ⟨own, rfl, weight_task htask w ▸ h⟩

-- Waking operations and scheduling fetches makes no difference.
theorem weight_after (w : Weight) (c : Cursor) (calls : List Call) (tasks : List Task)
    (events : List Event) (a : Activity) :
    a.weight w (.after c calls tasks events) = a.weight w ⟨c, calls, tasks⟩ := by
  cases a with
  | call place =>
    simp only [weight, System.after]
    split
    · rw [List.getElem?_map, Option.map_map]
      congr 2
      exact funext w.ofCall_wake
    · rfl
  | task place =>
    simp only [weight, System.after, List.getElem?_append, List.getElem?_replicate]
    split
    · rfl
    next hplace =>
      rw [List.getElem?_eq_none (Nat.le_of_not_lt hplace)]
      split
      · exact w.ofTask_scheduled
      · rfl

theorem getElem?_of_ne {α : Type} {before later : List α} {place : Nat}
    (h : place ≠ before.length) (x y : α) :
    (before ++ x :: later)[place]? = (before ++ y :: later)[place]? := by
  rw [List.getElem?_append, List.getElem?_append]
  split
  · rfl
  · rw [List.getElem?_cons, List.getElem?_cons, if_neg (by omega), if_neg (by omega)]

theorem weight_of_calls {before later : List Call} {call call' : Call}
    (hcalls : s.calls = before ++ call :: later) (hplace : a ≠ .call before.length) (w : Weight)
    (c : Cursor) : a.weight w ⟨c, before ++ call' :: later, s.tasks⟩ = a.weight w s := by
  cases a with
  | call place =>
    simp only [weight, hcalls]
    rw [getElem?_of_ne (fun h => hplace (congrArg Activity.call h)) call' call]
  | task place => rfl

theorem weight_of_tasks {before later : List Task} {task task' : Task}
    (htasks : s.tasks = before ++ task :: later) (hplace : a ≠ .task before.length) (w : Weight)
    (c : Cursor) : a.weight w ⟨c, s.calls, before ++ task' :: later⟩ = a.weight w s := by
  cases a with
  | call place => rfl
  | task place =>
    simp only [weight, htasks]
    rw [getElem?_of_ne (fun h => hplace (congrArg Activity.task h)) task' task]

/-! ## 3. The moves of others -/

theorem ne_of_not_owns (h : a.owns move = false) (hmoves : b.owns move = true) : a ≠ b := by
  rintro rfl
  rw [h] at hmoves
  cases hmoves

theorem owns_call (place : Nat) : (call place).owns (.call place) = true := beq_self_eq_true place

theorem owns_answerCall (place : Nat) (answer : Answer) :
    (call place).owns (.answerCall place answer) = true := beq_self_eq_true place

theorem owns_task (place : Nat) : (task place).owns (.task place) = true := beq_self_eq_true place

theorem owns_answerTask (place : Nat) (answer : Answer) :
    (task place).owns (.answerTask place answer) = true := beq_self_eq_true place

/-- What an activity counts for is not changed by the moves of others. -/
theorem weight_of_not_owns (hmove : s.move? setup move = some (s', happenings))
    (howns : a.owns move = false) (hafter : a.after move = some b) (w : Weight) :
    b.weight w s' = a.weight w s := by
  cases move with
  | begin op =>
    cases hmove
    cases a <;> cases hafter <;> rfl
  | call turning =>
    obtain rfl : a = b := by cases a <;> exact Option.some.inj hafter
    obtain ⟨before, call, later, turn, hcalls, rfl, hstep, rfl, rfl⟩ := System.move?_call hmove
    rw [weight_after]
    exact weight_of_calls hcalls (ne_of_not_owns howns (owns_call _)) w _
  | answerCall answered answer =>
    obtain rfl : a = b := by cases a <;> exact Option.some.inj hafter
    obtain ⟨before, call, later, kind, hcalls, rfl, hawaits, rfl, rfl⟩ :=
      System.move?_answerCall hmove
    exact weight_of_calls hcalls (ne_of_not_owns howns (owns_answerCall _ _)) w _
  | collect taken =>
    obtain ⟨before, call, later, hcalls, rfl, hended, rfl, rfl⟩ := System.move?_collect hmove
    cases a with
    | call place =>
      simp only [after] at hafter
      -- An operation behind the one that is taken back moves up by one place.
      split at hafter
      next hbefore =>
        cases hafter
        simp only [weight, hcalls]
        rw [List.getElem?_append_left hbefore, List.getElem?_append_left hbefore]
      next hbefore =>
        split at hafter
        · cases hafter
        next hplace =>
          cases hafter
          simp only [weight, hcalls]
          rw [List.getElem?_append_right (by omega), List.getElem?_append_right (by omega),
            List.getElem?_cons, if_neg (by omega), Nat.sub_right_comm]
    | task place =>
      cases hafter
      rfl
  | task turning =>
    obtain rfl : a = b := by cases a <;> exact Option.some.inj hafter
    obtain ⟨before, task, later, turn, htasks, rfl, hstep, rfl, rfl⟩ := System.move?_task hmove
    rw [weight_after]
    exact weight_of_tasks htasks (ne_of_not_owns howns (owns_task _)) w _
  | answerTask answered answer =>
    obtain rfl : a = b := by cases a <;> exact Option.some.inj hafter
    obtain ⟨before, task, later, kind, htasks, rfl, hawaits, rfl, rfl⟩ :=
      System.move?_answerTask hmove
    exact weight_of_tasks htasks (ne_of_not_owns howns (owns_answerTask _ _)) w _

theorem eq_of_owns (ha : a.owns move = true) (hb : b.owns move = true) : a = b := by
  cases a with
  | call place =>
    cases move with
    | call turning | answerCall answered =>
      cases b with
      | call place' => rw [eq_of_beq ha, eq_of_beq hb]
      | task => cases hb
    | begin | collect | task | answerTask => cases ha
  | task place =>
    cases move with
    | task turning | answerTask answered =>
      cases b with
      | call => cases hb
      | task place' => rw [eq_of_beq ha, eq_of_beq hb]
    | begin | collect | call | answerCall => cases ha

-- Beginning an operation and taking one back are moves of nobody.
theorem cursor_of_not_owned (hmove : s.move? setup move = some (s', happenings))
    (hnone : ∀ a : Activity, a.owns move = false) : s'.cursor = s.cursor := by
  cases move with
  | begin op => cases hmove; rfl
  | collect taken =>
    obtain ⟨before, call, later, -, -, -, -, rfl⟩ := System.move?_collect hmove
    rfl
  | call place => cases (owns_call place).symm.trans (hnone _)
  | answerCall place answer => cases (owns_answerCall place answer).symm.trans (hnone _)
  | task place => cases (owns_task place).symm.trans (hnone _)
  | answerTask place answer => cases (owns_answerTask place answer).symm.trans (hnone _)

-- The caller takes back nothing but operations at their end.
theorem ended_of_after_eq_none (hmove : s.move? setup move = some (s', happenings))
    (hafter : a.after move = none) :
    ∃ place call, a = .call place ∧ s.calls[place]? = some call ∧
      (call.isDone || call.isAborted) = true := by
  cases a with
  | call place =>
    cases move with
    | collect taken =>
      simp only [after] at hafter
      split at hafter
      · cases hafter
      · split at hafter
        next hplace =>
          obtain ⟨before, call, later, hcalls, rfl, hended, -⟩ := System.move?_collect hmove
          exact ⟨place, call, rfl, hplace ▸ System.getElem?_of_split hcalls, hended⟩
        · cases hafter
    | begin | call | answerCall | task | answerTask => cases hafter
  | task place => cases hafter

-- What counts for something until the caller can take it back is there after the moves of others.
theorem stays_of_not_owns (hmove : s.move? setup move = some (s', happenings))
    (howns : a.owns move = false) {w : Weight} (hweight : 0 < a.weight w s)
    (hended : ∀ call ∈ s.calls, (call.isDone || call.isAborted) = true → w.ofCall call = 0) :
    ∃ b, a.after move = some b ∧ b.weight w s' = a.weight w s := by
  cases hafter : a.after move with
  | some b => exact ⟨b, rfl, weight_of_not_owns hmove howns hafter w⟩
  | none =>
    obtain ⟨place, call, rfl, hcall, hdone⟩ := ended_of_after_eq_none hmove hafter
    rw [weight_call hcall, hended call (List.mem_of_getElem? hcall) hdone] at hweight
    cases hweight

/-! ## 4. Its own moves -/

/-- The moves of an activity itself: a turn, or the answer to its query. -/
inductive Moves (setup : Setup) (s s' : System) : Activity → List Happening → Prop
  | turns {place : Nat} {call : Call} {turn : Turn Call} (hcall : s.calls[place]? = some call)
    (hstep : call.step setup s.cursor = some turn) (hcursor : s'.cursor = turn.cursor)
    (hweight : ∀ w, (Activity.call place).weight w s' = w.ofCall turn.next) :
    Moves setup s s' (.call place) (turn.events.map .event)
  | answered {place : Nat} {call : Call} {kind : Query.Kind} {answer : Answer}
    (hcall : s.calls[place]? = some call) (hawaits : call.awaits? = some kind)
    (hcursor : s'.cursor = s.cursor)
    (hweight : ∀ w, (Activity.call place).weight w s' = w.ofCall (call.answer answer)) :
    Moves setup s s' (.call place) [.answered kind answer]
  | turnsTask {place : Nat} {task : Task} {turn : Turn Task} (htask : s.tasks[place]? = some task)
    (hstep : task.step setup s.cursor = some turn) (hcursor : s'.cursor = turn.cursor)
    (hweight : ∀ w, (Activity.task place).weight w s' = w.ofTask turn.next) :
    Moves setup s s' (.task place) (turn.events.map .event)
  | answeredTask {place : Nat} {task : Task} {kind : Query.Kind} {answer : Answer}
    (htask : s.tasks[place]? = some task) (hawaits : task.awaits? = some kind)
    (hcursor : s'.cursor = s.cursor)
    (hweight : ∀ w, (Activity.task place).weight w s' = w.ofTask (task.answer answer)) :
    Moves setup s s' (.task place) [.answered kind answer]

theorem moves_of_owns (hmove : s.move? setup move = some (s', happenings))
    (howns : a.owns move = true) : a.Moves setup s s' happenings := by
  cases a with
  | call place =>
    cases move with
    | call turning =>
      obtain rfl : place = turning := eq_of_beq howns
      obtain ⟨before, call, later, turn, hcalls, rfl, hstep, rfl, rfl⟩ := System.move?_call hmove
      refine .turns (System.getElem?_of_split hcalls) hstep rfl fun w => ?_
      rw [weight_after]
      exact weight_call (System.getElem?_of_split rfl) w
    | answerCall answered answer =>
      obtain rfl : place = answered := eq_of_beq howns
      obtain ⟨before, call, later, kind, hcalls, rfl, hawaits, rfl, rfl⟩ :=
        System.move?_answerCall hmove
      exact .answered (System.getElem?_of_split hcalls) hawaits rfl
        (weight_call (System.getElem?_of_split rfl))
    | begin | collect | task | answerTask => cases howns
  | task place =>
    cases move with
    | task turning =>
      obtain rfl : place = turning := eq_of_beq howns
      obtain ⟨before, task, later, turn, htasks, rfl, hstep, rfl, rfl⟩ := System.move?_task hmove
      refine .turnsTask (System.getElem?_of_split htasks) hstep rfl fun w => ?_
      rw [weight_after]
      exact weight_task (System.getElem?_of_split rfl) w
    | answerTask answered answer =>
      obtain rfl : place = answered := eq_of_beq howns
      obtain ⟨before, task, later, kind, htasks, rfl, hawaits, rfl, rfl⟩ :=
        System.move?_answerTask hmove
      exact .answeredTask (System.getElem?_of_split htasks) hawaits rfl
        (weight_task (System.getElem?_of_split rfl))
    | begin | collect | call | answerCall => cases howns

end Activity

/-! ## 5. The advance that an operation is in -/

/-- The advance that an operation is in, whether it is an advance or an extraction. -/
def Call.reading? : Call → Option ((t : Target) × Next t)
  | next n => some ⟨_, n⟩
  | one (.advancing n) => some ⟨_, n⟩
  | all (.advancing _ _ n) => some ⟨_, n⟩
  | item (.advancing n) => some ⟨_, n⟩
  | _ => none

namespace Call

variable {c : Cursor} {t : Target} {n : Next t} {call : Call} {turn : Turn Call}

theorem reading?_wake (h : call.wake.reading? = some ⟨t, n⟩) :
    ∃ m : Next t, call.reading? = some ⟨t, m⟩ ∧ n = m.wake := by
  have hnext {t' : Target} {m : Next t'}
      (h : (some ⟨t', m.wake⟩ : Option ((t : Target) × Next t)) = some ⟨t, n⟩) :
      ∃ m' : Next t, (some ⟨t', m⟩ : Option ((t : Target) × Next t)) = some ⟨t, m'⟩ ∧
        n = m'.wake := by
    cases h
    exact ⟨m, rfl, rfl⟩
  cases call with
  | next n => exact hnext h
  | one o => cases o <;> first | exact hnext h | cases h
  | all a => cases a <;> first | exact hnext h | cases h
  | item i => cases i <;> first | exact hnext h | cases h
  | close | extend => cases h

theorem reading?_answer {a : Answer} (h : (call.answer a).reading? = some ⟨t, n⟩) :
    ∃ m : Next t, call.reading? = some ⟨t, m⟩ ∧ n = m.answer a := by
  have hnext {t' : Target} {m : Next t'}
      (h : (some ⟨t', m.answer a⟩ : Option ((t : Target) × Next t)) = some ⟨t, n⟩) :
      ∃ m' : Next t, (some ⟨t', m⟩ : Option ((t : Target) × Next t)) = some ⟨t, m'⟩ ∧
        n = m'.answer a := by
    cases h
    exact ⟨m, rfl, rfl⟩
  cases call with
  | next n => exact hnext h
  | one o => cases o <;> first | exact hnext h | cases h
  | all x => cases x <;> first | exact hnext h | cases h
  | item i => cases i <;> first | exact hnext h | cases h
  | close | extend => cases h

theorem reading?_begin {op : Operation} (h : op.begin.reading? = some ⟨t, n⟩) :
    n.phase = .enter := by
  cases op with
  | next slot => cases h; rfl
  | one | close | extend => cases h
  | all initial => cases initial <;> cases h <;> rfl
  | item t' ended =>
    cases ended with
    | true => cases h
    | false => cases h; rfl

theorem reading?_ofOne {t' : Target} {m : Next t'}
    (h : (Call.one (.ofNext m)).reading? = some ⟨t, n⟩) :
    (⟨t', m⟩ : (t : Target) × Next t) = ⟨t, n⟩ := by
  obtain ⟨slot, phase⟩ := m
  cases phase <;> first | exact Option.some.inj h | cases h

theorem reading?_ofAll {t' : Target} {got spare : List t'.Slot} {m : Next t'}
    (h : (Call.all (.ofNext got spare m)).reading? = some ⟨t, n⟩) :
    n.phase = .enter ∨ (⟨t', m⟩ : (t : Target) × Next t) = ⟨t, n⟩ := by
  obtain ⟨slot, phase⟩ := m
  cases phase with
  | done more =>
    cases more with
    | true => cases spare <;> cases h <;> exact .inl rfl
    | false => cases h
  | _ => exact .inr (Option.some.inj h)

theorem reading?_ofItem {t' : Target} {m : Next t'}
    (h : (Call.item (.ofNext m)).reading? = some ⟨t, n⟩) :
    (⟨t', m⟩ : (t : Target) × Next t) = ⟨t, n⟩ := by
  obtain ⟨slot, phase⟩ := m
  cases phase with
  | done more => cases more <;> cases h
  | _ => exact Option.some.inj h

/-- The turns of an operation: it is in an advance, which takes the turn, or it closes the cursor,
adds a reply or looks for an error.  If it is in an advance afterwards then in the same one, or in
one that has just begun. -/
inductive Turns (setup : Setup) (c : Cursor) (call : Call) (turn : Turn Call) : Prop
  | reads {t : Target} {n : Next t} {inner : Turn (Next t)} (hreading : call.reading? = some ⟨t, n⟩)
    (hfetch : call.fetch? = n.fetch?) (hstep : Next.Steps setup c n inner)
    (hcursor : turn.cursor = inner.cursor)
    (hnext : ∀ {t' : Target} {n' : Next t'}, turn.next.reading? = some ⟨t', n'⟩ →
      n'.phase = .enter ∨ (⟨t, inner.next⟩ : (t : Target) × Next t) = ⟨t', n'⟩)
  | fetches {f : Fetch} {inner : Turn Fetch} (hreading : call.reading? = none)
    (hfetch : call.fetch? = some f) (hstep : Fetch.Steps setup c f inner)
    (hcursor : turn.cursor = inner.cursor) (hnext : turn.next.reading? = none)
  | others (hreading : call.reading? = none) (hfetch : call.fetch? = none)
    (herror : turn.cursor.error? = c.error?)
    (hnext : ∀ {t' : Target} {n' : Next t'}, turn.next.reading? = some ⟨t', n'⟩ →
      n'.phase = .enter)

theorem Turns.of_reading?_eq_none (hreading : call.reading? = none) (hfetch : call.fetch? = none)
    (herror : turn.cursor.error? = c.error?) (hnext : turn.next.reading? = none) :
    Turns setup c call turn := by
  refine .others hreading hfetch herror fun hsome => ?_
  rw [hnext] at hsome
  cases hsome

theorem turns_of_step (h : call.step setup c = some turn) : Turns setup c call turn := by
  have hclosing {x : Close} {inner : Turn Close} (h : x.step c = some inner) :
      inner.cursor.error? = c.error? := by
    cases Close.steps_of_step h <;> rfl
  cases call with
  | next n =>
    obtain ⟨inner, hstep, rfl⟩ := Option.map_eq_some_iff.mp h
    exact .reads rfl rfl (Next.steps_of_step hstep) rfl fun hnext => .inr (Option.some.inj hnext)
  | one o =>
    obtain ⟨middle, hmiddle, rfl⟩ := Option.map_eq_some_iff.mp h
    cases o with
    | look slot =>
      cases hmiddle
      refine .others rfl rfl rfl fun hnext => ?_
      simp only [Turn.map] at hnext
      split at hnext
      · cases hnext
      · cases hnext; rfl
    | advancing n =>
      obtain ⟨inner, hstep, rfl⟩ := Option.map_eq_some_iff.mp hmiddle
      exact .reads rfl rfl (Next.steps_of_step hstep) rfl fun hnext => .inr (reading?_ofOne hnext)
    | judge slot more => cases hmiddle; exact .of_reading?_eq_none rfl rfl rfl rfl
    | closing slot verdict x =>
      obtain ⟨inner, hinner, rfl⟩ := Option.map_eq_some_iff.mp hmiddle
      refine .of_reading?_eq_none rfl rfl (hclosing hinner) ?_
      cases hx : inner.next <;> simp only [Turn.map, hx] <;> rfl
    | done => cases hmiddle
  | all a =>
    obtain ⟨middle, hmiddle, rfl⟩ := Option.map_eq_some_iff.mp h
    cases a with
    | advancing got spare n =>
      obtain ⟨inner, hstep, rfl⟩ := Option.map_eq_some_iff.mp hmiddle
      exact .reads rfl rfl (Next.steps_of_step hstep) rfl reading?_ofAll
    | judge got => cases hmiddle; exact .of_reading?_eq_none rfl rfl rfl rfl
    | closing got verdict x =>
      obtain ⟨inner, hinner, rfl⟩ := Option.map_eq_some_iff.mp hmiddle
      refine .of_reading?_eq_none rfl rfl (hclosing hinner) ?_
      cases hx : inner.next <;> simp only [Turn.map, hx] <;> rfl
    | done => cases hmiddle
  | item i =>
    obtain ⟨middle, hmiddle, rfl⟩ := Option.map_eq_some_iff.mp h
    cases i with
    | advancing n =>
      obtain ⟨inner, hstep, rfl⟩ := Option.map_eq_some_iff.mp hmiddle
      exact .reads rfl rfl (Next.steps_of_step hstep) rfl fun hnext => .inr (reading?_ofItem hnext)
    | judge => cases hmiddle; exact .of_reading?_eq_none rfl rfl rfl rfl
    | done => cases hmiddle
  | close x =>
    obtain ⟨inner, hinner, rfl⟩ := Option.map_eq_some_iff.mp h
    exact .of_reading?_eq_none rfl rfl (hclosing hinner) rfl
  | extend f =>
    obtain ⟨inner, hinner, rfl⟩ := Option.map_eq_some_iff.mp h
    exact .fetches rfl rfl (Fetch.steps_of_step hinner) rfl rfl

end Call
end RowStream
