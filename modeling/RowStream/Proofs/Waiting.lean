import RowStream.Proofs.Activities
import RowStream.Proofs.InFlight

/-!
# Waiting for the gate

An advance that finds the gate shut goes to sleep until it is told to look again.  Whoever shuts the
gate opens it and then tells all that sleep, within a few moves of its own, whatever the others do;
so nobody sleeps but for a fetch that is still under way.
-/

namespace RowStream

variable {setup : Setup} {c c' : Cursor} {s s' start : System} {stages : List Stage} {move : Move}
  {happenings : List Happening} {t : Target} {f : Fetch} {f? f'? : Option Fetch}
  {events : List Event} {a : Activity}

/-! ## 1. Who sleeps -/

/-- Whether an operation waits to be told to look again. -/
def Call.sleeps (call : Call) : Bool :=
  match call.reading? with
  | some ⟨_, _, .asleep⟩ => true
  | _ => false

theorem Call.reading?_of_sleeps {call : Call} (h : call.sleeps = true) :
    ∃ (t : Target) (n : Next t), call.reading? = some ⟨t, n⟩ ∧ n.phase = .asleep := by
  unfold sleeps at h
  split at h
  next t slot hreading => exact ⟨t, ⟨slot, .asleep⟩, hreading, rfl⟩
  next => cases h

theorem Call.sleeps_wake (call : Call) : call.wake.sleeps = false := by
  by_contra hsleeps
  rw [Bool.not_eq_false] at hsleeps
  obtain ⟨t, n, hreading, hasleep⟩ := reading?_of_sleeps hsleeps
  obtain ⟨⟨slot, phase⟩, -, rfl⟩ := reading?_wake hreading
  cases phase <;> cases hasleep

-- An advance goes to sleep in the turn in which it finds the gate shut.
theorem Next.Steps.fetching_of_asleep {n : Next t} {turn : Turn (Next t)}
    (h : Steps setup c n turn) (hasleep : turn.next.phase = .asleep) :
    turn.cursor.fetching = true := by
  cases h with
  | sleeps slot hgate => exact hgate
  | looks slot hsight hlooks =>
    cases hlooks with
    | row hpop =>
      unfold receive at hasleep
      split at hasleep <;> cases hasleep
    | _ => cases hasleep
  | @fetches slot f turn hstep =>
    rcases phase_ofFetch turn.next with hf | hf | hf | ⟨e, hf⟩ <;>
      cases hf.symm.trans hasleep
  | @closes slot close turn hstep =>
    cases hnext : turn.next <;> simp only [Turn.map, hnext] at hasleep <;> cases hasleep
  | enters | ends | records => cases hasleep

theorem Call.sleeps_step {call : Call} {turn : Turn Call} (h : call.step setup c = some turn)
    (hsleeps : turn.next.sleeps = true) : turn.cursor.fetching = true := by
  obtain ⟨t, n, hreading, hasleep⟩ := reading?_of_sleeps hsleeps
  cases turns_of_step h with
  | reads _ _ hstep hcursor hnext =>
    rw [hcursor]
    rcases hnext hreading with hentered | hsame
    · cases hentered.symm.trans hasleep
    · cases hsame
      exact hstep.fetching_of_asleep hasleep
  | fetches _ _ _ _ hnext => cases hnext.symm.trans hreading
  | others _ _ _ hnext => cases (hnext hreading).symm.trans hasleep

theorem Call.awaits?_of_reading? {call : Call} {n : Next t} (h : call.reading? = some ⟨t, n⟩) :
    call.awaits? = n.awaits? := by
  cases call with
  | next n => cases h; rfl
  | one o => cases o <;> cases h; rfl
  | all a => cases a <;> cases h; rfl
  | item i => cases i <;> cases h; rfl
  | close | extend => cases h

-- After a move an operation sleeps only if nobody was told to wake, and if it slept before or has
-- just found the gate shut.
theorem Call.sleeps_of_stems {call : Call} (h : call.Stems setup s s' move happenings)
    (hsleeps : call.sleeps = true) :
    .event .notified ∉ happenings ∧ (call ∈ s.calls ∨ s'.cursor.fetching = true) := by
  cases h with
  | same hmem hquiet => exact ⟨hquiet, .inl hmem⟩
  | @woken call hmem =>
    rw [call.sleeps_wake] at hsleeps
    cases hsleeps
  | begun hbegin =>
    obtain ⟨t, n, hreading, hasleep⟩ := reading?_of_sleeps hsleeps
    cases (reading?_begin hreading).symm.trans hasleep
  | @turned place call turn hturns hcall hstep hcursor hhappened =>
    rw [hcursor, hhappened]
    refine ⟨Event.notified_not_mem (Bool.eq_false_iff.mpr fun hnotifies => ?_),
      .inr (sleeps_step hstep hsleeps)⟩
    -- A turn that tells others leaves its own operation awake.
    rw [← wake_of_notifies hstep hnotifies, sleeps_wake] at hsleeps
    cases hsleeps
  | @answered place call kind answer hanswers hcall hawaits =>
    -- Who awaits an answer does not sleep, and an answer puts nobody to sleep.
    obtain ⟨t, n, hreading, hasleep⟩ := reading?_of_sleeps hsleeps
    obtain ⟨⟨slot, phase⟩, hbefore, rfl⟩ := reading?_answer hreading
    rw [awaits?_of_reading? hbefore] at hawaits
    cases phase with
    | fetching | closing => cases hasleep
    | _ => cases hawaits

/-- When those that sleep are told to look again, nobody sleeps afterwards. -/
theorem System.awake_of_notified (hmove : s.move? setup move = some (s', happenings))
    (hnotified : .event .notified ∈ happenings) {call : Call} (hmem : call ∈ s'.calls) :
    call.sleeps = false := by
  by_contra hsleeps
  rw [Bool.not_eq_false] at hsleeps
  exact (Call.sleeps_of_stems (stems_of_move hmove hmem) hsleeps).1 hnotified

/-! ## 2. What is left to do -/

/-- How many moves a fetch past the gate, or one that a reply from outside takes the place of, has
left until it has told those that sleep. -/
def Fetch.due : Fetch → Nat
  | check => 5
  | send => 4
  | waiting => 3
  | fold _ | aborted => 2
  | wake .. => 1
  | claim | ahead _ | done _ => 0

/-- How many moves a task has left until it has told those that sleep. -/
def Task.due : Task → Nat
  | running f => f.due
  | wake => 1
  | failed _ | done => 0

/-- What is left to do until those that sleep have been told. -/
def Weight.due : Weight where
  ofCall call := (call.fetch?.map Fetch.due).getD 0
  ofTask := Task.due
  ofCall_wake call := by rw [call.fetch?_wake]
  ofTask_scheduled := rfl

/-- How many moves an activity has left until it has told those that sleep, or none if there is
nothing that it will tell them. -/
def Activity.left (s : System) (a : Activity) : Nat := a.weight .due s

/-- Whether the next turn of a fetch, or of its task once it was broken off, works on the state
behind the lock. -/
def Fetch.locks : Fetch → Bool
  | check | fold _ | aborted => true
  | _ => false

-- What is left gets less until only those that sleep are to be told, and then the gate is open.
theorem Fetch.Steps.due {turn : Turn Fetch} (h : Steps setup c f turn) (hdue : 0 < f.due) :
    (f.due = 1 ∧ .notified ∈ turn.events) ∨
      (0 < turn.next.due ∧ turn.next.due < f.due ∧
        (turn.next.due = 1 → turn.cursor.fetching = false)) := by
  cases h with
  | tells outcome low => exact .inl ⟨rfl, List.mem_singleton.mpr rfl⟩
  | turnsBack | adds | fails => exact .inr ⟨Nat.one_pos, by simp [Fetch.due], fun _ => rfl⟩
  | goesOn | asks => exact .inr ⟨by simp [Fetch.due], Nat.lt_succ_self _, nofun⟩
  | refused | passed | looksAhead => cases hdue

-- A fetch that opens the gate tells those that sleep in its next turn.
theorem Fetch.Steps.opens {turn : Turn Fetch} (h : Steps setup c f turn)
    (hshut : c.fetching = true) (hopen : turn.cursor.fetching = false) :
    f.locks = true ∧ turn.next.due = 1 := by
  cases h with
  | turnsBack | adds | fails => exact ⟨rfl, rfl⟩
  | passed => cases hopen
  | refused | goesOn | asks | tells | looksAhead =>
    rw [hshut] at hopen
    cases hopen

theorem Fetch.goesOn_of_due (setup : Setup) (c : Cursor) (f : Fetch) (h : 0 < f.due) :
    f = .waiting ∨ f = .aborted ∨ ∃ turn, f.step setup c = some turn := by
  cases f with
  | waiting => exact .inl rfl
  | aborted => exact .inr (.inl rfl)
  | check =>
    refine .inr (.inr ?_)
    simp only [step]
    split <;> exact ⟨_, rfl⟩
  | fold outcome => cases outcome <;> exact .inr (.inr ⟨_, rfl⟩)
  | send | wake => exact .inr (.inr ⟨_, rfl⟩)
  | claim | ahead | done => cases h

theorem Task.due_ofFetch (f : Fetch) : (ofFetch f).due = f.due := by
  cases f with
  | done outcome => cases outcome <;> rfl
  | _ => rfl

/-- What is left to do for a fetch, or nothing without one. -/
def Fetch.dueOf (f? : Option Fetch) : Nat := (f?.map due).getD 0

theorem Fetch.of_dueOf (h : 0 < dueOf f?) : ∃ f, f? = some f ∧ 0 < f.due := by
  cases f? with
  | none => cases h
  | some f => exact ⟨f, rfl, h⟩

theorem FetchTurn.due (h : FetchTurn setup c f? f'? c' events) (hunbroken : f? ≠ some .aborted)
    (hdue : 0 < Fetch.dueOf f?) :
    (Fetch.dueOf f? = 1 ∧ .notified ∈ events) ∨
      (0 < Fetch.dueOf f'? ∧ Fetch.dueOf f'? < Fetch.dueOf f? ∧
        (Fetch.dueOf f'? = 1 → c'.fetching = false)) := by
  cases h with
  | apart => cases hdue
  | @fetches f turn f'? hstep hafter =>
    have hnext : Fetch.dueOf f'? = turn.next.due := by
      rcases hafter with rfl | ⟨rfl, outcome, hdone⟩
      · rfl
      · rw [hdone]
        rfl
    rw [hnext]
    exact hstep.due hdue
  | notices => exact absurd rfl hunbroken

theorem FetchTurn.opens (h : FetchTurn setup c f? f'? c' events) (hunbroken : f? ≠ some .aborted)
    (hshut : c.fetching = true) (hopen : c'.fetching = false) :
    ∃ f, f? = some f ∧ f.locks = true ∧ Fetch.dueOf f'? = 1 := by
  cases h with
  | apart hafter hgate =>
    rw [hgate, hshut] at hopen
    cases hopen
  | @fetches f turn f'? hstep hafter =>
    obtain ⟨hlocks, hdue⟩ := hstep.opens hshut hopen
    refine ⟨f, rfl, hlocks, ?_⟩
    rcases hafter with rfl | ⟨rfl, outcome, hdone⟩
    · exact hdue
    · rw [hdone] at hdue
      cases hdue
  | notices => exact absurd rfl hunbroken

theorem Task.Steps.due {task : Task} {turn : Turn Task} (h : Steps setup c task turn)
    (hdue : 0 < task.due) :
    (task.due = 1 ∧ .notified ∈ turn.events) ∨
      (0 < turn.next.due ∧ turn.next.due < task.due ∧
        (turn.next.due = 1 → turn.cursor.fetching = false)) := by
  cases h with
  | @fetches f inner hstep =>
    simp only [Turn.map, due_ofFetch]
    exact hstep.due hdue
  | notices => exact .inr ⟨Nat.one_pos, Nat.lt_succ_self 1, fun _ => rfl⟩
  | reports => cases hdue
  | tells => exact .inl ⟨rfl, List.mem_singleton.mpr rfl⟩

theorem Task.Steps.opens {task : Task} {turn : Turn Task} (h : Steps setup c task turn)
    (hshut : c.fetching = true) (hopen : turn.cursor.fetching = false) :
    ∃ f, task.fetch? = some f ∧ f.locks = true ∧ turn.next.due = 1 := by
  cases h with
  | @fetches f inner hstep =>
    simp only [Turn.map, due_ofFetch]
    exact ⟨f, rfl, hstep.opens hshut hopen⟩
  | notices => exact ⟨.aborted, rfl, rfl, rfl⟩
  | reports | tells =>
    rw [hshut] at hopen
    cases hopen

/-! ## 3. The moves of an activity -/

theorem Call.done_of_ended {call : Call} (hended : (call.isDone || call.isAborted) = true)
    (hunbroken : call.fetch? ≠ some .aborted) (hf : call.fetch? = some f) :
    ∃ outcome, f = .done outcome := by
  rcases fetch?_of_ended hended hf with hdone | rfl
  · exact hdone
  · exact absurd hf hunbroken

namespace Activity

/-- Whether an activity can move: it can take its turn, or the connection has its query and can
answer it in any way. -/
def CanMove (setup : Setup) (s : System) (a : Activity) : Prop :=
  (s.move? setup a.turn).isSome = true ∨
    ∀ answer, (s.move? setup (a.answered answer)).isSome = true

/-- Whether the next turn of an activity works on the state behind the lock for its fetch. -/
def Locks (s : System) (a : Activity) : Prop := ∃ f, s.turning? a.turn = some f ∧ f.locks = true

/-- Who holds the gate: an operation or a task whose fetch has passed the gate and not opened it, or
a task that has not yet noticed that its fetch was broken off. -/
inductive Holds (s : System) : Activity → Prop
  | call {place : Nat} {call : Call} {f : Fetch} (hcall : s.calls[place]? = some call)
    (hfetch : call.asking? = some f) (hholds : f.holds = true) (hunbroken : f ≠ .aborted) :
    Holds s (.call place)
  | task {place : Nat} {f : Fetch} (htask : s.tasks[place]? = some (.running f))
    (hholds : f.holds = true) : Holds s (.task place)

-- The fetch of an activity with something left to do waits for the connection or can take its turn.
theorem canMove_of_left (hunbroken : ∀ call ∈ s.calls, call.fetch? ≠ some .aborted)
    (hleft : 0 < a.left s) : a.CanMove setup s := by
  cases a with
  | call place =>
    obtain ⟨own, hcall, hdue⟩ := call_of_weight hleft
    obtain ⟨f, hf, hdue⟩ := Fetch.of_dueOf hdue
    rcases f.goesOn_of_due setup s.cursor hdue with rfl | rfl | ⟨turn, hstep⟩
    · refine .inr fun answer => ?_
      have hawaits : own.awaits? = some .more := Call.awaits?_of_fetch? hf
      simp [System.move?, answered, hcall, hawaits]
    · exact absurd hf (hunbroken own (List.mem_of_getElem? hcall))
    · obtain ⟨next, hnext⟩ := Call.step_of_fetch? hf hstep
      exact .inl (by simp [System.move?, Activity.turn, hcall, hnext])
  | task place =>
    obtain ⟨own, htask, hdue⟩ := task_of_weight hleft
    cases own with
    | running f =>
      rcases f.goesOn_of_due setup s.cursor hdue with rfl | rfl | ⟨turn, hstep⟩
      · exact .inr fun answer => by
          simp [System.move?, answered, htask, Task.awaits?, Fetch.awaits?]
      · exact .inl (by simp [System.move?, Activity.turn, htask, Task.step])
      · have hfetch : (Task.running f).fetch? = some f := rfl
        obtain ⟨next, hnext⟩ := Task.step_of_fetch? hfetch hstep
        exact .inl (by simp [System.move?, Activity.turn, htask, hnext])
    | wake => exact .inl (by simp [System.move?, Activity.turn, htask, Task.step])
    | failed | done => cases hdue

theorem left_of_owns (hunbroken : ∀ call ∈ s.calls, call.fetch? ≠ some .aborted)
    (hmove : s.move? setup move = some (s', happenings)) (howns : a.owns move = true)
    (hleft : 0 < a.left s) :
    (a.left s = 1 ∧ .event .notified ∈ happenings) ∨
      (0 < a.left s' ∧ a.left s' < a.left s ∧
        (a.left s' = 1 → s'.cursor.fetching = false)) := by
  have hanswer {f : Fetch} {kind : Query.Kind} (hf : f.awaits? = some kind) (a : Answer) :
      0 < (f.answer a).due ∧ (f.answer a).due < f.due ∧
        ((f.answer a).due = 1 → s'.cursor.fetching = false) := by
    cases f with
    | waiting => cases a <;> exact ⟨Nat.two_pos, Nat.lt_succ_self 2, nofun⟩
    | _ => cases hf
  unfold left at hleft ⊢
  cases moves_of_owns hmove howns with
  | @turns place call turn hcall hstep hcursor hweight =>
    rw [weight_call hcall] at hleft ⊢
    rw [hweight, hcursor]
    exact ((Call.steps_of_step hstep).fetchTurn.due (hunbroken call (List.mem_of_getElem? hcall))
      hleft).imp_left fun htells => ⟨htells.1, List.mem_map_of_mem htells.2⟩
  | @answered place call kind answer hcall hawaits hcursor hweight =>
    rw [weight_call hcall] at hleft ⊢
    rw [hweight]
    refine .inr ?_
    obtain ⟨f, hf, -⟩ := Fetch.of_dueOf hleft
    rw [Call.awaits?_of_fetch? hf] at hawaits
    show 0 < Fetch.dueOf (call.answer answer).fetch? ∧
      Fetch.dueOf (call.answer answer).fetch? < Fetch.dueOf call.fetch? ∧
      (Fetch.dueOf (call.answer answer).fetch? = 1 → s'.cursor.fetching = false)
    rw [call.fetch?_answer, hf]
    exact hanswer hawaits answer
  | @turnsTask place task turn htask hstep hcursor hweight =>
    rw [weight_task htask] at hleft ⊢
    rw [hweight, hcursor]
    exact ((Task.steps_of_step hstep).due hleft).imp_left fun htells =>
      ⟨htells.1, List.mem_map_of_mem htells.2⟩
  | @answeredTask place task kind answer htask hawaits hcursor hweight =>
    rw [weight_task htask] at hleft ⊢
    rw [hweight]
    refine .inr ?_
    cases task with
    | running f => exact hanswer hawaits answer
    | failed | wake | done => cases hawaits

theorem left_of_ended (hunbroken : ∀ call ∈ s.calls, call.fetch? ≠ some .aborted) :
    ∀ call ∈ s.calls, (call.isDone || call.isAborted) = true → Weight.due.ofCall call = 0 := by
  intro call hmem hended
  show Fetch.dueOf call.fetch? = 0
  cases hf : call.fetch? with
  | none => rfl
  | some f =>
    obtain ⟨outcome, rfl⟩ := Call.done_of_ended hended (hunbroken call hmem) hf
    rfl

-- What is left to do for an activity gets less with its own moves, and others do not add to it.
theorem left_of_run {later : List Stage} {s' : System}
    (hunbroken : ∀ call ∈ s.calls, call.fetch? ≠ some .aborted) (hlater : Run setup s later s')
    (hkept : ∀ stage ∈ later, ¬ stage.BreaksCall) (hleft : 0 < a.left s) :
    (∀ call ∈ s'.calls, call.fetch? ≠ some .aborted) ∧
      (.event .notified ∈ happened (a.own later) ∨
        ∃ b, a.afterAll later = some b ∧ 0 < b.left s' ∧
          b.left s' + (a.own later).length ≤ a.left s) := by
  induction hlater with
  | nil => exact ⟨hunbroken, .inr ⟨a, rfl, hleft, Nat.le_refl _⟩⟩
  | @snoc later s₁ s₂ move happenings _ hmove ih =>
    simp only [List.mem_append, List.mem_singleton] at hkept
    obtain ⟨hunbroken₁, hbefore⟩ := ih fun stage hstage => hkept stage (.inl hstage)
    refine ⟨System.unbroken_of_move hmove (hkept _ (.inr rfl)) hunbroken₁, ?_⟩
    rcases hbefore with htold | ⟨b, hb, hleft₁, hbound⟩
    · refine .inl ?_
      rw [own_append, happened_append]
      exact List.mem_append_left _ htold
    · rw [own_concat hb, afterAll_concat hb]
      cases howns : b.owns move with
      | true =>
        rw [if_pos rfl, after_of_owns howns, happened_append, List.length_append]
        rcases left_of_owns hunbroken₁ hmove howns hleft₁ with ⟨-, htold⟩ | ⟨hpos, hless, -⟩
        · exact .inl (List.mem_append_right _ (List.mem_append_left _ htold))
        · refine .inr ⟨b, rfl, hpos, ?_⟩
          show _ + (_ + 1) ≤ _
          omega
      | false =>
        obtain ⟨b', hb', hsame⟩ : ∃ b', b.after move = some b' ∧ b'.left s₂ = b.left s₁ :=
          stays_of_not_owns hmove howns hleft₁ (left_of_ended hunbroken₁)
        rw [if_neg Bool.false_ne_true, List.append_nil]
        exact .inr ⟨b', hb', hsame ▸ hleft₁, hsame ▸ hbound⟩

end Activity

/-! ## 4. Nobody is forgotten -/

/-- Nobody is forgotten: the gate is held by somebody unless it is open, and whoever sleeps sleeps
while it is shut or is about to be told. -/
structure System.Attended (s : System) : Prop where
  unbroken : ∀ call ∈ s.calls, call.fetch? ≠ some .aborted
  held : s.cursor.fetching = true → ∃ a : Activity, 0 < a.weight .holding s
  awake : ∀ call ∈ s.calls, call.sleeps = true →
    s.cursor.fetching = true ∨ ∃ a : Activity, a.left s = 1

-- Who shuts the gate holds it afterwards, and who held it before and opened it is gone.
theorem FetchTurn.holds (h : FetchTurn setup c f? f'? c' events) (hshut : c'.fetching = true) :
    0 < Fetch.count Fetch.holds f'? ∨
      (c.fetching = true ∧ Fetch.count Fetch.holds f? = 0) := by
  cases h with
  | apart hafter hgate => exact .inr ⟨hgate ▸ hshut, rfl⟩
  | @fetches f turn f'? hstep hafter =>
    rcases hstep.gate with hholds | hopen | ⟨hfree, hsame⟩
    · refine .inl ?_
      rcases hafter with rfl | ⟨rfl, outcome, hdone⟩
      · show 0 < turn.next.holds.toNat
        rw [hholds]
        exact Nat.one_pos
      · rw [hdone] at hholds
        cases hholds
    · rw [hopen] at hshut
      cases hshut
    · refine .inr ⟨hsame ▸ hshut, ?_⟩
      show f.holds.toNat = 0
      rw [hfree]
      rfl
  | notices => cases hshut

theorem Call.holds_of_step {call : Call} {turn : Turn Call} (hstep : call.step setup c = some turn)
    (hastray : Weight.astray.ofCall call = 0) (hshut : turn.cursor.fetching = true) :
    0 < Fetch.count Fetch.holds turn.next.asking? ∨
      (c.fetching = true ∧ Fetch.count Fetch.holds call.asking? = 0) := by
  cases happends : call.appends with
  | false =>
    rw [asking?_of_not_appends happends,
      asking?_of_not_appends ((appends_step hstep).trans happends)]
    exact (steps_of_step hstep).fetchTurn.holds hshut
  | true =>
    -- A reply from outside is added past the gate, which it leaves alone or opens.
    cases call with
    | extend f =>
      refine .inr ⟨?_, rfl⟩
      obtain ⟨inner, hinner, rfl⟩ := Option.map_eq_some_iff.mp hstep
      cases Fetch.steps_of_step hinner with
      | passed | goesOn | turnsBack | asks => cases hastray
      | adds | fails => cases hshut
      | refused hgate => cases hastray
      | tells | looksAhead => exact hshut
    | next | one | all | item | close => cases happends

theorem Call.fetch?_of_asking? {call : Call} (h : call.asking? = some f) :
    call.fetch? = some f := by
  unfold asking? at h
  split at h
  · cases h
  · exact h

theorem Weight.holding_of_ended (hunbroken : ∀ call ∈ s.calls, call.fetch? ≠ some .aborted) :
    ∀ call ∈ s.calls, (call.isDone || call.isAborted) = true → holding.ofCall call = 0 := by
  intro call hmem hended
  show Fetch.count Fetch.holds call.asking? = 0
  cases hf : call.asking? with
  | none => rfl
  | some f =>
    obtain ⟨outcome, rfl⟩ :=
      Call.done_of_ended hended (hunbroken call hmem) (Call.fetch?_of_asking? hf)
    rfl

-- After a move of an activity it holds the gate if the gate is shut, or the gate was shut before
-- and the activity was not the one to hold it.
theorem Activity.Moves.holds (h : a.Moves setup s s' happenings) (hastray : s.total .astray = 0)
    (hshut : s'.cursor.fetching = true) :
    0 < a.weight .holding s' ∨ (s.cursor.fetching = true ∧ a.weight .holding s = 0) := by
  cases h with
  | @turns place call turn hcall hstep hcursor hweight =>
    rw [hweight, weight_call hcall]
    rw [hcursor] at hshut
    exact Call.holds_of_step hstep (Nat.le_zero.mp (hastray ▸ System.ofCall_le_total
      (List.mem_of_getElem? hcall) .astray)) hshut
  | @answered place call kind answer hcall hawaits hcursor hweight =>
    have hsame : Weight.holding.ofCall (call.answer answer) = Weight.holding.ofCall call := by
      show Fetch.count Fetch.holds (call.answer answer).asking? = _
      rw [call.asking?_answer, Fetch.count_answer rfl (fun _ => rfl) rfl]
      rfl
    rw [hweight, weight_call hcall, hsame]
    exact (Nat.eq_zero_or_pos _).symm.imp_right fun hnone => ⟨hcursor ▸ hshut, hnone⟩
  | @turnsTask place task turn htask hstep hcursor hweight =>
    rw [hweight, weight_task htask]
    rw [hcursor] at hshut
    exact (Task.steps_of_step hstep).fetchTurn.holds hshut
  | @answeredTask place task kind answer htask hawaits hcursor hweight =>
    have hsame : Weight.holding.ofTask (task.answer answer) = Weight.holding.ofTask task := by
      show Fetch.count Fetch.holds (task.answer answer).fetch? = _
      rw [task.fetch?_answer, Fetch.count_answer rfl (fun _ => rfl) rfl]
      rfl
    rw [hweight, weight_task htask, hsame]
    exact (Nat.eq_zero_or_pos _).symm.imp_right fun hnone => ⟨hcursor ▸ hshut, hnone⟩

/-- The gate is opened by the turn of a fetch that works on the state behind the lock, and its
activity tells those that sleep in its next turn. -/
theorem System.opens_of_move (hunbroken : ∀ call ∈ s.calls, call.fetch? ≠ some .aborted)
    (hmove : s.move? setup move = some (s', happenings)) (hshut : s.cursor.fetching = true)
    (hopen : s'.cursor.fetching = false) :
    ∃ a : Activity, move = a.turn ∧ a.Locks s ∧ a.left s' = 1 := by
  have hsame (hcursor : s'.cursor = s.cursor) :
      ∃ a : Activity, move = a.turn ∧ a.Locks s ∧ a.left s' = 1 := by
    rw [hcursor, hshut] at hopen
    cases hopen
  cases move with
  | call place =>
    cases Activity.moves_of_owns hmove (Activity.owns_call place) with
    | @turns place call turn hcall hstep hcursor hweight =>
      rw [hcursor] at hopen
      obtain ⟨f, hf, hlocks, hdue⟩ := (Call.steps_of_step hstep).fetchTurn.opens
        (hunbroken call (List.mem_of_getElem? hcall)) hshut hopen
      refine ⟨.call place, rfl, ⟨f, ?_, hlocks⟩, (hweight .due).trans hdue⟩
      rw [Activity.turn, turning?, hcall]
      exact hf
    | answered _ _ hcursor => exact hsame hcursor
  | task place =>
    cases Activity.moves_of_owns hmove (Activity.owns_task place) with
    | @turnsTask place task turn htask hstep hcursor hweight =>
      rw [hcursor] at hopen
      obtain ⟨f, hf, hlocks, hdue⟩ := (Task.steps_of_step hstep).opens hshut hopen
      refine ⟨.task place, rfl, ⟨f, ?_, hlocks⟩, (hweight .due).trans hdue⟩
      rw [Activity.turn, turning?, htask]
      exact hf
    | answeredTask _ _ hcursor => exact hsame hcursor
  | begin op => cases hmove; exact hsame rfl
  | answerCall place answer =>
    obtain ⟨before, call, later, kind, -, -, -, -, rfl⟩ := move?_answerCall hmove
    exact hsame rfl
  | collect place =>
    obtain ⟨before, call, later, -, -, -, -, rfl⟩ := move?_collect hmove
    exact hsame rfl
  | answerTask place answer =>
    obtain ⟨before, task, later, kind, -, -, -, -, rfl⟩ := move?_answerTask hmove
    exact hsame rfl

namespace System.Attended

theorem held_of_move (h : s.Attended) (hastray : s.total .astray = 0)
    (hmove : s.move? setup move = some (s', happenings)) (hshut : s'.cursor.fetching = true) :
    ∃ a : Activity, 0 < a.weight .holding s' := by
  -- Whoever holds the gate before the move of another holds it afterwards.
  have hother (hgate : s.cursor.fetching = true)
      (hfree : ∀ a : Activity, a.owns move = true → a.weight .holding s = 0) :
      ∃ a : Activity, 0 < a.weight .holding s' := by
    obtain ⟨a, hholds⟩ := h.held hgate
    cases howns : a.owns move with
    | true =>
      rw [hfree a howns] at hholds
      cases hholds
    | false =>
      obtain ⟨b, -, hsame⟩ := Activity.stays_of_not_owns hmove howns hholds
        (Weight.holding_of_ended h.unbroken)
      exact ⟨b, hsame ▸ hholds⟩
  by_cases howner : ∃ a : Activity, a.owns move = true
  · obtain ⟨a, howns⟩ := howner
    rcases (Activity.moves_of_owns hmove howns).holds hastray hshut with hholds | ⟨hgate, hnone⟩
    · exact ⟨a, hholds⟩
    · exact hother hgate fun b hb => Activity.eq_of_owns hb howns ▸ hnone
  · simp only [not_exists, Bool.not_eq_true] at howner
    refine hother (Activity.cursor_of_not_owned hmove howner ▸ hshut) fun a ha => ?_
    rw [howner a] at ha
    cases ha

theorem awake_of_move (h : s.Attended)
    (hmove : s.move? setup move = some (s', happenings)) {call : Call} (hmem : call ∈ s'.calls)
    (hsleeps : call.sleeps = true) :
    s'.cursor.fetching = true ∨ ∃ a : Activity, a.left s' = 1 := by
  obtain ⟨hquiet, hslept | hshut⟩ := Call.sleeps_of_stems (stems_of_move hmove hmem) hsleeps
  · rcases h.awake call hslept hsleeps with hgate | ⟨a, htells⟩
    · cases hafter : s'.cursor.fetching with
      | true => exact .inl rfl
      | false =>
        obtain ⟨a, -, -, htells⟩ := opens_of_move h.unbroken hmove hgate hafter
        exact .inr ⟨a, htells⟩
    · have hleft : 0 < a.left s := htells ▸ Nat.one_pos
      cases howns : a.owns move with
      | true =>
        -- Whoever has one move left would have told the sleeper with it.
        rcases Activity.left_of_owns h.unbroken hmove howns hleft with ⟨-, htold⟩ | ⟨hpos, hless, -⟩
        · exact absurd htold hquiet
        · omega
      | false =>
        obtain ⟨b, -, hsame⟩ := Activity.stays_of_not_owns hmove howns hleft
          (Activity.left_of_ended h.unbroken)
        exact .inr ⟨b, Eq.trans hsame htells⟩
  · exact .inl hshut

theorem step (h : s.Attended) (hastray : s.total .astray = 0)
    (hmove : s.move? setup move = some (s', happenings))
    (hkept : ¬ (Stage.mk s move happenings).BreaksCall) : s'.Attended where
  unbroken := unbroken_of_move hmove hkept h.unbroken
  held := h.held_of_move hastray hmove
  awake _ hmem hsleeps := h.awake_of_move hmove hmem hsleeps

end System.Attended

theorem Run.attended {release : Bool} (hrun : Run setup (.opened release) stages s)
    (hkept : ∀ stage ∈ stages, ¬ stage.BreaksCall) : s.Attended := by
  induction hrun with
  | nil =>
    exact ⟨fun call hmem => absurd hmem List.not_mem_nil, fun hgate => absurd hgate
      Bool.false_ne_true, fun call hmem => absurd hmem List.not_mem_nil⟩
  | snoc hrun hmove ih =>
    simp only [List.mem_append, List.mem_singleton] at hkept
    obtain ⟨lost, haccounted⟩ := hrun.accounted
    exact (ih fun stage hstage => hkept stage (.inl hstage)).step haccounted.astray_eq hmove
      (hkept _ (.inr rfl))

theorem Fetch.of_count_holds (h : 0 < count holds f?) : ∃ f, f? = some f ∧ f.holds = true := by
  cases f? with
  | none => cases h
  | some f =>
    refine ⟨f, rfl, ?_⟩
    by_contra hfree
    rw [Bool.not_eq_true] at hfree
    change 0 < f.holds.toNat at h
    rw [hfree] at h
    cases h

namespace Activity

theorem holds_of_weight (hunbroken : ∀ call ∈ s.calls, call.fetch? ≠ some .aborted)
    (h : 0 < a.weight .holding s) : a.Holds s := by
  cases a with
  | call place =>
    obtain ⟨own, hcall, hweight⟩ := call_of_weight h
    obtain ⟨f, hf, hholds⟩ := Fetch.of_count_holds hweight
    refine .call hcall hf hholds ?_
    rintro rfl
    exact hunbroken own (List.mem_of_getElem? hcall) (Call.fetch?_of_asking? hf)
  | task place =>
    obtain ⟨own, htask, hweight⟩ := task_of_weight h
    obtain ⟨f, hf, hholds⟩ := Fetch.of_count_holds hweight
    cases own with
    | running own => exact .task (Option.some.inj hf ▸ htask) hholds
    | failed | wake | done => cases hf

-- Whoever holds the gate has to open it and then to tell those that sleep.
theorem Holds.left (h : a.Holds s) : 1 < a.left s := by
  have hdue {f : Fetch} (hholds : f.holds = true) : 1 < f.due := by
    cases f with
    | check | send | waiting | fold | aborted => simp [Fetch.due]
    | claim | wake | ahead | done => cases hholds
  cases h with
  | @call place own f hcall hfetch hholds hunbroken =>
    rw [Activity.left, weight_call hcall]
    show 1 < Fetch.dueOf own.fetch?
    rw [Call.fetch?_of_asking? hfetch]
    exact hdue hholds
  | @task place f htask hholds =>
    rw [Activity.left, weight_task htask]
    exact hdue hholds

end Activity

/-! ## 5. The theorem -/

/-- In every state that a run reaches without a breakdown on a query of an operation: the gate is
held by somebody unless it is open.  A move that opens the gate is the turn of an activity whose
fetch works on the state behind the lock, and tells those that sleep in its next turn; then nobody
sleeps any more.  Whoever sleeps sleeps while somebody holds the gate or is about to tell.  Whoever
holds the gate or is about to tell can move, and along every later run has either told those that
sleep or is the nearer to it for each move of its own, with the gate open before the last. -/
theorem gate_never_stuck {setup : Setup} {release : Bool} {stages : List Stage} {s : System}
    (hrun : Run setup (.opened release) stages s) (hkept : ∀ stage ∈ stages, ¬ stage.BreaksCall) :
    (s.cursor.fetching = true → ∃ a : Activity, a.Holds s) ∧
    (∀ {move : Move} {s' : System} {happenings : List Happening},
      s.move? setup move = some (s', happenings) →
        (s.cursor.fetching = true → s'.cursor.fetching = false →
          ∃ a : Activity, move = a.turn ∧ a.Locks s ∧ a.left s' = 1) ∧
        (∀ a : Activity, a.owns move = true → 1 < a.left s → a.left s' = 1 →
          s'.cursor.fetching = false) ∧
        (.event .notified ∈ happenings → ∀ call ∈ s'.calls, call.sleeps = false)) ∧
    (∀ call ∈ s.calls, call.sleeps = true → ∃ a : Activity, a.Holds s ∨ a.left s = 1) ∧
    (∀ a : Activity, a.Holds s → 1 < a.left s) ∧
    (∀ a : Activity, 0 < a.left s → a.CanMove setup s ∧
      ∀ {later : List Stage} {s' : System}, Run setup s later s' →
        (∀ stage ∈ later, ¬ stage.BreaksCall) →
          .event .notified ∈ happened (a.own later) ∨
            ∃ b, a.afterAll later = some b ∧ 0 < b.left s' ∧
              b.left s' + (a.own later).length ≤ a.left s) := by
  have hattended := hrun.attended hkept
  have hunbroken := hattended.unbroken
  have hheld (hshut : s.cursor.fetching = true) : ∃ a : Activity, a.Holds s := by
    obtain ⟨a, hweight⟩ := hattended.held hshut
    exact ⟨a, Activity.holds_of_weight hunbroken hweight⟩
  refine ⟨hheld, fun hmove => ⟨System.opens_of_move hunbroken hmove, fun a howns hleft hlast => ?_,
    fun htold _ hmem => System.awake_of_notified hmove htold hmem⟩, fun call hmem hsleeps => ?_,
    fun a hholds => hholds.left, fun a hleft => ⟨Activity.canMove_of_left hunbroken hleft,
      fun hlater hkept => (Activity.left_of_run hunbroken hlater hkept hleft).2⟩⟩
  · rcases Activity.left_of_owns hunbroken hmove howns (Nat.zero_lt_of_lt hleft) with
      ⟨hone, -⟩ | ⟨-, -, hopen⟩
    · omega
    · exact hopen hlast
  · rcases hattended.awake call hmem hsleeps with hshut | ⟨a, htells⟩
    · obtain ⟨a, hholds⟩ := hheld hshut
      exact ⟨a, .inl hholds⟩
    · exact ⟨a, .inr htells⟩

/-- An advance sleeps while a fetch in the background holds the gate that was broken off.  Its task
has not noticed yet, and can. -/
theorem gate_never_stuck_broken_off :
    ∃ stages s, Run (.ordinary 1 {}) (.opened true) stages s ∧
      (∀ stage ∈ stages, ¬ stage.BreaksCall) ∧ s.cursor.fetching = true ∧
      (∃ call ∈ s.calls, call.sleeps = true) ∧ Activity.Holds s (.task 0) ∧
      Activity.CanMove (.ordinary 1 {}) s (.task 0) := by
  obtain ⟨stages, s, hstages, hkept, hshut, hsleeps, htask⟩ : ∃ stages s,
      (System.opened true).stages? (.ordinary 1 {})
        [.begin (.extend ⟨.partialSequence, ["1"], none⟩), .call 0, .call 0, .call 0, .collect 0,
          .task 0, .task 0, .task 0, .begin (.next (t := .string) ""), .call 0, .call 0,
          .begin (.next (t := .string) ""), .call 0, .call 0, .call 0, .call 0,
          .answerTask 0 .breakdown] = some (stages, s) ∧
      (∀ stage ∈ stages, ¬ stage.BreaksCall) ∧ s.cursor.fetching = true ∧
      s.calls.any Call.sleeps = true ∧ s.tasks[0]? = some (.running .aborted) :=
    ⟨_, _, rfl, by decide +kernel, rfl, rfl, rfl⟩
  have hrun := Run.of_stages? hstages
  have hholds : Activity.Holds s (.task 0) := .task htask rfl
  obtain ⟨-, -, -, hleft, hgoesOn⟩ := gate_never_stuck hrun hkept
  exact ⟨stages, s, hrun, hkept, hshut, List.any_eq_true.mp hsleeps, hholds,
    (hgoesOn _ (Nat.zero_lt_of_lt (hleft _ hholds))).1⟩

end RowStream
