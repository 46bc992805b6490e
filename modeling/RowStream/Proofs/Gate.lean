import RowStream.Proofs.Runs

/-!
# The gate between operations

Without fetches in the background the gate is held by an operation under way, unless the connection
has broken down on one.  Between operations it is open.
-/

namespace RowStream

variable {setup : Setup} {c : Cursor} {s s' : System} {stages : List Stage}

/-! ## 1. Steps -/

theorem Fetch.Steps.unbroken {f : Fetch} {turn : Turn Fetch} (h : Steps setup c f turn) :
    turn.next ≠ .aborted := by
  cases h with
  | tells outcome low => cases low <;> nofun
  | _ => nofun

-- After a step the operation has the gate, or the gate is open, or the gate is as before and the
-- operation had not passed it.
theorem Call.Steps.gate {call : Call} {turn : Turn Call} (h : Steps setup c call turn) :
    (∃ f, turn.next.fetch? = some f ∧ f.holds = true) ∨ turn.cursor.fetching = false ∨
      ((∀ f, call.fetch? = some f → f.holds = false) ∧ turn.cursor.fetching = c.fetching) := by
  have hnone (f : Fetch) (hf : none = some f) : f.holds = false :=
    absurd hf (Option.some_ne_none f).symm
  cases h with
  | judges hfetch _ hcursor =>
    rw [hfetch, hcursor]
    exact .inr (.inr ⟨hnone, rfl⟩)
  | closes hstep hfetch _ hcursor =>
    rw [hfetch, hcursor]
    refine .inr (.inr ⟨hnone, ?_⟩)
    cases hstep <;> rfl
  | fetches hstep hfetch hnext hcursor =>
    rw [hfetch, hcursor, hnext]
    refine hstep.gate.imp (fun hholds => ⟨_, rfl, hholds⟩) (Or.imp_right fun hsame => ?_)
    exact ⟨fun f hf => Option.some.inj hf ▸ hsame.1, hsame.2⟩
  | advances hstep hfetch hnext hcursor =>
    rw [hfetch, hcursor, hnext]
    cases hstep with
    | @looks slot phase sight inner hsight hlooks =>
      have hsame := hlooks.unchanged.1.trans (Next.sight?_unchanged hsight).1
      have hlook : (⟨slot, phase⟩ : Next _).fetch? = none := (Next.sight?_account hsight).2.2
      rw [hlook]
      exact .inr (.inr ⟨hnone, hsame⟩)
    | @fetches slot f inner hstep =>
      simp only [Turn.map, Next.fetch?_ofFetch]
      refine hstep.gate.imp (fun hholds => ⟨inner.next, ?_, hholds⟩) (Or.imp_right fun hsame => ?_)
      · cases hinner : inner.next with
        | done => rw [hinner] at hholds; cases hholds
        | _ => rfl
      · exact ⟨fun f' hf => Option.some.inj hf ▸ hsame.1, hsame.2⟩
    | closes slot hstep =>
      refine .inr (.inr ⟨hnone, ?_⟩)
      cases hstep <;> rfl
    | enters | ends | sleeps | records => exact .inr (.inr ⟨hnone, rfl⟩)

theorem Call.Steps.unbroken {call : Call} {turn : Turn Call} (h : Steps setup c call turn) :
    turn.next.fetch? ≠ some .aborted := by
  intro hbroken
  cases h with
  | judges _ hnext | closes _ _ hnext => rw [hnext] at hbroken; cases hbroken
  | fetches hstep _ hnext =>
    rw [hnext] at hbroken
    exact hstep.unbroken (Option.some.inj hbroken)
  | advances hstep _ hnext =>
    rw [hnext] at hbroken
    cases hstep with
    | looks slot hsight hlooks =>
      cases hlooks with
      | row hpop =>
        unfold Next.receive at hbroken
        split at hbroken <;> cases hbroken
      | _ => cases hbroken
    | @fetches slot f inner hstep =>
      simp only [Turn.map, Next.fetch?_ofFetch] at hbroken
      have hunbroken := hstep.unbroken
      cases hinner : inner.next with
      | aborted => exact hunbroken hinner
      | _ => rw [hinner] at hbroken; cases hbroken
    | @closes slot close inner hstep =>
      cases hinner : inner.next <;> simp only [Turn.map, hinner] at hbroken <;> cases hbroken
    | enters | ends | sleeps | records => cases hbroken

/-! ## 2. Nothing in the background -/

theorem Cursor.countP_schedule (h : setup.options.prefetch = false) (c : Cursor) :
    (c.schedule setup).countP Event.schedules = 0 := by
  rw [schedule, h]
  rfl

theorem Fetch.Steps.countP_schedules {f : Fetch} {turn : Turn Fetch} (h : Steps setup c f turn)
    (hprefetch : setup.options.prefetch = false) : turn.events.countP Event.schedules = 0 := by
  cases h with
  | looksAhead => exact Cursor.countP_schedule hprefetch c
  | _ => rfl

theorem Close.Steps.countP_schedules {x : Close} {turn : Turn Close} (h : Steps c x turn) :
    turn.events.countP Event.schedules = 0 := by
  cases h with
  | releases r stopError line => cases r <;> rfl
  | _ => rfl

theorem Call.Steps.countP_schedules {call : Call} {turn : Turn Call} (h : Steps setup c call turn)
    (hprefetch : setup.options.prefetch = false) : turn.events.countP Event.schedules = 0 := by
  cases h with
  | judges _ _ _ hevents => rw [hevents]; rfl
  | closes hstep _ _ _ hevents => rw [hevents, hstep.countP_schedules]
  | fetches hstep _ _ _ hevents => rw [hevents, hstep.countP_schedules hprefetch]
  | advances hstep _ _ _ hevents =>
    rw [hevents]
    cases hstep with
    | @looks slot phase sight inner hsight hlooks =>
      cases hlooks with
      | row hpop =>
        show (if sight.runsLow then sight.schedule setup else []).countP Event.schedules = 0
        rw [Cursor.schedule, hprefetch]
        split <;> rfl
      | _ => rfl
    | fetches slot hstep => exact hstep.countP_schedules hprefetch
    | closes slot hstep => exact hstep.countP_schedules
    | enters | ends | sleeps | records => rfl

/-! ## 3. Runs -/

/-- Whether a query for more rows is answered by a breakdown. -/
def Happening.breaksOff : Happening → Bool
  | answered .more .breakdown => true
  | _ => false

/-- Whether the connection breaks down on a query for more rows. -/
def Stage.BreaksOff (stage : Stage) : Prop := stage.happenings.any Happening.breaksOff = true

instance : DecidablePred Stage.BreaksOff := fun stage =>
  inferInstanceAs (Decidable (stage.happenings.any Happening.breaksOff = true))

/-- Whether a move is the answer to the query of an operation. -/
def Move.answersCall : Move → Bool
  | answerCall .. => true
  | _ => false

/-- Whether the connection breaks down on the query of an operation for more rows. -/
def Stage.BreaksCall (stage : Stage) : Prop :=
  stage.move.answersCall = true ∧ stage.BreaksOff

instance : DecidablePred Stage.BreaksCall := fun stage =>
  inferInstanceAs (Decidable (stage.move.answersCall = true ∧ stage.BreaksOff))

/-- Nothing goes on in the background, and the gate is held by an operation if it is not open. -/
structure System.Gated (s : System) : Prop where
  tasks : s.tasks = []
  held : s.cursor.fetching = true → ∃ call ∈ s.calls, ∃ f, call.fetch? = some f ∧ f.holds = true
  unbroken : ∀ call ∈ s.calls, call.fetch? ≠ some .aborted

theorem Call.fetch?_wake (call : Call) : call.wake.fetch? = call.fetch? := by
  have hnext {t : Target} (n : Next t) : n.wake.fetch? = n.fetch? := by
    obtain ⟨slot, phase⟩ := n
    cases phase <;> rfl
  cases call with
  | next n => exact hnext n
  | one o => cases o <;> first | exact hnext _ | rfl
  | all a => cases a <;> first | exact hnext _ | rfl
  | item i => cases i <;> first | exact hnext _ | rfl
  | close | extend => rfl

theorem Call.fetch?_answer (call : Call) (a : Answer) :
    (call.answer a).fetch? = call.fetch?.map (Fetch.answer a) := by
  have hnext {t : Target} (n : Next t) : (n.answer a).fetch? = n.fetch?.map (Fetch.answer a) := by
    obtain ⟨slot, phase⟩ := n
    cases phase <;> rfl
  cases call with
  | next n => exact hnext n
  | one o => cases o <;> first | exact hnext _ | rfl
  | all x => cases x <;> first | exact hnext _ | rfl
  | item i => cases i <;> first | exact hnext _ | rfl
  | close | extend => rfl

-- An operation in a fetch waits for what the fetch waits for.
theorem Call.awaits?_of_fetch? {call : Call} {f : Fetch} (hf : call.fetch? = some f) :
    call.awaits? = f.awaits? := by
  have hnext {t : Target} {n : Next t} (hf : n.fetch? = some f) : n.awaits? = f.awaits? := by
    obtain ⟨slot, phase⟩ := n
    cases phase with
    | fetching own => cases hf; rfl
    | _ => cases hf
  cases call with
  | next n => exact hnext hf
  | one o => cases o <;> first | exact hnext hf | cases hf
  | all a => cases a <;> first | exact hnext hf | cases hf
  | item i => cases i <;> first | exact hnext hf | cases hf
  | close x => cases hf
  | extend own => cases hf; rfl

theorem Operation.fetch?_begin (op : Operation) : op.begin.fetch? ≠ some .aborted := by
  cases op with
  | all initial => cases initial <;> nofun
  | item t ended => cases ended <;> nofun
  | _ => nofun

-- The fetch of an operation that the caller can take back has come to its outcome, or was broken
-- off.
theorem Call.fetch?_of_ended {call : Call} {f : Fetch}
    (hended : (call.isDone || call.isAborted) = true) (hf : call.fetch? = some f) :
    (∃ outcome, f = .done outcome) ∨ f = .aborted := by
  have hnext {t : Target} {n : Next t} (hended : (n.result?.isSome || n.isAborted) = true)
      (hf : n.fetch? = some f) : f = .aborted := by
    obtain ⟨slot, phase⟩ := n
    cases phase with
    | fetching own =>
      cases hf
      cases f <;> first | rfl | cases hended
    | _ => cases hf
  cases call with
  | next n => exact .inr (hnext hended hf)
  | one o =>
    cases o with
    | advancing n => exact .inr (hnext (Bool.or_eq_true_iff.mpr (.inr hended)) hf)
    | _ => cases hf
  | all a =>
    cases a with
    | advancing got spare n => exact .inr (hnext (Bool.or_eq_true_iff.mpr (.inr hended)) hf)
    | _ => cases hf
  | item i =>
    cases i with
    | advancing n => exact .inr (hnext (Bool.or_eq_true_iff.mpr (.inr hended)) hf)
    | _ => cases hf
  | close x => cases hf
  | extend own =>
    cases hf
    cases f with
    | done outcome => exact .inl ⟨outcome, rfl⟩
    | aborted => exact .inr rfl
    | _ => cases hended

-- As long as no query of an operation is broken off, no operation is.
theorem System.unbroken_of_move {move : Move} {happenings : List Happening}
    (hmove : s.move? setup move = some (s', happenings))
    (hkept : ¬ (Stage.mk s move happenings).BreaksCall)
    (h : ∀ call ∈ s.calls, call.fetch? ≠ some .aborted) :
    ∀ call ∈ s'.calls, call.fetch? ≠ some .aborted := by
  intro call hmem
  cases stems_of_move hmove hmem with
  | same hsame => exact h call hsame
  | @woken call hwoken =>
    rw [call.fetch?_wake]
    exact h call hwoken
  | @begun op hbegin => exact op.fetch?_begin
  | turned hturns hcall hstep => exact (Call.steps_of_step hstep).unbroken
  | @answered place call kind a hanswers hcall hawaits hcursor hhappened =>
    subst hanswers hhappened
    rw [call.fetch?_answer]
    intro hbroken
    obtain ⟨f, hf, haborted⟩ := Option.map_eq_some_iff.mp hbroken
    cases f with
    | waiting =>
      cases a with
      -- Breaking off a query for more rows is what the stage does not do.
      | breakdown =>
        have hkind : kind = .more :=
          (Option.some.inj ((Call.awaits?_of_fetch? hf).symm.trans hawaits)).symm
        rw [hkind] at hkept
        exact hkept ⟨rfl, rfl⟩
      | reply | failure => cases haborted
    | aborted => exact h call (List.mem_of_getElem? hcall) hf
    | _ => cases haborted

namespace System.Gated

variable {before later : List Call}

-- An operation in the place of another that has no less hold of the gate.
theorem held_replace {calls : List Call} {call call' : Call} (h : s.Gated)
    (hcalls : s.calls = before ++ call :: later) (hnew : calls = before ++ call' :: later)
    (hholds : ∀ f, call.fetch? = some f → f.holds = true →
      ∃ f', call'.fetch? = some f' ∧ f'.holds = true) (hgate : s.cursor.fetching = true) :
    ∃ call ∈ calls, ∃ f, call.fetch? = some f ∧ f.holds = true := by
  obtain ⟨holder, hmem, f, hf, hholder⟩ := h.held hgate
  rw [hcalls] at hmem
  simp only [hnew, List.mem_append, List.mem_cons] at hmem ⊢
  rcases hmem with hmem | rfl | hmem
  · exact ⟨holder, .inl hmem, f, hf, hholder⟩
  · obtain ⟨f', hf', hholds'⟩ := hholds f hf hholder
    exact ⟨call', .inr (.inl rfl), f', hf', hholds'⟩
  · exact ⟨holder, .inr (.inr hmem), f, hf, hholder⟩

theorem held_after {calls : List Call} {tasks : List Task} {events : List Event}
    (h : ∃ call ∈ calls, ∃ f, call.fetch? = some f ∧ f.holds = true) :
    ∃ call ∈ (System.after c calls tasks events).calls,
      ∃ f, call.fetch? = some f ∧ f.holds = true := by
  obtain ⟨call, hmem, f, hf, hholds⟩ := h
  unfold System.after
  split
  next => exact ⟨call.wake, List.mem_map_of_mem hmem, f, call.fetch?_wake.trans hf, hholds⟩
  next => exact ⟨call, hmem, f, hf, hholds⟩

theorem held_call {place : Nat} {happenings : List Happening} (h : s.Gated)
    (hmove : s.move? setup (.call place) = some (s', happenings))
    (hgate : s'.cursor.fetching = true) :
    ∃ call ∈ s'.calls, ∃ f, call.fetch? = some f ∧ f.holds = true := by
  obtain ⟨before, call, later, turn, hcalls, rfl, hstep, rfl, rfl⟩ := System.move?_call hmove
  refine held_after ?_
  rcases (Call.steps_of_step hstep).gate with ⟨f, hf, hholds⟩ | hopen | ⟨hnot, hsame⟩
  · exact ⟨turn.next, List.mem_append_right _ List.mem_cons_self, f, hf, hholds⟩
  · have hheld : turn.cursor.fetching = true := hgate
    rw [hopen] at hheld
    cases hheld
  · -- The gate is as it was, so another operation holds it.
    refine h.held_replace hcalls rfl (fun f hf hholds => ?_) (hsame ▸ hgate)
    rw [hnot f hf] at hholds
    cases hholds

theorem held_answerCall {place : Nat} {a : Answer} {happenings : List Happening} (h : s.Gated)
    (hmove : s.move? setup (.answerCall place a) = some (s', happenings))
    (hgate : s'.cursor.fetching = true) :
    ∃ call ∈ s'.calls, ∃ f, call.fetch? = some f ∧ f.holds = true := by
  obtain ⟨before, call, later, kind, hcalls, rfl, hawaits, rfl, rfl⟩ :=
    System.move?_answerCall hmove
  refine h.held_replace hcalls rfl (fun f hf hholds => ?_) hgate
  refine ⟨f.answer a, by rw [call.fetch?_answer, hf]; rfl, ?_⟩
  cases f with
  | waiting => cases a <;> rfl
  | _ => exact hholds

theorem held_collect {place : Nat} {happenings : List Happening} (h : s.Gated)
    (hmove : s.move? setup (.collect place) = some (s', happenings))
    (hgate : s'.cursor.fetching = true) :
    ∃ call ∈ s'.calls, ∃ f, call.fetch? = some f ∧ f.holds = true := by
  obtain ⟨before, call, later, hcalls, rfl, hended, rfl, rfl⟩ := System.move?_collect hmove
  obtain ⟨holder, hholder, f, hf, hholds⟩ := h.held hgate
  refine ⟨holder, ?_, f, hf, hholds⟩
  have hunbroken := h.unbroken holder hholder
  rw [hcalls] at hholder
  simp only [List.mem_append, List.mem_cons] at hholder ⊢
  -- The holder is not the operation taken back, which is past its fetch or was broken off.
  rcases hholder with hholder | rfl | hholder
  · exact .inl hholder
  · rcases Call.fetch?_of_ended hended hf with ⟨outcome, rfl⟩ | rfl
    · cases hholds
    · exact absurd hf hunbroken
  · exact .inr hholder

theorem step {move : Move} {happenings : List Happening} (h : s.Gated)
    (hprefetch : setup.options.prefetch = false)
    (hmove : s.move? setup move = some (s', happenings))
    (hkept : ¬ (Stage.mk s move happenings).BreaksOff) : s'.Gated := by
  have hunbroken := unbroken_of_move hmove (fun hbreaks => hkept hbreaks.2) h.unbroken
  cases move with
  | begin op =>
    cases hmove
    refine ⟨h.tasks, fun hgate => ?_, hunbroken⟩
    obtain ⟨holder, hmem, hholder⟩ := h.held hgate
    exact ⟨holder, List.mem_cons_of_mem _ hmem, hholder⟩
  | call place =>
    refine ⟨?_, h.held_call hmove, hunbroken⟩
    obtain ⟨before, call, later, turn, hcalls, rfl, hstep, rfl, rfl⟩ := System.move?_call hmove
    show s.tasks ++ _ = []
    rw [h.tasks, (Call.steps_of_step hstep).countP_schedules hprefetch]
    rfl
  | answerCall place a =>
    refine ⟨?_, h.held_answerCall hmove, hunbroken⟩
    obtain ⟨before, call, later, kind, -, -, -, -, rfl⟩ := System.move?_answerCall hmove
    exact h.tasks
  | collect place =>
    refine ⟨?_, h.held_collect hmove, hunbroken⟩
    obtain ⟨before, call, later, -, -, -, -, rfl⟩ := System.move?_collect hmove
    exact h.tasks
  | task place =>
    obtain ⟨before, task, later, turn, htasks, -⟩ := System.move?_task hmove
    rw [h.tasks] at htasks
    exact absurd htasks.symm (List.append_ne_nil_of_right_ne_nil _ nofun)
  | answerTask place a =>
    obtain ⟨before, task, later, kind, htasks, -⟩ := System.move?_answerTask hmove
    rw [h.tasks] at htasks
    exact absurd htasks.symm (List.append_ne_nil_of_right_ne_nil _ nofun)

end System.Gated

-- Between operations nothing goes on and the gate is open.
theorem Run.gate_of_idle {release : Bool} (hrun : Run setup (.opened release) stages s)
    (hprefetch : setup.options.prefetch = false) (hkept : ∀ stage ∈ stages, ¬ stage.BreaksOff)
    (hidle : s.calls = []) : s.tasks = [] ∧ s.cursor.fetching = false := by
  have hgated : s.Gated :=
    hrun.invariant (fun _ s => s.Gated) (fun stage => ¬ stage.BreaksOff)
      ⟨rfl, fun hgate => absurd hgate Bool.false_ne_true, fun call hmem =>
        absurd hmem List.not_mem_nil⟩
      (fun h hmove hkept => h.step hprefetch hmove hkept) hkept
  refine ⟨hgated.tasks, Bool.eq_false_iff.mpr fun hgate => ?_⟩
  obtain ⟨holder, hmem, -⟩ := hgated.held hgate
  rw [hidle] at hmem
  cases hmem

end RowStream
