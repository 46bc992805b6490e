import RowStream.Proofs.Asking
import RowStream.Proofs.Closing
import RowStream.Proofs.Drain
import RowStream.Proofs.Entries
import RowStream.Proofs.Gate

/-!
# Finished cursors

A cursor has finished if the last reply that it accepted ends the stream.  As long as no later reply
overrules the one that ended it, no more rows are asked for, nothing is stopped when the cursor is
closed, and the rows that are queued can still be read.
-/

namespace RowStream

variable {setup : Setup} {c : Cursor} {s s' start : System} {stages later : List Stage}
  {move : Move} {happenings : List Happening} {t : Target}

/-! ## 1. The last reply -/

theorem Call.Steps.finished_eq {call : Call} {turn : Turn Call} (h : Steps setup c call turn) :
    turn.cursor.finished =
      ((call.fetch?.bind (Fetch.accepts? c)).map Reply.isLast).getD c.finished := by
  cases h with
  | judges hfetch _ hcursor => rw [hfetch, hcursor]; rfl
  | advances hstep hfetch _ hcursor => rw [hfetch, hcursor]; exact hstep.finished_eq
  | closes hstep hfetch _ hcursor =>
    rw [hfetch, hcursor]
    cases hstep <;> rfl
  | fetches hstep hfetch _ hcursor => rw [hfetch, hcursor]; exact hstep.finished_eq

theorem Task.Steps.finished_eq {task : Task} {turn : Turn Task} (h : Steps setup c task turn) :
    turn.cursor.finished =
      ((task.fetch?.bind (Fetch.accepts? c)).map Reply.isLast).getD c.finished := by
  cases h with
  | fetches hstep => exact hstep.finished_eq
  | notices =>
    have hnone : Task.fetch? (.running .aborted) = some .aborted := rfl
    rw [hnone, Option.bind_some, Fetch.accepts?_of_brings?_eq_none rfl]
    rfl
  | reports | tells => rfl

theorem System.finished_of_move (hmove : s.move? setup move = some (s', happenings)) :
    s'.cursor.finished =
      ((Stage.mk s move happenings).accepted?.map Reply.isLast).getD s.cursor.finished := by
  cases move with
  | begin op => cases hmove; rfl
  | call place =>
    obtain ⟨before, call, later, turn, hcalls, rfl, hstep, rfl, rfl⟩ := move?_call hmove
    rw [Stage.accepted?, Account.turning?_call hcalls]
    exact (Call.steps_of_step hstep).finished_eq
  | answerCall place a =>
    obtain ⟨before, call, later, kind, hcalls, rfl, hawaits, rfl, rfl⟩ := move?_answerCall hmove
    rfl
  | collect place =>
    obtain ⟨before, call, later, hcalls, rfl, hended, rfl, rfl⟩ := move?_collect hmove
    rfl
  | task place =>
    obtain ⟨before, task, later, turn, htasks, rfl, hstep, rfl, rfl⟩ := move?_task hmove
    rw [Stage.accepted?, Account.turning?_task htasks]
    exact (Task.steps_of_step hstep).finished_eq
  | answerTask place a =>
    obtain ⟨before, task, later, kind, htasks, rfl, hawaits, rfl, rfl⟩ := move?_answerTask hmove
    rfl

-- The last reply accepted says whether there are more.
theorem Run.finished_eq (hrun : Run setup start stages s) :
    s.cursor.finished =
      ((accepted stages).getLast?.map Reply.isLast).getD start.cursor.finished := by
  induction hrun with
  | nil => rfl
  | @snoc stages s s' move happenings _ hmove ih =>
    rw [System.finished_of_move hmove, ih, accepted_concat]
    cases Stage.accepted? ⟨s, move, happenings⟩ with
    | none => rw [Option.toList, List.append_nil]; rfl
    | some reply => rw [Option.toList, List.getLast?_concat]; rfl

theorem accepted?_of_closed {stage : Stage} (h : stage.before.cursor.closed = true) :
    stage.accepted? = none := by
  rw [Stage.accepted?]
  cases stage.before.turning? stage.move with
  | none => rfl
  | some f => exact if_pos h

-- As long as no reply that is accepted overrules the end of the stream, it has been found.
theorem Run.finished_of_accepted (hrun : Run setup start stages s)
    (hstart : start.cursor.finished = true)
    (hlast : ∀ reply ∈ accepted stages, reply.isLast = true) :
    s.cursor.finished = true ∧ ∀ stage ∈ stages, stage.before.cursor.finished = true := by
  induction hrun with
  | nil => exact ⟨hstart, fun _ h => absurd h List.not_mem_nil⟩
  | @snoc stages s s' move happenings _ hmove ih =>
    rw [accepted_concat] at hlast
    obtain ⟨hfinished, hbefore⟩ :=
      ih fun reply hreply => hlast reply (List.mem_append_left _ hreply)
    refine ⟨?_, fun stage hstage => ?_⟩
    · rw [System.finished_of_move hmove, hfinished]
      cases haccepted : Stage.accepted? ⟨s, move, happenings⟩ with
      | none => rfl
      | some reply =>
        exact hlast reply (List.mem_append_right _ (by rw [haccepted]; exact List.mem_cons_self))
    · rcases List.mem_append.mp hstage with hstage | hstage
      · exact hbefore stage hstage
      · rw [List.mem_singleton.mp hstage]
        exact hfinished

/-! ## 2. Asking for more -/

theorem Run.asked_of_finished (hrun : Run setup start stages s)
    (hfinished : ∀ stage ∈ stages, stage.before.cursor.finished = true) :
    asked stages + s.sending ≤ start.sending :=
  Nat.le_of_eq (hrun.asked_of_stuck fun stage hstage =>
    Cursor.canContinue_of_finished (hfinished stage hstage))

/-! ## 3. Stopping -/

/-- The stop queries of a closing are none if the stream had finished. -/
theorem Settles.sent_of_finished {release : Bool} {x : Close} {sent : Nat} {answers : List Answer}
    {told : List (Option Error)} (h : Settles true release x sent answers told) : sent = 0 := by
  cases h with
  | wakes => rfl
  | releases hstopped | ended hstopped =>
    cases hstopped with
    | skipped => rfl
    | replied hgoes | failed hgoes => cases hgoes
  | stops hgoes | waits hgoes | broken hgoes => cases hgoes

-- A closing does not take its first turn together with a reply.
theorem System.finished_of_closes (hmove : s.move? setup move = some (s', happenings))
    (hopen : s.cursor.closed = false) (hclosed : s'.cursor.closed = true) :
    s'.cursor.finished = s.cursor.finished := by
  obtain ⟨place, rfl⟩ := call_of_closes hmove hopen hclosed
  obtain ⟨before, call, later, turn, hcalls, rfl, hstep, rfl, rfl⟩ := move?_call hmove
  rw [cursor_after] at hclosed ⊢
  cases Call.closing_of_step hstep with
  | apart _ _ hsame => rw [hsame, hopen] at hclosed; cases hclosed
  | marks _ _ _ hcursor => rw [hcursor]
  | proceeds _ _ _ hcursor => rw [hcursor]

-- Nothing is stopped if the stream has finished by the end.
theorem Run.stops_of_finished {release : Bool} (hrun : Run setup (.opened release) stages s)
    (hfinished : s.cursor.finished = true) : stops stages = 0 := by
  rcases hrun.opened_or_shut with
    hopened | ⟨before, first, later, start, x, rfl, -, hopened, hfirst, hnone, hshut, hlater⟩
  · exact (quiet_of_ofClosing hopened.quiet).1
  · obtain ⟨y, hy⟩ := hshut.run hlater
    rw [List.nil_append] at hy
    -- A closed cursor accepts nothing, so the stream had finished when the cursor was closed.
    have haccepted : accepted later = [] :=
      List.filterMap_eq_nil_iff.mpr fun stage hstage =>
        accepted?_of_closed (hy.afterwards stage hstage)
    have hstart : start.cursor.finished = true := by
      have hsame := hlater.finished_eq
      rw [haccepted, hfinished] at hsame
      exact hsame.symm
    have hsettles := hy.settles
    rw [← System.finished_of_closes hfirst hopened.closed hshut.closed, hstart] at hsettles
    have hbefore : (happened before).countP Happening.stops = 0 :=
      (quiet_of_ofClosing hopened.quiet).1
    have hsplit : happened (before ++ first :: later) = happened before ++ happened later := by
      rw [happened_append]
      simp [happened, hnone]
    rw [stops, hsplit, List.countP_append, hbefore, Nat.zero_add]
    exact hsettles.sent_of_finished

/-! ## 4. Reading what is queued -/

namespace Next

variable {n : Next t} {queued : List Entry} {got : List t.Slot}

/-- Whether an advance reads the queues without waiting for anything. -/
def Browses (n : Next t) : Prop :=
  match n.phase with
  | .enter | .look | .refill _ | .done true => True
  | _ => False

/-- Whether an advance is about to close a cursor that has finished, or has done so. -/
def Leaves (n : Next t) : Prop :=
  match n.phase with
  | .failed _ | .closing .mark | .closing (.wake true _) | .closing (.release ..) | .done false =>
    True
  | _ => False

/-- An advance that empties the queues of a finished cursor, after values that have been handed out.
More may have been added to what was queued. -/
inductive Empties (setup : Setup) (queued : List Entry) (got : List t.Slot) (c : Cursor)
    (n : Next t) : Prop
  | browsing {taken hand : List Datum} {more : List Entry} (hbrowses : n.Browses)
    (hopen : c.closed = false) (hhands : n.Hands hand) (hgot : taken.map t.value? = got.map some)
    (hahead : taken.map .ok ++ (hand.map .ok ++ n.ahead setup c c.batches.toList) =
      queued ++ more)
  | leaving (hleaves : n.Leaves) (hgot : t.values queued <+: got)

-- Once nothing can be had any more, all that could be had has been handed out.
theorem values_prefix_of_ahead {taken : List Datum} {rest more : List Entry}
    (hgot : taken.map t.value? = got.map some) (hahead : taken.map .ok ++ rest = queued ++ more)
    (hrest : t.values rest = []) : t.values queued <+: got := by
  have hvalues := (Target.values_append hgot rest).1
  rw [hahead, hrest, List.append_nil] at hvalues
  rw [← hvalues]
  exact Target.values_prefix queued more

theorem Empties.fetch?_eq_none (h : n.Empties setup queued got c) : n.fetch? = none := by
  obtain ⟨slot, phase⟩ := n
  cases phase with
  | fetching f =>
    cases h with
    | browsing hbrowses => exact hbrowses.elim
    | leaving hleaves => exact hleaves.elim
  | _ => rfl

theorem Empties.wake (h : n.Empties setup queued got c) : n.wake = n := by
  obtain ⟨slot, phase⟩ := n
  cases phase with
  | asleep =>
    cases h with
    | browsing hbrowses => exact hbrowses.elim
    | leaving hleaves => exact hleaves.elim
  | _ => rfl

-- An advance that empties the queues never waits for the connection.
theorem Empties.awaits? (h : n.Empties setup queued got c) : n.awaits? = none := by
  obtain ⟨slot, phase⟩ := n
  have hfetch := h.fetch?_eq_none
  cases phase with
  | fetching f => cases hfetch
  | closing close =>
    cases close with
    | waiting r =>
      cases h with
      | browsing hbrowses => exact hbrowses.elim
      | leaving hleaves => exact hleaves.elim
    | _ => rfl
  | _ => rfl

theorem Empties.goesOn (h : n.Empties setup queued got c) (hstep : n.step setup c = none) :
    ∃ more, n.phase = .done more := by
  obtain ⟨slot, phase⟩ := n
  have hfalse (h' : ¬ (⟨slot, phase⟩ : Next t).Browses ∧ ¬ (⟨slot, phase⟩ : Next t).Leaves) :
      ∃ more, phase = .done more := by
    cases h with
    | browsing hbrowses => exact absurd hbrowses h'.1
    | leaving hleaves => exact absurd hleaves h'.2
  cases phase with
  | done more => exact ⟨more, rfl⟩
  | fetching | recheck | asleep => exact hfalse ⟨id, id⟩
  | closing close =>
    cases close with
    | mark =>
      simp only [step, Close.step, Option.map_eq_none_iff] at hstep
      split at hstep <;> cases hstep
    | stop | waiting | done | aborted => exact hfalse ⟨id, id⟩
    | wake | release => cases hstep
  | _ => cases hstep

theorem Empties.turn {turn : Turn (Next t)} (h : n.Empties setup queued got c)
    (hfinished : c.finished = true) (hstep : n.step setup c = some turn) :
    turn.next.Empties setup queued got turn.cursor := by
  cases h with
  | @browsing taken hand more hbrowses hopen hhands hgot hahead =>
    have hnone : hand = [] := by
      obtain ⟨slot, phase⟩ := n
      cases phase with
      | done more => cases hstep
      | _ => exact hhands
    rw [hnone] at hahead
    cases steps_of_step hstep with
    | enters slot => exact .browsing trivial hopen rfl hgot hahead
    | ends slot hclosed => rw [hopen] at hclosed; cases hclosed
    | @looks slot phase sight turn hsight hlooks =>
      obtain ⟨-, hend, -, hclosed⟩ := sight?_unchanged hsight
      have hsighted : sight.closed = false := hclosed.trans hopen
      by_cases hfront : sight.FrontFails setup t
      · have hmeets := hlooks.meets (n := ⟨slot, phase⟩) hsight hfront []
        rw [List.append_nil] at hmeets
        obtain ⟨e, hfails, hphase⟩ := hmeets
        refine .leaving ?_ (values_prefix_of_ahead hgot hahead ?_)
        · rw [Leaves, hphase]
          trivial
        · exact hfails.values_eq.1
      · obtain ⟨hand, hhands, hmoved⟩ := hlooks.ahead (n := ⟨slot, phase⟩) hsight hfront []
        rw [List.append_nil, List.append_nil] at hmoved
        -- Without rows and texts there is nothing ahead.
        have hover (hrows : sight.rows.toList = []) (hbatches : sight.batches.toList = []) :
            t.values queued <+: got := by
          refine values_prefix_of_ahead hgot hahead ?_
          have hnone : (⟨slot, phase⟩ : Next t).ahead setup c (c.batches.toList ++ []) = _ :=
            ahead_of_sight? hsight []
          rw [List.append_nil, List.append_nil, hrows, hbatches] at hnone
          rw [hnone]
          rfl
        rw [List.map_nil, List.nil_append, ← hmoved] at hahead
        cases hlooks with
        | row hpop =>
          obtain ⟨value, hvalue⟩ := value?_of_front hfront hpop
          rw [receive_of_value? hvalue] at hhands hahead ⊢
          exact .browsing trivial hsighted hhands hgot hahead
        | batch => exact .browsing trivial hsighted hhands hgot hahead
        | badBatch hempty hpop hread =>
          exact absurd hread (rows_ne_error_of_front hfront hempty hpop _)
        | error hrows hbatches => exact .leaving trivial (hover hrows hbatches)
        | finished hrows hbatches => exact .leaving trivial (hover hrows hbatches)
        | closed _ _ _ hends => rw [hend, hfinished] at hends; cases hends
        | fetch _ _ hcontinue =>
          rw [Cursor.canContinue_eq_true_iff, hend, hfinished] at hcontinue
          cases hcontinue.2.1
    | sleeps | fetches | records | closes => exact hbrowses.elim
  | leaving hleaves hgot =>
    cases steps_of_step hstep with
    | ends | enters | sleeps | fetches => exact hleaves.elim
    | @looks slot phase sight turn hsight =>
      cases phase with
      | look | recheck | refill => exact hleaves.elim
      | _ => cases hsight
    | records => exact .leaving trivial hgot
    | closes slot hclose =>
      cases hclose with
      | again | releases => exact .leaving trivial hgot
      | marks =>
        refine .leaving ?_ hgot
        rw [hfinished]
        trivial
      | tells finished r =>
        cases finished with
        | true => exact .leaving trivial hgot
        | false => exact hleaves.elim
      | stops => exact hleaves.elim

-- Texts that come from the background come after what is queued.
theorem Empties.adds {c' : Cursor} {texts : List String} (h : n.Empties setup queued got c)
    (hrows : c'.rows = c.rows) (hclosed : c'.closed = c.closed)
    (hbatches : c'.batches.toList = c.batches.toList ++ texts) :
    n.Empties setup queued got c' := by
  cases h with
  | @browsing taken hand more hbrowses hopen hhands hgot hahead =>
    have hmore : n.ahead setup c' c'.batches.toList =
        n.ahead setup c c.batches.toList ++ setup.entriesOfAll texts := by
      rw [ahead, ahead, hrows, hbatches, Setup.entriesOfAll_append, List.append_assoc]
    have hahead' : taken.map .ok ++ (hand.map .ok ++ n.ahead setup c' c'.batches.toList) =
        queued ++ (more ++ setup.entriesOfAll texts) := by
      rw [hmore, ← List.append_assoc queued, ← hahead]
      simp only [List.append_assoc]
    exact .browsing hbrowses (hclosed.trans hopen) hhands hgot hahead'
  | leaving hleaves hgot => exact .leaving hleaves hgot

-- The advance after one that has found a row.
theorem Empties.again {slot : t.Slot} (slot' : t.Slot)
    (h : (⟨slot, .done true⟩ : Next t).Empties setup queued got c) :
    (Next.start slot').Empties setup queued (got ++ [slot]) c := by
  cases h with
  | @browsing taken hand more hbrowses hopen hhands hgot hahead =>
    obtain ⟨row, rfl, hvalue⟩ := hhands
    have hgot' : (taken ++ [row]).map t.value? = (got ++ [slot]).map some := by
      rw [List.map_append, List.map_append, hgot, List.map_singleton, hvalue]
      rfl
    have hahead' : (taken ++ [row]).map .ok ++ (([] : List Datum).map .ok ++
        (Next.start slot').ahead setup c c.batches.toList) = queued ++ more := by
      rw [← hahead, List.map_append, List.append_assoc]
      rfl
    exact .browsing trivial hopen rfl hgot' hahead'
  | leaving hleaves => exact hleaves.elim

end Next

theorem Task.Steps.adds {task : Task} {turn : Turn Task} (h : Steps setup c task turn) :
    turn.cursor.rows = c.rows ∧
      ∃ texts, turn.cursor.batches.toList = c.batches.toList ++ texts := by
  cases h with
  | fetches hstep => exact ⟨hstep.rows_eq, _, hstep.toList_batches⟩
  | notices | reports | tells => exact ⟨rfl, [], (List.append_nil _).symm⟩

-- A turn does not bring anything: what a fetch brings comes with an answer.
theorem Task.Steps.brings?_eq_none {task : Task} {turn : Turn Task} {f : Fetch}
    (h : Steps setup c task turn) (hf : turn.next.fetch? = some f) : f.brings? = none := by
  cases h with
  | fetches hfetch =>
    cases hfetch with
    | tells outcome low =>
      cases low with
      | true => cases hf; rfl
      | false => cases (Task.fetch?_ofFetch_done outcome).symm.trans hf
    | refused => cases hf
    | looksAhead outcome => cases (Task.fetch?_ofFetch_done outcome).symm.trans hf
    | passed | goesOn | turnsBack | asks | adds | fails =>
      cases hf
      rfl
  | notices | reports | tells => cases hf

theorem Task.brings?_answer {task : Task} {kind : Query.Kind} {a : Answer} {f : Fetch}
    {reply : Reply} (hawaits : task.awaits? = some kind) (hf : (task.answer a).fetch? = some f)
    (hbrings : f.brings? = some reply) : a = .reply reply := by
  cases task with
  | running own =>
    cases own with
    | waiting =>
      cases hf
      cases a <;> cases hbrings
      rfl
    | _ => cases hawaits
  | failed | wake | done => cases hf

/-- Whether a fetch in the background is about to add a reply. -/
def System.Brings (s : System) (reply : Reply) : Prop :=
  ∃ task ∈ s.tasks, ∃ f, task.fetch? = some f ∧ f.brings? = some reply

/-- The invariant of a caller that empties the queues of a finished cursor. -/
structure World.Empties (setup : Setup) (queued : List Entry) {t : Target} (w : World) (n : Next t)
    (got : List t.Slot) : Prop where
  calls : w.system.calls = [.next n]
  results : w.results = got.map fun slot => .next (t := t) ⟨slot, .done true⟩
  finished : w.system.cursor.finished = true
  brings : ∀ reply, w.system.Brings reply → reply.isLast = true
  answers : ∀ reply, .reply reply ∈ w.answers → reply.isLast = true
  empties : n.Empties setup queued got w.system.cursor

namespace World.Empties

variable {schedule : Schedule} {w w' : World} {n : Next t} {queued : List Entry} {got : List t.Slot}

theorem brings_of_task {before later : List Task} {task task' : Task} {calls : List Call}
    {c' : Cursor} (h : ∀ reply, System.Brings ⟨c, calls, before ++ task :: later⟩ reply →
      reply.isLast = true)
    (hnew : ∀ f reply, task'.fetch? = some f → f.brings? = some reply → reply.isLast = true)
    (k : Nat) (calls' : List Call) :
    ∀ reply, System.Brings ⟨c', calls', before ++ task' :: later ++ List.replicate k .scheduled⟩
      reply → reply.isLast = true := by
  rintro reply ⟨other, hmem, f, hf, hbrings⟩
  simp only [List.mem_append, List.mem_cons] at hmem
  rcases hmem with (hmem | rfl | hmem) | hmem
  · exact h reply ⟨other, List.mem_append_left _ hmem, f, hf, hbrings⟩
  · exact hnew f reply hf hbrings
  · exact h reply
      ⟨other, List.mem_append_right _ (List.mem_cons_of_mem _ hmem), f, hf, hbrings⟩
  · rw [List.eq_of_mem_replicate hmem] at hf
    cases hf
    cases hbrings

theorem step (h : w.Empties setup queued n got)
    (hworld : Step setup schedule (Call.GoesOnAdvancing t) w w') :
    ∃ (n : Next t) (got : List t.Slot), w'.Empties setup queued n got := by
  obtain ⟨⟨c, calls, tasks⟩, answers, stop, results⟩ := w
  obtain ⟨rfl, rfl, hfinished, hbrings, hanswers, hempties⟩ := h
  cases turns_of_step hworld with
  | @call turn hstep =>
    have hends := (Call.steps_of_step hstep).finished_eq
    obtain ⟨inner, hinner, rfl⟩ := Option.map_eq_some_iff.mp hstep
    have hnone : (Call.next n).fetch? = none := hempties.fetch?_eq_none
    rw [hnone] at hends
    refine ⟨inner.next, got, rfl, rfl, hends.trans hfinished, ?_, hanswers,
      hempties.turn hfinished hinner⟩
    rintro reply ⟨task, hmem, f, hf, hreply⟩
    rcases List.mem_append.mp hmem with hmem | hmem
    · exact hbrings reply ⟨task, hmem, f, hf, hreply⟩
    · rw [List.eq_of_mem_replicate hmem] at hf
      cases hf
      cases hreply
  | @task before later task turn hadmits htasks hstep =>
    cases htasks
    have hsteps := Task.steps_of_step hstep
    obtain ⟨hrows, texts, hbatches⟩ := hsteps.adds
    have hends : turn.cursor.finished = true := by
      rw [hsteps.finished_eq]
      cases hfetch : task.fetch? with
      | none => exact hfinished
      | some f =>
        cases haccepts : f.accepts? c with
        | none => rw [Option.bind_some, haccepts]; exact hfinished
        | some reply =>
          rw [Option.bind_some, haccepts]
          refine hbrings reply ⟨task, List.mem_append_cons_self, f, hfetch, ?_⟩
          unfold Fetch.accepts? at haccepts
          split at haccepts
          · cases haccepts
          · exact haccepts
    refine ⟨n, got, ?_, rfl, hends, ?_, hanswers, hempties.adds hrows hsteps.closed_eq hbatches⟩
    · simp only [System.after, List.map_singleton, Call.wake, hempties.wake, ite_self]
    · refine brings_of_task hbrings (fun f reply hf hreply => ?_) _ _
      rw [hsteps.brings?_eq_none hf] at hreply
      cases hreply
  | answerCall hawaits =>
    have hnone : (Call.next n).awaits? = none := hempties.awaits?
    rw [hnone] at hawaits
    cases hawaits
  | @answerTask before later task kind a rest htasks hawaits hrest =>
    cases htasks
    cases hrest
    refine ⟨n, got, rfl, rfl, hfinished, ?_, fun reply hreply =>
      hanswers reply (List.mem_cons_of_mem _ hreply), hempties⟩
    have hanswer : ∀ f reply, (task.answer a).fetch? = some f → f.brings? = some reply →
        reply.isLast = true := by
      intro f reply hf hreply
      rw [Task.brings?_answer hawaits hf hreply] at hanswers
      exact hanswers reply List.mem_cons_self
    have hnew : ∀ reply, System.Brings ⟨c, [.next n],
        before ++ task.answer a :: later ++ List.replicate 0 .scheduled⟩ reply →
          reply.isLast = true := brings_of_task hbrings hanswer 0 [.next n]
    rw [List.replicate_zero, List.append_nil] at hnew
    exact hnew
  | stopped hawaits =>
    have hnone : (Call.next n).awaits? = none := hempties.awaits?
    rw [hnone] at hawaits
    cases hawaits
  | again hdone hhabit =>
    cases hhabit with
    | again slot slot' =>
      refine ⟨.start slot', got ++ [slot], rfl, ?_, hfinished, hbrings, hanswers,
        hempties.again slot'⟩
      rw [List.map_append]
      rfl

theorem goesOn (h : w.Empties setup queued n got) :
    w.Over (Call.GoesOnAdvancing t) ∨
      ∃ later, Step setup schedule (Call.GoesOnAdvancing t) w later := by
  obtain ⟨⟨c, calls, tasks⟩, answers, stop, results⟩ := w
  obtain ⟨rfl, rfl, hfinished, hbrings, hanswers, hempties⟩ := h
  cases hstep : n.step setup c with
  | some turn => exact .inr (goesOn_call (Option.map_eq_some_iff.mpr ⟨turn, hstep, rfl⟩))
  | none =>
    obtain ⟨more, hdone⟩ := hempties.goesOn hstep
    obtain ⟨slot, phase⟩ := n
    cases hdone
    cases more with
    | true => exact .inr ⟨_, .again rfl rfl (.again slot slot)⟩
    | false => exact .inl ⟨_, rfl, rfl, nofun⟩

end World.Empties

/-- Advancing on an open cursor that has finished hands out what is queued, whatever the schedule,
as long as replies that are still on their way end the stream as well. -/
theorem queued_returns {setup : Setup} {t : Target} (schedule : Schedule) {s : System}
    (hfinished : s.cursor.finished = true) (hopen : s.cursor.closed = false)
    {answers : List Answer}
    (hlast : ∀ reply, s.Brings reply ∨ .reply reply ∈ answers → reply.isLast = true)
    (slot : t.Slot) (stop : Answer) :
    World.Returns setup schedule (Call.GoesOnAdvancing t)
      (World.alone s (Operation.next slot).begin answers stop) fun w =>
        ∃ (got : List t.Slot) (last : t.Slot),
          w.results = got.map (fun value => .next (t := t) ⟨value, .done true⟩) ∧
          w.system.calls = [.next (t := t) ⟨last, .done false⟩] ∧
          t.values (s.cursor.rows.toList.map .ok ++
            setup.entriesOfAll s.cursor.batches.toList) <+: got := by
  let queued : List Entry := s.cursor.rows.toList.map .ok ++
    setup.entriesOfAll s.cursor.batches.toList
  apply World.returns_of_invariant
    (fun w => ∃ (n : Next t) (got : List t.Slot), w.Empties setup queued n got)
    (World.effort setup)
  · refine ⟨.start slot, [], rfl, rfl, hfinished, fun reply hreply => hlast reply (.inl hreply),
      fun reply hreply => hlast reply (.inr hreply), ?_⟩
    have hahead : ([] : List Datum).map .ok ++ (([] : List Datum).map .ok ++
        (Next.start slot).ahead setup s.cursor s.cursor.batches.toList) = queued ++ [] := by
      show (s.cursor.rows.toList ++ []).map .ok ++ _ = queued ++ []
      rw [List.append_nil, List.append_nil]
    exact .browsing trivial hopen rfl rfl hahead
  · rintro w w' ⟨n, got, hw⟩ hstep
    exact hw.step hstep
  · rintro w w' ⟨n, got, hw⟩ hstep
    exact World.effort_lt_of_step hw.calls (fun _ _ c hhabit => hhabit.effort_lt c) hstep
  · rintro w ⟨n, got, hw⟩
    exact hw.goesOn
  · rintro w ⟨n, got, hw⟩ ⟨call, hcalls, hdone, hover⟩
    have hcall : call = .next n := List.singleton_inj.mp (hcalls.symm.trans hw.calls)
    rw [hcall] at hdone hover
    obtain ⟨last, phase⟩ := n
    cases phase with
    | done more =>
      cases more with
      | true => exact absurd (.again last last) (hover _)
      | false =>
        cases hw.empties with
        | browsing hbrowses => exact hbrowses.elim
        | leaving hleaves hgot => exact ⟨got, last, hw.results, hw.calls, hgot⟩
    | _ => cases hdone

/-! ## 5. The theorem -/

/-- After a reply that ends the stream has been accepted, a cursor has finished exactly if no later
reply was accepted or the last one ends the stream as well: every reply that is accepted overrules
those before it.  As long as none that was accepted says that there are more, the cursor has
finished in every later state, no query for more rows goes out apart from those that were about to,
no stop query has gone out, and advancing hands out what is queued. -/
theorem finished_unless_overruled {setup : Setup} {release : Bool} {before later : List Stage}
    {stage : Stage} {s₁ s : System} {ending : Reply}
    (hbefore : Run setup (.opened release) (before ++ [stage]) s₁)
    (haccepted : stage.accepted? = some ending) (hlast : ending.isLast = true)
    (hlater : Run setup s₁ later s) :
    (s.cursor.finished = true ↔
      ∀ reply, (accepted later).getLast? = some reply → reply.isLast = true) ∧
    ((∀ reply ∈ accepted later, reply.isLast = true) →
      (∀ stage ∈ later, stage.before.cursor.finished = true) ∧
      asked later + s.sending ≤ s₁.sending ∧
      stops (before ++ [stage] ++ later) = 0 ∧
      ∀ (t : Target) (schedule : Schedule) (answers : List Answer) (stop : Answer) (slot : t.Slot),
        s.calls = [] → s.cursor.closed = false →
        (∀ reply, s.Brings reply ∨ .reply reply ∈ answers → reply.isLast = true) →
        World.Returns setup schedule (Call.GoesOnAdvancing t)
          (World.alone s (Operation.next slot).begin answers stop) fun w =>
            ∃ (got : List t.Slot) (last : t.Slot),
              w.results = got.map (fun value => .next (t := t) ⟨value, .done true⟩) ∧
              w.system.calls = [.next (t := t) ⟨last, .done false⟩] ∧
              t.values (s.cursor.rows.toList.map .ok ++
                setup.entriesOfAll s.cursor.batches.toList) <+: got) := by
  have hends : s₁.cursor.finished = true := by
    have hfirst := hbefore.finished_eq
    rw [accepted_concat, haccepted, Option.toList, List.getLast?_concat] at hfirst
    exact hfirst.trans hlast
  constructor
  · rw [hlater.finished_eq, hends]
    cases (accepted later).getLast? with
    | none => exact ⟨fun _ _ hreply => (nomatch hreply), fun _ => rfl⟩
    | some last =>
      exact ⟨fun hfinished reply hreply => Option.some.inj hreply ▸ hfinished, fun h => h last rfl⟩
  · intro hreplies
    obtain ⟨hfinished, hstages⟩ := hlater.finished_of_accepted hends hreplies
    exact ⟨hstages, hlater.asked_of_finished hstages,
      (hbefore.append hlater).stops_of_finished hfinished,
      fun t schedule answers stop slot _ hopen hcoming =>
        queued_returns schedule hfinished hopen hcoming slot stop⟩

/-- Two replies that end the stream one after the other, and one that overrules the first. -/
theorem finished_unless_overruled_by_reply :
    (∃ before stage later s₁ s,
      Run (.ordinary 1 { prefetch := false }) (.opened true) (before ++ [stage]) s₁ ∧
      Run (.ordinary 1 { prefetch := false }) s₁ later s ∧
      asked later = 0 ∧ stops (before ++ [stage] ++ later) = 0 ∧
      World.Returns (.ordinary 1 { prefetch := false }) .anywhere (Call.GoesOnAdvancing .string)
        (World.alone s (Operation.next (t := .string) "").begin [] .breakdown) fun w =>
          ∃ (got : List String) (last : String),
            w.results = got.map (fun value => .next (t := .string) ⟨value, .done true⟩) ∧
            w.system.calls = [.next (t := .string) ⟨last, .done false⟩] ∧
            ["a", "b"] <+: got) ∧
    (∃ before stage later s₁ s,
      Run (.ordinary 1 { prefetch := false }) (.opened true) (before ++ [stage]) s₁ ∧
      Run (.ordinary 1 { prefetch := false }) s₁ later s ∧
      s₁.cursor.finished = true ∧ s.cursor.finished = false) := by
  -- The first reply is accepted in the second stage; then comes another one, of either kind.
  obtain ⟨first, stage, s₁, later, s, overruling, s₂, hfirst, haccepted, hsending, hlater, hreplies,
      hidle, hopen, htasks, hvalues, hoverruling, hoverruled⟩ :
      ∃ first stage s₁ later s overruling s₂,
        (System.opened true).stages? (.ordinary 1 { prefetch := false })
          [.begin (.extend ⟨.sequence, ["\"a\""], none⟩), .call 0] =
            some ([first] ++ [stage], s₁) ∧
        stage.accepted? = some ⟨.sequence, ["\"a\""], none⟩ ∧ s₁.sending = 0 ∧
        s₁.stages? (.ordinary 1 { prefetch := false })
          [.call 0, .collect 0, .begin (.extend ⟨.sequence, ["\"b\""], none⟩), .call 0, .call 0,
            .collect 0] = some (later, s) ∧
        (∀ reply ∈ accepted later, reply.isLast = true) ∧
        s.calls = [] ∧ s.cursor.closed = false ∧ s.tasks = [] ∧
        Target.string.values (s.cursor.rows.toList.map .ok ++
          Setup.entriesOfAll (.ordinary 1 { prefetch := false }) s.cursor.batches.toList) =
            ["a", "b"] ∧
        s₁.stages? (.ordinary 1 { prefetch := false })
          [.call 0, .collect 0, .begin (.extend ⟨.partialSequence, ["\"b\""], none⟩), .call 0] =
            some (overruling, s₂) ∧
        (accepted overruling).getLast? = some ⟨.partialSequence, ["\"b\""], none⟩ :=
    ⟨_, _, _, _, _, _, _, rfl, rfl, rfl, rfl, by decide +kernel, rfl, rfl, rfl, by cbv, rfl, rfl⟩
  have hbefore := Run.of_stages? hfirst
  obtain ⟨-, hlasting⟩ :=
    finished_unless_overruled hbefore haccepted rfl (Run.of_stages? hlater)
  obtain ⟨-, hasked, hstops, hreturns⟩ := hlasting hreplies
  constructor
  · refine ⟨_, _, _, _, _, hbefore, Run.of_stages? hlater, by omega, hstops, ?_⟩
    have hnone (reply : Reply) : s.Brings reply ∨ .reply reply ∈ ([] : List Answer) →
        reply.isLast = true := by
      rintro (⟨task, hmem, -⟩ | hmem)
      · rw [htasks] at hmem
        cases hmem
      · cases hmem
    have h := hreturns .string .anywhere [] .breakdown "" hidle hopen hnone
    rw [hvalues] at h
    exact h
  · refine ⟨_, _, _, _, _, hbefore, Run.of_stages? hoverruling, ?_, ?_⟩
    · exact (finished_unless_overruled hbefore haccepted rfl .nil).1.mpr fun _ hlast => by
        cases hlast
    · refine Bool.eq_false_iff.mpr fun hfinished => ?_
      have hiff := (finished_unless_overruled hbefore haccepted rfl (Run.of_stages? hoverruling)).1
      cases hiff.mp hfinished _ hoverruled

end RowStream
