import RowStream.Proofs.Activities

/-!
# The first error

Errors are recorded by fetches that take in what the connection gave back, by the tasks that notice
that their fetch was broken off, and by advances that fail.  The first of them stays the error of
the cursor, and from then on no fetch decides to ask for more.
-/

namespace RowStream

variable {setup : Setup} {c c' : Cursor} {s s' start : System} {stages : List Stage} {move : Move}
  {happenings : List Happening} {t : Target} {f : Fetch} {e : Error} {a : Activity}

/-! ## 1. What is recorded -/

/-- The error that a fetch records on a cursor in its next turn, or its task once the fetch was
broken off; a closed cursor takes no reply. -/
def Fetch.records? (setup : Setup) (c : Cursor) : Fetch → Option Error
  | fold (.ok reply) => if c.closed then none else reply.error?
  | fold (.error e) => some e
  | aborted => some (.connection (.fetchAborted setup.breakdown))
  | _ => none

/-- The error that an advance records in its next turn. -/
def Next.records? (n : Next t) : Option Error :=
  match n.phase with
  | .failed e => some e
  | _ => none

/-- The advance that takes a turn in a move, by itself or in an extraction. -/
def System.reading? (s : System) : Move → Option ((t : Target) × Next t)
  | .call place => s.calls[place]?.bind Call.reading?
  | _ => none

/-- The error that is recorded in a move. -/
def System.records? (setup : Setup) (s : System) (move : Move) : Option Error :=
  ((s.turning? move).bind (Fetch.records? setup s.cursor)).or
    ((s.reading? move).bind fun reading => reading.2.records?)

/-- The error that is recorded in a stage. -/
def Stage.records? (setup : Setup) (stage : Stage) : Option Error :=
  stage.before.records? setup stage.move

/-- The errors that are recorded in a run, one after another. -/
def recorded (setup : Setup) (stages : List Stage) : List Error :=
  stages.filterMap (Stage.records? setup)

theorem recorded_concat (setup : Setup) (stages : List Stage) (stage : Stage) :
    recorded setup (stages ++ [stage]) =
      recorded setup stages ++ (stage.records? setup).toList := by
  rw [recorded, List.filterMap_append]
  cases h : stage.records? setup <;> simp [recorded, h]

theorem Fetch.Steps.error?_eq_or {turn : Turn Fetch} (h : Steps setup c f turn) :
    turn.cursor.error? = c.error?.or (f.records? setup c) := by
  cases h with
  | adds reply =>
    rw [Cursor.error?_openGate, records?]
    cases hclosed : c.closed with
    | true =>
      rw [Cursor.accept_of_closed hclosed]
      exact Option.or_none.symm
    | false => exact Cursor.error?_accept hclosed
  | fails e => exact Cursor.error?_record
  | refused | passed | goesOn | turnsBack | asks | tells | looksAhead => exact Option.or_none.symm

theorem Next.Steps.error?_eq_or {n : Next t} {turn : Turn (Next t)} (h : Steps setup c n turn) :
    turn.cursor.error? = c.error?.or ((n.fetch?.bind (Fetch.records? setup c)).or n.records?) := by
  cases h with
  | @looks slot phase sight turn hsight hlooks =>
    rw [hlooks.unchanged.2.2.1, (sight?_unchanged hsight).2.2.1,
      (sight?_account (n := ⟨slot, phase⟩) hsight).2.2]
    cases phase with
    | failed e => cases hsight
    | _ => exact Option.or_none.symm
  | @fetches slot f turn hstep =>
    have hrecords : (⟨slot, .fetching f⟩ : Next t).records? = none := rfl
    rw [hrecords, Option.or_none]
    exact hstep.error?_eq_or
  | records slot e => exact Cursor.error?_record
  | closes slot hstep => cases hstep <;> exact Option.or_none.symm
  | enters | ends | sleeps => exact Option.or_none.symm

theorem Call.error?_eq_or {call : Call} {turn : Turn Call} (h : call.step setup c = some turn) :
    turn.cursor.error? = c.error?.or ((call.fetch?.bind (Fetch.records? setup c)).or
      (call.reading?.bind fun reading => reading.2.records?)) := by
  cases turns_of_step h with
  | reads hreading hfetch hstep hcursor =>
    rw [hcursor, hfetch, hreading]
    exact hstep.error?_eq_or
  | fetches hreading hfetch hstep hcursor =>
    rw [hcursor, hfetch, hreading, Option.bind_none, Option.or_none]
    exact hstep.error?_eq_or
  | others hreading hfetch herror =>
    rw [herror, hfetch, hreading]
    exact Option.or_none.symm

theorem Task.error?_eq_or {task : Task} {turn : Turn Task} (h : task.step setup c = some turn) :
    turn.cursor.error? = c.error?.or (task.fetch?.bind (Fetch.records? setup c)) := by
  cases steps_of_step h with
  | fetches hstep => exact hstep.error?_eq_or
  | notices => exact Cursor.error?_record
  | reports | tells => exact Option.or_none.symm

/-- A move keeps the error that there is, or else the error that it records is there afterwards. -/
theorem System.error?_eq_or (hmove : s.move? setup move = some (s', happenings)) :
    s'.cursor.error? = s.cursor.error?.or (s.records? setup move) := by
  cases move with
  | begin op =>
    cases hmove
    exact Option.or_none.symm
  | call place =>
    obtain ⟨before, call, later, turn, hcalls, rfl, hstep, rfl, rfl⟩ := move?_call hmove
    have hcall := getElem?_of_split hcalls
    rw [records?, turning?, reading?, hcall]
    exact Call.error?_eq_or hstep
  | answerCall place a =>
    obtain ⟨before, call, later, kind, -, -, -, -, rfl⟩ := move?_answerCall hmove
    exact Option.or_none.symm
  | collect place =>
    obtain ⟨before, call, later, -, -, -, -, rfl⟩ := move?_collect hmove
    exact Option.or_none.symm
  | task place =>
    obtain ⟨before, task, later, turn, htasks, rfl, hstep, rfl, rfl⟩ := move?_task hmove
    have htask := getElem?_of_split htasks
    show turn.cursor.error? = s.cursor.error?.or
      (((s.tasks[before.length]?.bind Task.fetch?).bind (Fetch.records? setup s.cursor)).or none)
    rw [htask, Option.or_none]
    exact Task.error?_eq_or hstep
  | answerTask place a =>
    obtain ⟨before, task, later, kind, -, -, -, -, rfl⟩ := move?_answerTask hmove
    exact Option.or_none.symm

theorem Run.error?_eq_head? (hrun : Run setup start stages s) :
    s.cursor.error? = start.cursor.error?.or (recorded setup stages).head? := by
  induction hrun with
  | nil => exact Option.or_none.symm
  | @snoc stages s s' move happenings _ hmove ih =>
    rw [recorded_concat, List.head?_append, ← Option.or_assoc, ← ih, System.error?_eq_or hmove]
    congr 1
    show _ = (s.records? setup move).toList.head?
    cases s.records? setup move <;> rfl

/-! ## 2. What it is recorded for -/

/-- An advance fails with an error in its next turn, in which it looks for a row: it reads a text
that is no batch, or takes a row that does not fit its destination, or finds the cursor closed
without a row and without having come to the end. -/
inductive Next.FailsWith (setup : Setup) (c : Cursor) (n : Next t) : Error → Prop
  | text {sight : Cursor} {text : String} {texts : List String} {e : Error}
    (hsight : n.phase.sight? c = some sight) (hrows : sight.rows.toList = [])
    (htexts : sight.batches.toList = text :: texts) (hread : setup.rows text = .error e) :
    FailsWith setup c n e
  | row {sight : Cursor} {row : Datum} {rows : List Datum} {e : DecodeError}
    (hsight : n.phase.sight? c = some sight) (hrows : sight.rows.toList = row :: rows)
    (hrow : (t.decode n.slot row).result = .error e) : FailsWith setup c n (.decode e)
  | closed {sight : Cursor} (hsight : n.phase.sight? c = some sight)
    (hrows : sight.rows.toList = []) (htexts : sight.batches.toList = [])
    (hfinished : c.finished = false) (hclosed : c.closed = true) : FailsWith setup c n .closed

/-- An advance fails with an error in a stage. -/
def Stage.FailsWith (setup : Setup) (stage : Stage) (e : Error) : Prop :=
  ∃ reading, stage.before.reading? stage.move = some reading ∧
    reading.2.FailsWith setup stage.before.cursor e

/-- What an error is recorded for in a stage after others: an error reply that an open cursor
accepts, a fetch that has failed or was broken off, or an advance that has failed. -/
inductive Stage.Cause (setup : Setup) (before : List Stage) (stage : Stage) : Error → Prop
  | reply {reply : Reply} {e : Error} (haccepted : stage.accepted? = some reply)
    (herror : reply.error? = some e) : Cause setup before stage e
  | failure {e : Error} (hturn : stage.before.turning? stage.move = some (.fold (.error e)))
    (hanswered : .answered .more (.failure e) ∈ happened before) : Cause setup before stage e
  | breakdown (hturn : stage.before.turning? stage.move = some .aborted)
    (hanswered : .answered .more .breakdown ∈ happened before) :
    Cause setup before stage (.connection (.fetchAborted setup.breakdown))
  | advance {reading : (t : Target) × Next t} {e : Error}
    (hreading : stage.before.reading? stage.move = some reading)
    (hrecords : reading.2.records? = some e) (hfailed : ∃ look ∈ before, look.FailsWith setup e) :
    Cause setup before stage e

theorem Next.Looks.failsWith {sight : Cursor} {slot : t.Slot} {phase : Phase}
    {turn : Turn (Next t)} (h : Looks setup sight slot turn) (hsight : phase.sight? c = some sight)
    (hfailed : turn.next.phase = .failed e) :
    c.error? = some e ∨ (⟨slot, phase⟩ : Next t).FailsWith setup c e := by
  have hsame := sight?_unchanged hsight
  cases h with
  | @row row rows hpop =>
    right
    unfold receive at hfailed
    split at hfailed
    next => cases hfailed
    next d left hdecode =>
      cases hfailed
      refine .row hsight (Queue.toList_of_pop?_eq_some hpop) ?_
      rw [hdecode]
      rfl
  | batch => cases hfailed
  | badBatch hempty hpop hread =>
    cases hfailed
    exact .inr (.text hsight hempty (Queue.toList_of_pop?_eq_some hpop) hread)
  | error _ _ herror =>
    cases hfailed
    exact .inl (hsame.2.2.1 ▸ herror)
  | finished => cases hfailed
  | closed hrows hbatches _ hfinished hclosed =>
    cases hfailed
    exact .inr (.closed hsight hrows hbatches (hsame.2.1 ▸ hfinished) (hsame.2.2.2 ▸ hclosed))
  | fetch => cases hfailed

-- An advance fails by looking, or with a fetch that has come to an error.
theorem Next.Steps.failsWith {n : Next t} {turn : Turn (Next t)} (h : Steps setup c n turn)
    (hfailed : turn.next.phase = .failed e) :
    c.error? = some e ∨ n.FailsWith setup c e ∨
      ∃ f inner, n.fetch? = some f ∧ Fetch.Steps setup c f inner ∧
        inner.next = .done (.error e) ∧ turn.cursor = inner.cursor := by
  cases h with
  | looks slot hsight hlooks => exact (hlooks.failsWith hsight hfailed).imp_right .inl
  | @fetches slot f inner hstep =>
    refine .inr (.inr ⟨f, inner, rfl, hstep, ?_, rfl⟩)
    cases hnext : inner.next with
    | done outcome =>
      simp only [Turn.map, hnext] at hfailed
      rcases outcome with e | _ | _ <;> cases hfailed
      rfl
    | _ =>
      simp only [Turn.map, hnext] at hfailed
      cases hfailed
  | @closes slot close inner hstep =>
    cases hnext : inner.next <;> simp only [Turn.map, hnext] at hfailed <;> cases hfailed
  | enters | ends | sleeps | records => cases hfailed

/-! ## 3. What is under way is explained by what has happened -/

/-- What a fetch has from the connection has come from there, and an error that it hands on has been
recorded. -/
def Fetch.Explained (past : List Happening) (c : Cursor) : Fetch → Prop
  | fold (.error e) => .answered .more (.failure e) ∈ past
  | aborted => .answered .more .breakdown ∈ past
  | wake (.error _) _ | ahead (.error _) | done (.error _) => c.error? ≠ none
  | _ => True

theorem Fetch.Explained.mono {past later : List Happening} (h : f.Explained past c)
    (herror : c.error? ≠ none → c'.error? ≠ none) : f.Explained (past ++ later) c' := by
  cases f with
  | fold outcome =>
    cases outcome with
    | error e => exact List.mem_append_left _ h
    | ok reply => trivial
  | aborted => exact List.mem_append_left _ h
  | wake outcome | ahead outcome | done outcome =>
    cases outcome with
    | error e => exact herror h
    | ok asked => trivial
  | claim | check | send | waiting => trivial

theorem Fetch.Steps.explained {turn : Turn Fetch} {past : List Happening}
    (h : Steps setup c f turn) (hexplained : f.Explained past c) :
    turn.next.Explained past turn.cursor := by
  cases h with
  | fails e =>
    show ((c.record e).openGate).error? ≠ none
    rw [Cursor.error?_openGate, Cursor.error?_record]
    cases c.error? <;> nofun
  | tells outcome low =>
    cases outcome with
    | error e => cases low <;> exact hexplained
    | ok asked => cases low <;> trivial
  | looksAhead outcome =>
    cases outcome with
    | error e => exact hexplained
    | ok asked => trivial
  | refused | passed | goesOn | turnsBack | asks | adds => trivial

theorem Fetch.Explained.answer {past : List Happening} (h : f.Explained past c)
    {kind : Query.Kind} (hawaits : f.awaits? = some kind) (answer : Answer) :
    (f.answer answer).Explained (past ++ [.answered kind answer]) c := by
  cases f with
  | waiting =>
    cases hawaits
    have hnow : Happening.answered .more answer ∈ past ++ [.answered .more answer] :=
      List.mem_append_right _ (List.mem_singleton.mpr rfl)
    cases answer with
    | reply => trivial
    | failure | breakdown => exact hnow
  | _ => cases hawaits

/-- The fetches under way are explained, and so are the advances that are about to record an
error. -/
structure System.Explained (setup : Setup) (stages : List Stage) (s : System) : Prop where
  calls : ∀ call ∈ s.calls, ∀ f, call.fetch? = some f → f.Explained (happened stages) s.cursor
  tasks : ∀ task ∈ s.tasks, ∀ f, task.fetch? = some f → f.Explained (happened stages) s.cursor
  failed : ∀ call ∈ s.calls, ∀ reading, call.reading? = some reading →
    ∀ e, reading.2.records? = some e →
      s.cursor.error? ≠ none ∨ ∃ stage ∈ stages, stage.FailsWith setup e

theorem System.error?_ne_none_of_move (hmove : s.move? setup move = some (s', happenings))
    (h : s.cursor.error? ≠ none) : s'.cursor.error? ≠ none := by
  obtain ⟨e, he⟩ := Option.ne_none_iff_exists'.mp h
  rw [error?_of_move hmove he]
  nofun

theorem Next.records?_eq_some_iff {n : Next t} : n.records? = some e ↔ n.phase = .failed e := by
  obtain ⟨slot, phase⟩ := n
  cases phase <;> simp [records?]

theorem FetchTurn.explained {f? f'? : Option Fetch} {events : List Event} {past : List Happening}
    (h : FetchTurn setup c f? f'? c' events)
    (hexplained : ∀ f, f? = some f → f.Explained past c) (hf : f'? = some f) :
    f.Explained past c' := by
  cases h with
  | apart hafter =>
    rcases hafter with rfl | rfl
    · cases hf
    · cases hf
      trivial
  | @fetches own turn f'? hstep hafter =>
    rcases hafter with rfl | ⟨rfl, -⟩
    · cases hf
      exact hstep.explained (hexplained own rfl)
    · cases hf
  | notices => cases hf

namespace System.Explained

theorem calls_of_move (h : s.Explained setup stages)
    (hmove : s.move? setup move = some (s', happenings)) {call : Call} (hmem : call ∈ s'.calls)
    (hf : call.fetch? = some f) :
    f.Explained (happened stages ++ happenings) s'.cursor := by
  have herror := error?_ne_none_of_move hmove
  cases stems_of_move hmove hmem with
  | same hsame => exact (h.calls call hsame f hf).mono herror
  | @woken call hwoken =>
    rw [call.fetch?_wake] at hf
    exact (h.calls call hwoken f hf).mono herror
  | @begun op hbegin =>
    rcases op.fetch?_begin_eq with hnone | ⟨reply, hextend⟩
    · rw [hnone] at hf
      cases hf
    · rw [hextend] at hf
      cases hf
      trivial
  | @turned place turning turn hturns hcall hstep hcursor =>
    have hexplained := (Call.steps_of_step hstep).fetchTurn.explained
      (h.calls turning (List.mem_of_getElem? hcall)) hf
    rw [← hcursor] at hexplained
    exact hexplained.mono id
  | @answered place answered kind a hanswers hcall hawaits hcursor hhappened =>
    rw [answered.fetch?_answer] at hf
    obtain ⟨own, hown, rfl⟩ := Option.map_eq_some_iff.mp hf
    rw [Call.awaits?_of_fetch? hown] at hawaits
    rw [hcursor, hhappened]
    exact (h.calls answered (List.mem_of_getElem? hcall) own hown).answer hawaits a

theorem tasks_of_move (h : s.Explained setup stages)
    (hmove : s.move? setup move = some (s', happenings)) {task : Task} (hmem : task ∈ s'.tasks)
    (hf : task.fetch? = some f) :
    f.Explained (happened stages ++ happenings) s'.cursor := by
  cases taskStems_of_move hmove hmem with
  | same hsame => exact (h.tasks task hsame f hf).mono (error?_ne_none_of_move hmove)
  | scheduled =>
    cases hf
    trivial
  | @turned place turning turn hturns htask hstep hcursor =>
    have hexplained := (Task.steps_of_step hstep).fetchTurn.explained
      (h.tasks turning (List.mem_of_getElem? htask)) hf
    rw [← hcursor] at hexplained
    exact hexplained.mono id
  | @answered place answered kind a hanswers htask hawaits hcursor hhappened =>
    rw [answered.fetch?_answer] at hf
    obtain ⟨own, hown, rfl⟩ := Option.map_eq_some_iff.mp hf
    rw [hcursor, hhappened]
    refine (h.tasks answered (List.mem_of_getElem? htask) own hown).answer ?_ a
    cases answered with
    | running running =>
      cases hown
      exact hawaits
    | failed | wake | done => cases hown

-- An advance is about to record an error because it has failed just now, or because an error has
-- been recorded already: it found one, or its fetch recorded its own.
theorem failed_of_move (h : s.Explained setup stages)
    (hmove : s.move? setup move = some (s', happenings)) {call : Call} (hmem : call ∈ s'.calls)
    {reading : (t : Target) × Next t} (hreading : call.reading? = some reading)
    (he : reading.2.records? = some e) :
    s'.cursor.error? ≠ none ∨
      ∃ stage ∈ stages ++ [⟨s, move, happenings⟩], stage.FailsWith setup e := by
  have herror := error?_ne_none_of_move hmove
  have hbefore {other : Call} (hother : other ∈ s.calls) {reading : (t : Target) × Next t}
      (hreading : other.reading? = some reading) (he : reading.2.records? = some e) :
      s'.cursor.error? ≠ none ∨
        ∃ stage ∈ stages ++ [⟨s, move, happenings⟩], stage.FailsWith setup e := by
    refine (h.failed other hother reading hreading e he).imp herror ?_
    rintro ⟨stage, hstage, hfails⟩
    exact ⟨stage, List.mem_append_left _ hstage, hfails⟩
  obtain ⟨t, n⟩ := reading
  have hphase : n.phase = .failed e := Next.records?_eq_some_iff.mp he
  cases stems_of_move hmove hmem with
  | same hsame => exact hbefore hsame hreading he
  | woken hwoken =>
    obtain ⟨⟨slot, phase⟩, hm, rfl⟩ := Call.reading?_wake hreading
    cases phase with
    | failed => exact hbefore hwoken hm he
    | _ => cases hphase
  | begun hbegin => cases (Call.reading?_begin hreading).symm.trans hphase
  | @turned place turning turn hturns hcall hstep hcursor =>
    cases Call.turns_of_step hstep with
    | fetches _ _ _ _ hnext => cases hnext.symm.trans hreading
    | others _ _ _ hnext => cases (hnext hreading).symm.trans hphase
    | @reads t' m inner hbefore hfetch hsteps hinner hnext =>
      rcases hnext hreading with hentered | hsame
      · cases hentered.symm.trans hphase
      cases hsame
      rcases hsteps.failsWith hphase with hfound | hfails | ⟨f, fetched, hf, hfetched, hdone, hc⟩
      · exact .inl (herror (by rw [hfound]; nofun))
      · refine .inr ⟨_, List.mem_append_right _ (List.mem_singleton.mpr rfl), ⟨t, m⟩, ?_, hfails⟩
        rw [hturns, reading?, hcall]
        exact hbefore
      · have hexplained := hfetched.explained
          (h.calls turning (List.mem_of_getElem? hcall) f (hfetch.trans hf))
        rw [hdone, ← hc, ← hinner, ← hcursor] at hexplained
        exact .inl hexplained
  | @answered place answered kind a hanswers hcall hawaits =>
    obtain ⟨⟨slot, phase⟩, hm, rfl⟩ := Call.reading?_answer hreading
    cases phase with
    | failed => exact hbefore (List.mem_of_getElem? hcall) hm he
    | _ => cases hphase

theorem step (h : s.Explained setup stages)
    (hmove : s.move? setup move = some (s', happenings)) :
    s'.Explained setup (stages ++ [⟨s, move, happenings⟩]) where
  calls call hmem f hf := by
    rw [happened_concat]
    exact h.calls_of_move hmove hmem hf
  tasks task hmem f hf := by
    rw [happened_concat]
    exact h.tasks_of_move hmove hmem hf
  failed _ hmem _ hreading _ he := h.failed_of_move hmove hmem hreading he

theorem turning (h : s.Explained setup stages) (hturn : s.turning? move = some f) :
    f.Explained (happened stages) s.cursor := by
  cases move with
  | call place =>
    obtain ⟨call, hcall, hf⟩ := Option.bind_eq_some_iff.mp hturn
    exact h.calls call (List.mem_of_getElem? hcall) f hf
  | task place =>
    obtain ⟨task, htask, hf⟩ := Option.bind_eq_some_iff.mp hturn
    exact h.tasks task (List.mem_of_getElem? htask) f hf
  | begin | answerCall | collect | answerTask => cases hturn

-- The first error has one of the causes.
theorem cause (h : s.Explained setup stages) (hnone : s.cursor.error? = none)
    (hrecords : s.records? setup move = some e) :
    (Stage.mk s move happenings).Cause setup stages e := by
  rcases Option.or_eq_some_iff.mp hrecords with hfetch | ⟨-, hreads⟩
  · obtain ⟨f, hturn, hf⟩ := Option.bind_eq_some_iff.mp hfetch
    have hexplained := h.turning hturn
    cases f with
    | fold outcome =>
      cases outcome with
      | ok reply =>
        simp only [Fetch.records?] at hf
        split at hf
        · cases hf
        next hopen =>
          refine .reply ?_ hf
          rw [Stage.accepted?, hturn]
          exact Fetch.accepts?_fold_of_open reply (Bool.eq_false_iff.mpr hopen)
      | error e =>
        cases hf
        exact .failure hturn hexplained
    | aborted =>
      cases hf
      exact .breakdown hturn hexplained
    | claim | check | send | waiting | wake | ahead | done => cases hf
  · obtain ⟨reading, hreading, he⟩ := Option.bind_eq_some_iff.mp hreads
    refine .advance hreading he ?_
    cases move with
    | call place =>
      obtain ⟨call, hcall, hown⟩ := Option.bind_eq_some_iff.mp hreading
      refine (h.failed call (List.mem_of_getElem? hcall) reading hown e he).resolve_left ?_
      exact fun hsome => hsome hnone
    | begin | answerCall | collect | task | answerTask => cases hreading

end System.Explained

theorem Run.explained {release : Bool} (hrun : Run setup (.opened release) stages s) :
    s.Explained setup stages := by
  induction hrun with
  | nil =>
    exact ⟨fun _ hmem => absurd hmem List.not_mem_nil, fun _ hmem => absurd hmem List.not_mem_nil,
      fun _ hmem => absurd hmem List.not_mem_nil⟩
  | snoc _ hmove ih => exact ih.step hmove

-- An error that is not there yet has never been there.
theorem Run.error?_eq_none (hrun : Run setup start stages s) (hnone : s.cursor.error? = none) :
    ∀ stage ∈ stages, stage.before.cursor.error? = none := by
  induction hrun with
  | nil => exact fun _ hmem => absurd hmem List.not_mem_nil
  | @snoc stages s s' move happenings _ hmove ih =>
    have hbefore : s.cursor.error? = none := by
      by_contra hsome
      exact System.error?_ne_none_of_move hmove hsome hnone
    simp only [List.mem_append, List.mem_singleton]
    rintro stage (hstage | rfl)
    · exact ih hbefore stage hstage
    · exact hbefore

-- An error that is there stays.
theorem Run.error?_ne_none (hrun : Run setup start stages s) (hsome : start.cursor.error? ≠ none) :
    s.cursor.error? ≠ none ∧ ∀ stage ∈ stages, stage.before.cursor.error? ≠ none := by
  induction hrun with
  | nil => exact ⟨hsome, fun _ hmem => absurd hmem List.not_mem_nil⟩
  | snoc _ hmove ih =>
    refine ⟨System.error?_ne_none_of_move hmove ih.1, ?_⟩
    simp only [List.mem_append, List.mem_singleton]
    rintro stage (hstage | rfl)
    · exact ih.2 stage hstage
    · exact ih.1

/-! ## 4. No more is asked for -/

namespace Activity

theorem Moves.asks (h : a.Moves setup s s' happenings) (hstuck : s.cursor.canContinue = false) :
    happenings.countP Happening.asks + a.weight .sending s' = a.weight .sending s := by
  cases h with
  | @turns place call turn hcall hstep hcursor hweight =>
    rw [hweight, weight_call hcall]
    exact (Call.steps_of_step hstep).fetchTurn.asks hstuck
  | @answered place call kind answer hcall hawaits hcursor hweight =>
    rw [hweight, weight_call hcall, Weight.sending_answer]
    exact Nat.zero_add _
  | @turnsTask place task turn htask hstep hcursor hweight =>
    rw [hweight, weight_task htask]
    exact (Task.steps_of_step hstep).fetchTurn.asks hstuck
  | @answeredTask place task kind answer htask hawaits hcursor hweight =>
    rw [hweight, weight_task htask, Weight.sending_answerTask]
    exact Nat.zero_add _

-- On a cursor that cannot continue an activity sends only what it was about to send.
theorem asked_of_stuck {later : List Stage} (hlater : Run setup s later s')
    (hstuck : ∀ stage ∈ later, stage.before.cursor.canContinue = false)
    (hnone : a.weight .sending s = 0) :
    asked (a.own later) = 0 ∧ ∀ b, a.afterAll later = some b → b.weight .sending s' = 0 := by
  induction hlater with
  | nil =>
    refine ⟨rfl, fun b hb => ?_⟩
    cases hb
    exact hnone
  | @snoc later s₁ s₂ move happenings _ hmove ih =>
    simp only [List.mem_append, List.mem_singleton] at hstuck
    obtain ⟨hasked, hbefore⟩ := ih fun stage hstage => hstuck stage (.inl hstage)
    cases hb : a.afterAll later with
    | none =>
      -- An operation that was taken back makes no move any more.
      rw [own_append, afterAll_append, hb]
      exact ⟨(asked_append _ []).trans hasked, nofun⟩
    | some b =>
      have hweight := hbefore b hb
      rw [own_concat hb, afterAll_concat hb, asked_append, hasked, Nat.zero_add]
      cases howns : b.owns move with
      | true =>
        have hasks := (moves_of_owns hmove howns).asks (hstuck _ (.inr rfl))
        rw [hweight] at hasks
        obtain ⟨hquiet, hafter⟩ := Nat.eq_zero_of_add_eq_zero hasks
        rw [if_pos rfl, after_of_owns howns]
        refine ⟨(asked_concat [] _).trans ((Nat.zero_add _).trans hquiet), fun b' hb' => ?_⟩
        cases hb'
        exact hafter
      | false =>
        exact ⟨rfl, fun b' hb' => (weight_of_not_owns hmove howns hb' _).trans hweight⟩

theorem sending_of_turning (hturn : s.turning? a.turn ≠ some .send) :
    a.weight .sending s = 0 := by
  have hnone {f? : Option Fetch} (h : f? ≠ some .send) : (f?.map Fetch.sending).getD 0 = 0 := by
    cases f? with
    | none => rfl
    | some f =>
      cases f with
      | send => exact absurd rfl h
      | _ => rfl
  by_contra hsome
  cases a with
  | call place =>
    obtain ⟨own, hcall, hweight⟩ := call_of_weight (Nat.pos_of_ne_zero hsome)
    rw [turn, System.turning?, hcall] at hturn
    exact absurd (hnone hturn) (Nat.pos_iff_ne_zero.mp hweight)
  | task place =>
    obtain ⟨own, htask, hweight⟩ := task_of_weight (Nat.pos_of_ne_zero hsome)
    rw [turn, System.turning?, htask] at hturn
    exact absurd (hnone hturn) (Nat.pos_iff_ne_zero.mp hweight)

end Activity

/-! ## 5. The theorem -/

theorem Run.first_cause {release : Bool} (hrun : Run setup (.opened release) stages s)
    (he : s.cursor.error? = some e) :
    ∃ before stage later, stages = before ++ stage :: later ∧
      (∀ earlier ∈ before ++ [stage], earlier.before.cursor.error? = none) ∧
      (∀ other ∈ later, other.before.cursor.error? = some e) ∧
      stage.records? setup = some e ∧ stage.Cause setup before e := by
  induction hrun with
  | nil => cases he
  | @snoc stages s s' move happenings hrun hmove ih =>
    cases hbefore : s.cursor.error? with
    | some e' =>
      -- The error was there before the last stage.
      have hsame : e' = e := Option.some.inj ((System.error?_of_move hmove hbefore).symm.trans he)
      rw [hsame] at hbefore
      obtain ⟨before, stage, later, rfl, hnone, hsome, hrecords, hcause⟩ := ih hbefore
      refine ⟨before, stage, later ++ [⟨s, move, happenings⟩], by simp, hnone, ?_, hrecords, hcause⟩
      simp only [List.mem_append, List.mem_singleton]
      rintro other (hother | rfl)
      · exact hsome other hother
      · exact hbefore
    | none =>
      -- It is recorded in the last stage.
      have hrecords : s.records? setup move = some e := by
        rw [System.error?_eq_or hmove, hbefore, Option.none_or] at he
        exact he
      refine ⟨stages, _, [], rfl, ?_, fun _ hmem => absurd hmem List.not_mem_nil, hrecords,
        hrun.explained.cause hbefore hrecords⟩
      simp only [List.mem_append, List.mem_singleton]
      rintro earlier (hearlier | rfl)
      · exact hrun.error?_eq_none hbefore earlier hearlier
      · exact hbefore

/-- On every run the error of the cursor is the first that is recorded.  Up to the stage that
records it there is none, from then on it is the same, and it is recorded for an error reply that
the open cursor accepts, a fetch that failed or was broken off, or an advance that failed to read, to
decode or to find the cursor open.  Once there is an error, no activity asks for more that was not
about to send its query then: no fetch does that has yet to pass the gate. -/
theorem first_error_final {setup : Setup} {release : Bool} {stages : List Stage} {s : System}
    (hrun : Run setup (.opened release) stages s) :
    s.cursor.error? = (recorded setup stages).head? ∧
    (∀ e, s.cursor.error? = some e →
      ∃ before stage later, stages = before ++ stage :: later ∧
        (∀ earlier ∈ before ++ [stage], earlier.before.cursor.error? = none) ∧
        (∀ other ∈ later, other.before.cursor.error? = some e) ∧
        stage.records? setup = some e ∧ stage.Cause setup before e) ∧
    (s.cursor.error? ≠ none → ∀ a : Activity, s.turning? a.turn ≠ some .send →
      ∀ {later : List Stage} {s' : System}, Run setup s later s' → asked (a.own later) = 0) := by
  refine ⟨hrun.error?_eq_head?.trans (Option.none_or ..), fun e he => hrun.first_cause he,
    fun herror a hturn later s' hlater => ?_⟩
  have hstuck (stage : Stage) (hstage : stage ∈ later) :
      stage.before.cursor.canContinue = false :=
    Cursor.canContinue_of_error ((hlater.error?_ne_none herror).2 stage hstage)
  exact (Activity.asked_of_stuck hlater hstuck (Activity.sending_of_turning hturn)).1

/-- A query fails while a fetch in the background has yet to pass the gate.  The error is recorded
by the fetch and again by its advance, and the fetch in the background passes the gate and turns
back. -/
theorem first_error_final_turns_back :
    ∃ stages s later s', Run (.ordinary 1 {}) (.opened true) stages s ∧
      Run (.ordinary 1 {}) s later s' ∧
      s.turning? (Activity.task 0).turn = some .claim ∧ s.cursor.fetching = false ∧
      s.cursor.error? = some (.connection (.reported "reset")) ∧
      ((Activity.task 0).own later).length = 3 ∧ asked ((Activity.task 0).own later) = 0 ∧
      recorded (.ordinary 1 {}) (stages ++ later) =
        [.connection (.reported "reset"), .connection (.reported "reset")] ∧
      s'.cursor.error? = (recorded (.ordinary 1 {}) (stages ++ later)).head? := by
  obtain ⟨stages, s, later, s', hstages, hlater, hturn, hgate, herror, hmoves, hrecorded⟩ :
      ∃ stages s later s',
        (System.opened true).stages? (.ordinary 1 {})
          [.begin (.extend ⟨.partialSequence, ["1"], none⟩), .call 0, .call 0, .call 0, .collect 0,
            .begin (.next (t := .string) ""), .call 0, .call 0,
            .begin (.next (t := .string) ""), .call 0, .call 0, .call 0, .call 0, .call 0,
            .answerCall 0 (.failure (.connection (.reported "reset"))), .call 0] =
          some (stages, s) ∧
        s.stages? (.ordinary 1 {}) [.task 0, .task 0, .task 0, .call 0, .call 0] =
          some (later, s') ∧
        s.turning? (Activity.task 0).turn = some .claim ∧ s.cursor.fetching = false ∧
        s.cursor.error? = some (.connection (.reported "reset")) ∧
        ((Activity.task 0).own later).length = 3 ∧
        recorded (.ordinary 1 {}) (stages ++ later) =
          [.connection (.reported "reset"), .connection (.reported "reset")] :=
    ⟨_, _, _, _, rfl, rfl, rfl, rfl, rfl, rfl, rfl⟩
  have hrun := Run.of_stages? hstages
  have hnext := Run.of_stages? hlater
  have hquiet := (first_error_final hrun).2.2 (by rw [herror]; nofun) (.task 0)
    (by rw [hturn]; nofun) hnext
  exact ⟨stages, s, later, s', hrun, hnext, hturn, hgate, herror, hmoves, hquiet, hrecorded,
    (first_error_final (hrun.append hnext)).1⟩

end RowStream
