import RowStream.Proofs.Closed
import RowStream.Proofs.Conservation
import RowStream.Proofs.Sticky

/-!
# Closing a cursor

A cursor is closed once, by whoever comes first.  A stop query goes out if the stream has not
finished at that moment, the connection is given back with what became of it, and whoever has closed
the cursor on purpose is told the same.  Nothing that is asked of the cursor later changes it.
-/

namespace RowStream

variable {setup : Setup} {c : Cursor} {s s' : System} {stages : List Stage} {move : Move}
  {happenings : List Happening} {t : Target}

/-! ## 1. Turns of a closing -/

/-- A closing that has marked the cursor and has not come to its end. -/
def Close.pending? : Close → Option Close
  | mark | done _ | aborted => none
  | x => some x

/-- The closing that an advance has under way. -/
def Next.pending? (n : Next t) : Option Close :=
  match n.phase with
  | .closing x => x.pending?
  | _ => none

/-- The closing that an operation has under way. -/
def Call.pending? : Call → Option Close
  | next n => n.pending?
  | one (.advancing n) => n.pending?
  | one (.closing _ _ x) => x.pending?
  | all (.advancing _ _ n) => n.pending?
  | all (.closing _ _ x) => x.pending?
  | item (.advancing n) => n.pending?
  | close x => x.pending?
  | _ => none

/-- What a turn has to do with closing the cursor, given the closing that an activity has under
way. -/
inductive Turn.Closing {σ : Type} (pending? : σ → Option Close) (c : Cursor) (x : σ)
    (turn : Turn σ) : Prop
  | apart (hbefore : pending? x = none) (hafter : pending? turn.next = none)
    (hclosed : turn.cursor.closed = c.closed) (hrelease : turn.cursor.release = c.release)
    (hevents : ∀ event ∈ turn.events, (Happening.event event).ofClosing = false)
  | marks (hbefore : pending? x = none)
    (hafter : pending? turn.next = some (.wake c.finished c.release)) (hopen : c.closed = false)
    (hcursor : turn.cursor = { c with closed := true, release := false })
    (hevents : turn.events = [])
  | proceeds {close : Close} {inner : Turn Close} (hbefore : pending? x = some close)
    (hstep : Close.Steps c close inner) (hafter : pending? turn.next = inner.next.pending?)
    (hcursor : turn.cursor = c) (hevents : turn.events = inner.events)

-- A turn of an activity inside another one.
theorem Turn.Closing.map {σ τ : Type} {inner : σ → Option Close} {outer : τ → Option Close}
    {f : σ → τ} {x : σ} {y : τ} {turn : Turn σ} (h : turn.Closing inner c x)
    (hy : outer y = inner x) (hf : ∀ x, outer (f x) = inner x) :
    (turn.map f).Closing outer c y := by
  cases h with
  | apart hbefore hafter hclosed hrelease hevents =>
    exact .apart (hy.trans hbefore) ((hf _).trans hafter) hclosed hrelease hevents
  | marks hbefore hafter hopen hcursor hevents =>
    exact .marks (hy.trans hbefore) ((hf _).trans hafter) hopen hcursor hevents
  | proceeds hbefore hstep hafter hcursor hevents =>
    exact .proceeds (hy.trans hbefore) hstep ((hf _).trans hafter) hcursor hevents

theorem Close.Steps.closing {x : Close} {turn : Turn Close} (h : Steps c x turn) :
    turn.Closing pending? c x := by
  cases h with
  | again hclosed => exact .apart rfl rfl rfl rfl fun _ hevent => absurd hevent List.not_mem_nil
  | marks hopen => exact .marks rfl rfl hopen rfl rfl
  | tells finished r => exact .proceeds rfl (.tells finished r) rfl rfl rfl
  | stops r => exact .proceeds rfl (.stops r) rfl rfl rfl
  | releases r stopError line => exact .proceeds rfl (.releases r stopError line) rfl rfl rfl

theorem Fetch.Steps.ofClosing {f : Fetch} {turn : Turn Fetch} (h : Steps setup c f turn) :
    turn.cursor.release = c.release ∧
      ∀ event ∈ turn.events, (Happening.event event).ofClosing = false := by
  have hevents := (Task.Steps.fetches h).ofClosing
  refine ⟨?_, hevents⟩
  cases h with
  | adds reply =>
    show (c.accept reply).release = c.release
    unfold Cursor.accept
    split
    · rfl
    · split <;> rfl
  | _ => rfl

theorem Next.Looks.closing {slot : t.Slot} {turn : Turn (Next t)} (h : Looks setup c slot turn) :
    turn.next.pending? = none ∧ turn.cursor.release = c.release ∧
      ∀ event ∈ turn.events, (Happening.event event).ofClosing = false := by
  cases h with
  | row hpop =>
    refine ⟨?_, rfl, fun event hevent => ?_⟩
    · unfold receive
      split <;> rfl
    · have hscheduled : event = .scheduled := by
        unfold Cursor.schedule at hevent
        split at hevent
        · split at hevent
          · exact List.mem_singleton.mp hevent
          · cases hevent
        · cases hevent
      rw [hscheduled]
      rfl
  | _ => exact ⟨rfl, rfl, fun _ hevent => absurd hevent List.not_mem_nil⟩

theorem Next.release_of_sight? {sight : Cursor} {phase : Phase}
    (h : phase.sight? c = some sight) : sight.release = c.release := by
  cases phase with
  | look | refill => cases h; rfl
  | recheck =>
    simp only [Phase.sight?] at h
    split at h <;> cases h
    rfl
  | _ => cases h

theorem Next.Steps.closing {n : Next t} {turn : Turn (Next t)} (h : Steps setup c n turn) :
    turn.Closing pending? c n := by
  cases h with
  | enters | ends | sleeps =>
    exact .apart rfl rfl rfl rfl fun _ hevent => absurd hevent List.not_mem_nil
  | @looks slot phase sight turn hsight hlooks =>
    have hnone : (⟨slot, phase⟩ : Next t).pending? = none := by
      cases phase with
      | closing => cases hsight
      | _ => rfl
    obtain ⟨hafter, hrelease, hevents⟩ := hlooks.closing
    exact .apart hnone hafter (hlooks.unchanged.2.2.2.trans (sight?_unchanged hsight).2.2.2)
      (hrelease.trans (release_of_sight? hsight)) hevents
  | @fetches slot f turn hstep =>
    have hafter : (⟨slot, .ofFetch turn.next⟩ : Next t).pending? = none := by
      rcases phase_ofFetch turn.next with hf | hf | hf | ⟨e, hf⟩ <;> rw [hf] <;> rfl
    exact .apart rfl hafter hstep.closed_eq hstep.ofClosing.1 hstep.ofClosing.2
  | records slot e =>
    refine .apart rfl rfl rfl rfl fun event hevent => ?_
    rw [List.mem_singleton.mp hevent]
    rfl
  | closes slot hstep => exact hstep.closing.map rfl fun x => by cases x <;> rfl

theorem One.pending?_ofNext (n : Next t) : (Call.one (ofNext n)).pending? = n.pending? := by
  obtain ⟨slot, phase⟩ := n
  cases phase <;> rfl

theorem All.pending?_ofNext (got spare : List t.Slot) (n : Next t) :
    (Call.all (ofNext got spare n)).pending? = n.pending? := by
  obtain ⟨slot, phase⟩ := n
  cases phase with
  | done more =>
    cases more with
    | true => cases spare <;> rfl
    | false => rfl
  | _ => rfl

theorem NextItem.pending?_ofNext (n : Next t) : (Call.item (ofNext n)).pending? = n.pending? := by
  obtain ⟨slot, phase⟩ := n
  cases phase with
  | done more => cases more <;> rfl
  | _ => rfl

theorem Call.closing_of_step {call : Call} {turn : Turn Call}
    (h : call.step setup c = some turn) : turn.Closing Call.pending? c call := by
  cases call with
  | next n =>
    obtain ⟨inner, hn, rfl⟩ := Option.map_eq_some_iff.mp h
    exact (Next.steps_of_step hn).closing.map rfl fun _ => rfl
  | one o =>
    obtain ⟨middle, ho, rfl⟩ := Option.map_eq_some_iff.mp h
    cases o with
    | look slot =>
      cases ho
      refine .apart rfl ?_ rfl rfl fun _ hevent => absurd hevent List.not_mem_nil
      show (Call.one (if c.isNil then _ else _)).pending? = none
      split <;> rfl
    | judge slot more =>
      cases ho
      exact .apart rfl rfl rfl rfl fun _ hevent => absurd hevent List.not_mem_nil
    | advancing n =>
      obtain ⟨inner, hn, rfl⟩ := Option.map_eq_some_iff.mp ho
      exact (Next.steps_of_step hn).closing.map (f := fun n => Call.one (.ofNext n)) rfl
        One.pending?_ofNext
    | closing slot verdict x =>
      obtain ⟨inner, hx, rfl⟩ := Option.map_eq_some_iff.mp ho
      exact (Close.steps_of_step hx).closing.map (f := fun x => Call.one (.ofClose slot verdict x))
        rfl fun x => by cases x <;> rfl
    | done => cases ho
  | all a =>
    obtain ⟨middle, ha, rfl⟩ := Option.map_eq_some_iff.mp h
    cases a with
    | judge got =>
      cases ha
      exact .apart rfl rfl rfl rfl fun _ hevent => absurd hevent List.not_mem_nil
    | advancing got spare n =>
      obtain ⟨inner, hn, rfl⟩ := Option.map_eq_some_iff.mp ha
      exact (Next.steps_of_step hn).closing.map (f := fun n => Call.all (.ofNext got spare n)) rfl
        (All.pending?_ofNext got spare)
    | closing got verdict x =>
      obtain ⟨inner, hx, rfl⟩ := Option.map_eq_some_iff.mp ha
      exact (Close.steps_of_step hx).closing.map (f := fun x => Call.all (.ofClose got verdict x))
        rfl fun x => by cases x <;> rfl
    | done => cases ha
  | item i =>
    obtain ⟨middle, hi, rfl⟩ := Option.map_eq_some_iff.mp h
    cases i with
    | judge =>
      cases hi
      exact .apart rfl rfl rfl rfl fun _ hevent => absurd hevent List.not_mem_nil
    | advancing n =>
      obtain ⟨inner, hn, rfl⟩ := Option.map_eq_some_iff.mp hi
      exact (Next.steps_of_step hn).closing.map (f := fun n => Call.item (.ofNext n)) rfl
        NextItem.pending?_ofNext
    | done => cases hi
  | close x =>
    obtain ⟨inner, hx, rfl⟩ := Option.map_eq_some_iff.mp h
    exact (Close.steps_of_step hx).closing.map rfl fun _ => rfl
  | extend f =>
    obtain ⟨inner, hf, rfl⟩ := Option.map_eq_some_iff.mp h
    have hsteps := Fetch.steps_of_step hf
    exact .apart rfl rfl hsteps.closed_eq hsteps.ofClosing.1 hsteps.ofClosing.2

/-! ## 2. Moves -/

theorem Call.pending?_wake (call : Call) : call.wake.pending? = call.pending? := by
  have hnext {t : Target} (n : Next t) : n.wake.pending? = n.pending? := by
    obtain ⟨slot, phase⟩ := n
    cases phase <;> rfl
  cases call with
  | next n => exact hnext n
  | one o => cases o <;> first | exact hnext _ | rfl
  | all a => cases a <;> first | exact hnext _ | rfl
  | item i => cases i <;> first | exact hnext _ | rfl
  | close | extend => rfl

theorem Operation.pending?_begin (op : Operation) : op.begin.pending? = none := by
  cases op with
  | all initial => cases initial <;> rfl
  | item t ended => cases ended <;> rfl
  | _ => rfl

theorem Call.pending?_of_ended {call : Call} (h : (call.isDone || call.isAborted) = true) :
    call.pending? = none := by
  have hclose {x : Close} (h : x.isAborted = true) : x.pending? = none := by
    cases x <;> first | rfl | cases h
  have hnext {t : Target} {n : Next t} (h : n.isAborted = true) : n.pending? = none := by
    obtain ⟨slot, phase⟩ := n
    cases phase with
    | closing x => exact hclose h
    | _ => rfl
  cases call with
  | next n =>
    obtain ⟨slot, phase⟩ := n
    cases phase with
    | closing x => exact hclose h
    | _ => rfl
  | one o => cases o <;> first | exact hnext h | exact hclose h | rfl
  | all a => cases a <;> first | exact hnext h | exact hclose h | rfl
  | item i => cases i <;> first | exact hnext h | rfl
  | close x => cases x <;> first | rfl | cases h
  | extend f => rfl

/-- What an answer makes of the closing that an operation has under way. -/
theorem Call.pending?_answer {call : Call} {kind : Query.Kind} (a : Answer)
    (h : call.awaits? = some kind) :
    (kind = .more ∧ call.pending? = none ∧ (call.answer a).pending? = none) ∨
      ∃ r, kind = .stop ∧ call.pending? = some (.waiting r) ∧
        (call.answer a).pending? = ((Close.waiting r).answer a).pending? := by
  have hclose {x : Close} (h : x.awaits? = some kind) :
      ∃ r, kind = .stop ∧ x.pending? = some (.waiting r) ∧
        (x.answer a).pending? = ((Close.waiting r).answer a).pending? := by
    cases x with
    | waiting r => cases h; exact ⟨r, rfl, rfl, rfl⟩
    | _ => cases h
  have hnext {t : Target} {n : Next t} (h : n.awaits? = some kind) :
      (kind = .more ∧ n.pending? = none ∧ (n.answer a).pending? = none) ∨
        ∃ r, kind = .stop ∧ n.pending? = some (.waiting r) ∧
          (n.answer a).pending? = ((Close.waiting r).answer a).pending? := by
    obtain ⟨slot, phase⟩ := n
    cases phase with
    | fetching f => cases f <;> cases h; exact .inl ⟨rfl, rfl, rfl⟩
    | closing x => exact .inr (hclose h)
    | _ => cases h
  cases call with
  | next n => exact hnext h
  | one o => cases o <;> first | exact hnext h | exact .inr (hclose h) | cases h
  | all x => cases x <;> first | exact hnext h | exact .inr (hclose h) | cases h
  | item i => cases i <;> first | exact hnext h | cases h
  | close x => exact .inr (hclose h)
  | extend f => cases f <;> cases h; exact .inl ⟨rfl, rfl, rfl⟩

/-- The closings under way. -/
def System.pending (s : System) : List Close := s.calls.filterMap Call.pending?

theorem System.pending_after (c : Cursor) (calls : List Call) (tasks : List Task)
    (events : List Event) :
    (after c calls tasks events).pending = calls.filterMap Call.pending? := by
  unfold after pending
  split
  · rw [List.filterMap_map]
    exact List.filterMap_congr fun call _ => call.pending?_wake
  · rfl

theorem System.pending_split {before later : List Call} {call : Call}
    (h : s.calls = before ++ call :: later) :
    s.pending = before.filterMap Call.pending? ++ call.pending?.toList ++
      later.filterMap Call.pending? := by
  rw [pending, h, List.filterMap_append, List.filterMap_cons]
  cases call.pending? <;> simp

theorem System.close_mem_after {c : Cursor} {calls : List Call} {tasks : List Task}
    {events : List Event} {x : Close} :
    .close x ∈ (after c calls tasks events).calls ↔ .close x ∈ calls := by
  unfold after
  split
  · rw [List.mem_map]
    constructor
    · rintro ⟨call, hmem, hcall⟩
      cases call <;> cases hcall
      exact hmem
    · exact fun hmem => ⟨_, hmem, rfl⟩
  · rfl

/-- What a move has to do with closing the cursor. -/
inductive System.ClosingMoves (s : System) (move : Move) (s' : System)
    (happenings : List Happening) : Prop
  | apart (hclosed : s'.cursor.closed = s.cursor.closed)
    (hrelease : s'.cursor.release = s.cursor.release) (hpending : s'.pending = s.pending)
    (hhappenings : ∀ h ∈ happenings, h.ofClosing = false)
    (hkept : ∀ x, .close x ∈ s.calls →
      x = .mark ∨ .close x ∈ s'.calls ∨ .collected (.close x) ∈ happenings)
    (hnew : ∀ x, .close x ∈ s'.calls → x = .mark ∨ s.cursor.closed = true ∨ .close x ∈ s.calls)
    (htaken : ∀ x, .collected (.close x) ∈ happenings →
      .close x ∈ s.calls ∧ x ≠ .mark ∧ x.pending? = none)
  | marks {before later : List Close} {place : Nat} (hmove : move = .call place)
    (hpending : s.pending = before ++ later)
    (hpending' : s'.pending = before ++ .wake s.cursor.finished s.cursor.release :: later)
    (hopen : s.cursor.closed = false) (hclosed : s'.cursor.closed = true)
    (hhappenings : happenings = [])
    (hexplicit : s.calls[place]? = some (.close .mark) →
      .close (.wake s.cursor.finished s.cursor.release) ∈ s'.calls)
  | proceeds {before later : List Close} {x : Close} {turn : Turn Close}
    (hpending : s.pending = before ++ x :: later) (hstep : Close.Steps s.cursor x turn)
    (hpending' : s'.pending = before ++ turn.next.pending?.toList ++ later)
    (hcursor : s'.cursor = s.cursor) (hhappenings : happenings = turn.events.map .event)
    (hexplicit : s.pending = [x] → .close x ∈ s.calls → .close turn.next ∈ s'.calls)
  | answers {before later : List Close} {r : Bool} {a : Answer}
    (hpending : s.pending = before ++ .waiting r :: later)
    (hpending' : s'.pending = before ++ ((Close.waiting r).answer a).pending?.toList ++ later)
    (hcursor : s'.cursor = s.cursor) (hhappenings : happenings = [.answered .stop a])
    (hexplicit : s.pending = [.waiting r] → .close (.waiting r) ∈ s.calls →
      .close ((Close.waiting r).answer a) ∈ s'.calls)

theorem Close.eq_of_pending? {x y : Close} (h : x.pending? = some y) : x = y := by
  cases x <;> cases h <;> rfl

theorem Close.pending?_pending {call : Call} {x : Close} (h : call.pending? = some x) :
    x.pending? = some x := by
  have hself {y : Close} (h : y.pending? = some x) : x.pending? = some x := eq_of_pending? h ▸ h
  have hnext {t : Target} {n : Next t} (h : n.pending? = some x) : x.pending? = some x := by
    obtain ⟨slot, phase⟩ := n
    cases phase with
    | closing y => exact hself h
    | _ => cases h
  cases call with
  | next n => exact hnext h
  | one o => cases o <;> first | exact hnext h | exact hself h | cases h
  | all a => cases a <;> first | exact hnext h | exact hself h | cases h
  | item i => cases i <;> first | exact hnext h | cases h
  | close y => exact hself h
  | extend f => cases h

-- What comes next in a closing is settled by where it is.
theorem Close.Steps.next_eq {x : Close} {turn turn' : Turn Close} (h : Steps c x turn)
    (h' : Steps c x turn') : turn.next = turn'.next := by
  cases h with
  | again hclosed | marks hopen => cases h' <;> simp_all
  | tells | stops | releases => cases h'; rfl

-- The only closing under way is the one of the operation that has it under way.
theorem System.eq_of_pending {before later : List Call} {call : Call} {x : Close}
    (hcalls : s.calls = before ++ call :: later) (hcall : call.pending? = some x)
    (halone : s.pending = [x]) (hmem : .close x ∈ s.calls) : call = .close x := by
  have hself := Close.pending?_pending hcall
  rw [pending_split hcalls, hcall] at halone
  have hlength := congrArg List.length halone
  simp only [List.length_append, Option.toList_some, List.length_singleton] at hlength
  have hnone {calls : List Call} (h : (calls.filterMap Call.pending?).length = 0) :
      .close x ∉ calls := fun hmem => by
    have hx : x ∈ calls.filterMap Call.pending? := List.mem_filterMap.mpr ⟨_, hmem, hself⟩
    rw [List.length_eq_zero_iff.mp h] at hx
    cases hx
  rw [hcalls] at hmem
  simp only [List.mem_append, List.mem_cons] at hmem
  rcases hmem with hmem | hcall | hmem
  · exact absurd hmem (hnone (by omega))
  · exact hcall.symm
  · exact absurd hmem (hnone (by omega))

theorem System.closingMoves_of_call {place : Nat}
    (hmove : s.move? setup (.call place) = some (s', happenings)) :
    s.ClosingMoves (.call place) s' happenings := by
  obtain ⟨before, call, later, turn, hcalls, rfl, hstep, rfl, rfl⟩ := move?_call hmove
  have hpending : s.pending = _ := pending_split hcalls
  have hpending' : (after turn.cursor (before ++ turn.next :: later) s.tasks turn.events).pending =
      before.filterMap Call.pending? ++ turn.next.pending?.toList ++
        later.filterMap Call.pending? := by
    rw [pending_after, List.filterMap_append, List.filterMap_cons]
    cases turn.next.pending? <;> simp
  -- An explicit closing takes the turns of a closing.
  have hclose (x : Close) (hcall : call = .close x) :
      ∃ inner, Close.Steps s.cursor x inner ∧ turn = inner.map .close := by
    rw [hcall] at hstep
    obtain ⟨inner, hinner, rfl⟩ := Option.map_eq_some_iff.mp hstep
    exact ⟨inner, Close.steps_of_step hinner, rfl⟩
  cases Call.closing_of_step hstep with
  | apart hbefore hafter hclosed hrelease hevents =>
    refine .apart hclosed hrelease ?_ ?_ ?_ ?_ ?_
    · rw [hpending, hpending', hbefore, hafter]
    · intro h hh
      obtain ⟨event, hevent, rfl⟩ := List.mem_map.mp hh
      exact hevents event hevent
    · intro x hx
      rw [close_mem_after]
      rw [hcalls] at hx
      simp only [List.mem_append, List.mem_cons] at hx ⊢
      rcases hx with hx | hx | hx
      · exact .inr (.inl (.inl hx))
      · obtain ⟨inner, hinner, -⟩ := hclose x hx.symm
        cases hinner with
        | again | marks => exact .inl rfl
        | tells | stops | releases => rw [← hx] at hbefore; cases hbefore
      · exact .inr (.inl (.inr (.inr hx)))
    · intro x hx
      rw [close_mem_after] at hx
      rw [hcalls]
      simp only [List.mem_append, List.mem_cons] at hx ⊢
      rcases hx with hx | hx | hx
      · exact .inr (.inr (.inl hx))
      · have hexplicit : ∃ y, call = .close y := by
          cases call with
          | close y => exact ⟨y, rfl⟩
          | next | one | all | item | extend =>
            obtain ⟨inner, -, rfl⟩ := Option.map_eq_some_iff.mp hstep
            cases hx
        obtain ⟨y, rfl⟩ := hexplicit
        obtain ⟨inner, hinner, rfl⟩ := hclose y rfl
        cases hinner with
        | again hagain => exact .inr (.inl hagain)
        | marks => cases hafter
        | tells | stops | releases => cases hbefore
      · exact .inr (.inr (.inr (.inr hx)))
    · intro x hx
      obtain ⟨event, -, hevent⟩ := List.mem_map.mp hx
      cases hevent
  | marks hbefore hafter hopen hcursor hevents =>
    rw [hbefore, Option.toList_none, List.append_nil] at hpending
    rw [hafter, Option.toList_some, List.append_assoc, List.singleton_append] at hpending'
    refine .marks rfl hpending hpending' hopen ?_ ?_ ?_
    · show turn.cursor.closed = true
      rw [hcursor]
    · rw [hevents]
      rfl
    · intro hplace
      rw [getElem?_of_split hcalls] at hplace
      obtain ⟨inner, hinner, rfl⟩ := hclose .mark (Option.some.inj hplace)
      rw [close_mem_after, ← Close.eq_of_pending? hafter]
      exact List.mem_append_right _ List.mem_cons_self
  | @proceeds x inner hbefore hproceeds hafter hcursor hevents =>
    rw [hbefore, Option.toList_some, List.append_assoc, List.singleton_append] at hpending
    rw [hafter] at hpending'
    refine .proceeds hpending hproceeds hpending' hcursor ?_ ?_
    · rw [hevents]
    · intro halone hmem
      obtain ⟨inner', hinner', hturn⟩ := hclose x (eq_of_pending hcalls hbefore halone hmem)
      rw [close_mem_after, hturn, hproceeds.next_eq hinner']
      exact List.mem_append_right _ List.mem_cons_self

theorem System.closingMoves_of_answerCall {place : Nat} {a : Answer}
    (hmove : s.move? setup (.answerCall place a) = some (s', happenings)) :
    s.ClosingMoves (.answerCall place a) s' happenings := by
  obtain ⟨before, call, later, kind, hcalls, rfl, hawaits, rfl, rfl⟩ := move?_answerCall hmove
  have hpending : s.pending = _ := pending_split hcalls
  have hpending' : System.pending { s with calls := before ++ call.answer a :: later } = _ :=
    pending_split rfl
  rcases call.pending?_answer a hawaits with ⟨rfl, hbefore, hafter⟩ | ⟨r, rfl, hbefore, hafter⟩
  · have hother (x : Close) : call ≠ .close x ∧ call.answer a ≠ .close x := by
      cases call with
      | close y => cases y <;> cases hawaits
      | _ => exact ⟨nofun, nofun⟩
    refine .apart rfl rfl ?_ ?_ ?_ ?_ ?_
    · rw [hpending, hpending', hbefore, hafter]
    · intro h hh
      rw [List.mem_singleton.mp hh]
      rfl
    · intro x hx
      rw [hcalls] at hx
      simp only [List.mem_append, List.mem_cons] at hx ⊢
      exact .inr (.inl (hx.imp_right fun hx =>
        .inr (hx.resolve_left fun hcall => (hother x).1 hcall.symm)))
    · intro x hx
      rw [hcalls]
      simp only [List.mem_append, List.mem_cons] at hx ⊢
      exact .inr (.inr (hx.imp_right fun hx =>
        .inr (hx.resolve_left fun hcall => (hother x).2 hcall.symm)))
    · intro x hx
      cases List.mem_singleton.mp hx
  · rw [hbefore, Option.toList_some, List.append_assoc, List.singleton_append] at hpending
    rw [hafter] at hpending'
    refine .answers hpending hpending' rfl rfl fun halone hmem => ?_
    have hcall : call = .close (.waiting r) :=
      eq_of_pending hcalls hbefore halone hmem
    rw [hcall]
    exact List.mem_append_right _ List.mem_cons_self

theorem System.closingMoves_of_collect {place : Nat}
    (hmove : s.move? setup (.collect place) = some (s', happenings)) :
    s.ClosingMoves (.collect place) s' happenings := by
  obtain ⟨before, call, later, hcalls, rfl, hended, rfl, rfl⟩ := move?_collect hmove
  have hpending : s.pending = _ := pending_split hcalls
  refine .apart rfl rfl ?_ ?_ ?_ ?_ ?_
  · rw [hpending, pending, Call.pending?_of_ended hended, List.filterMap_append]
    simp
  · intro h hh
    rw [List.mem_singleton.mp hh]
    rfl
  · intro x hx
    rw [hcalls] at hx
    simp only [List.mem_append, List.mem_cons] at hx ⊢
    rcases hx with hx | rfl | hx
    · exact .inr (.inl (.inl hx))
    · exact .inr (.inr (.inl rfl))
    · exact .inr (.inl (.inr hx))
  · intro x hx
    rw [hcalls]
    simp only [List.mem_append, List.mem_cons] at hx ⊢
    exact .inr (.inr (hx.imp_right .inr))
  · intro x hx
    cases List.mem_singleton.mp hx
    refine ⟨hcalls ▸ List.mem_append_cons_self, ?_, Call.pending?_of_ended hended⟩
    rintro rfl
    cases hended

theorem System.closingMoves_of_move (hmove : s.move? setup move = some (s', happenings)) :
    s.ClosingMoves move s' happenings := by
  cases move with
  | begin op =>
    cases hmove
    refine .apart rfl rfl ?_ ?_ ?_ ?_ ?_
    · rw [pending, List.filterMap_cons, op.pending?_begin]
      rfl
    · intro h hh
      rw [List.mem_singleton.mp hh]
      rfl
    · exact fun x hx => .inr (.inl (List.mem_cons_of_mem _ hx))
    · intro x hx
      rcases List.mem_cons.mp hx with hbegun | hx
      · cases op with
        | close => cases hbegun; exact .inl rfl
        | _ => cases hbegun
      · exact .inr (.inr hx)
    · intro x hx
      cases List.mem_singleton.mp hx
  | call place => exact closingMoves_of_call hmove
  | answerCall place a => exact closingMoves_of_answerCall hmove
  | collect place => exact closingMoves_of_collect hmove
  | task place =>
    obtain ⟨before, task, later, turn, htasks, rfl, hstep, rfl, rfl⟩ := move?_task hmove
    have hsteps := Task.steps_of_step hstep
    refine .apart hsteps.closed_eq ?_ (pending_after ..) ?_ ?_ ?_ ?_
    · cases hsteps with
      | fetches hfetch => exact hfetch.ofClosing.1
      | notices | reports | tells => rfl
    · intro h hh
      obtain ⟨event, hevent, rfl⟩ := List.mem_map.mp hh
      exact hsteps.ofClosing event hevent
    · exact fun x hx => .inr (.inl (close_mem_after.mpr hx))
    · exact fun x hx => .inr (.inr (close_mem_after.mp hx))
    · intro x hx
      obtain ⟨event, -, hevent⟩ := List.mem_map.mp hx
      cases hevent
  | answerTask place a =>
    obtain ⟨before, task, later, kind, htasks, rfl, hawaits, rfl, rfl⟩ := move?_answerTask hmove
    rw [Task.awaits?_eq_more hawaits]
    refine .apart rfl rfl rfl ?_ (fun x hx => .inr (.inl hx)) (fun x hx => .inr (.inr hx)) ?_
    · intro h hh
      rw [List.mem_singleton.mp hh]
      rfl
    · intro x hx
      cases List.mem_singleton.mp hx

/-! ## 3. The closing of a run -/

/-- What the connection has had to say to the closing of a cursor, with the error that the closing
has made of it: nothing if the stream had finished, and else the answer to one stop query. -/
inductive Stopped (finished : Bool) : Nat → List Answer → Option Error → Prop
  | skipped (hfinished : finished = true) : Stopped finished 0 [] none
  | replied (hgoes : finished = false) (reply : Reply) : Stopped finished 1 [.reply reply] none
  | failed (hgoes : finished = false) (e : Error) : Stopped finished 1 [.failure e] (some e)

/-- How far the closing of a cursor has come, with the stop queries sent, the answers to them and
what has been told.  If the connection breaks down under the stop query nobody is told. -/
inductive Settles (finished release : Bool) :
    Close → Nat → List Answer → List (Option Error) → Prop
  | wakes : Settles finished release (.wake finished release) 0 [] []
  | stops (hgoes : finished = false) : Settles finished release (.stop release) 0 [] []
  | waits (hgoes : finished = false) : Settles finished release (.waiting release) 1 [] []
  | releases {sent : Nat} {answers : List Answer} {stopError : Option Error}
    (hstopped : Stopped finished sent answers stopError) :
    Settles finished release (.release release stopError) sent answers []
  | ended {sent : Nat} {answers : List Answer} {stopError : Option Error}
    (hstopped : Stopped finished sent answers stopError) :
    Settles finished release (.done stopError) sent answers (if release then [stopError] else [])
  | broken (hgoes : finished = false) : Settles finished release .aborted 1 [.breakdown] []

section

variable {finished release : Bool} {x : Close} {sent : Nat} {answers : List Answer}
  {told : List (Option Error)}

theorem Settles.step {turn : Turn Close} (h : Settles finished release x sent answers told)
    (hstep : Close.Steps c x turn) :
    Settles finished release turn.next
      (sent + (turn.events.map Happening.event).countP Happening.stops)
      (answers ++ (turn.events.map Happening.event).filterMap Happening.stopped?)
      (told ++ (turn.events.map Happening.event).filterMap Happening.released?) := by
  cases h with
  | wakes =>
    cases hstep with
    | tells =>
      cases finished with
      | true => exact .releases (.skipped rfl)
      | false => exact .stops rfl
  | stops hgoes => cases hstep; exact .waits hgoes
  | waits => cases hstep
  | @releases sent answers stopError hstopped =>
    cases hstep with
    | releases =>
      cases release with
      | true =>
        show Settles finished true (.done stopError) sent (answers ++ []) [stopError]
        rw [List.append_nil]
        exact .ended hstopped
      | false =>
        show Settles finished false (.done stopError) sent (answers ++ []) []
        rw [List.append_nil]
        exact .ended hstopped
  | ended | broken => cases hstep

theorem Settles.answer {r : Bool} (a : Answer)
    (h : Settles finished release (.waiting r) sent answers told) :
    Settles finished release ((Close.waiting r).answer a) sent (answers ++ [a]) told := by
  cases h with
  | waits hgoes =>
    cases a with
    | reply reply => exact .releases (.replied hgoes reply)
    | failure e => exact .releases (.failed hgoes e)
    | breakdown => exact .broken hgoes

end

/-- A run in which the cursor has not been closed. -/
structure Opened (release : Bool) (stages : List Stage) (s : System) : Prop where
  closed : s.cursor.closed = false
  release : s.cursor.release = release
  pending : s.pending = []
  before : ∀ stage ∈ stages, stage.before.cursor.closed = false
  quiet : ∀ h ∈ happened stages, h.ofClosing = false
  marks : ∀ x, .close x ∈ s.calls → x = .mark
  taken : ∀ x, .close x ∉ takenBack stages

/-- Whether the operation that takes its turn in a stage is there to close the cursor. -/
def Stage.Explicit (stage : Stage) : Prop :=
  ∃ place, stage.move = .call place ∧ stage.before.calls[place]? = some (.close .mark)

/-- A run in which the cursor has been closed: in its first stage, to which a run of the open cursor
has led. -/
structure Shut (release : Bool) (first : Stage) (later : List Stage) (s : System) (x : Close) :
    Prop where
  closed : s.cursor.closed = true
  pending : s.pending = x.pending?.toList
  afterwards : ∀ stage ∈ later, stage.before.cursor.closed = true
  settles : Settles first.before.cursor.finished release x (stops later) (stopAnswers later)
    (released later)
  explicit : first.Explicit →
    .close x ∈ s.calls ∨ (x.pending? = none ∧ .close x ∈ takenBack later)

theorem stops_concat (stages : List Stage) (stage : Stage) :
    stops (stages ++ [stage]) = stops stages + stage.happenings.countP Happening.stops := by
  rw [stops, happened_concat, List.countP_append]
  rfl

theorem stopAnswers_concat (stages : List Stage) (stage : Stage) :
    stopAnswers (stages ++ [stage]) =
      stopAnswers stages ++ stage.happenings.filterMap Happening.stopped? := by
  rw [stopAnswers, happened_concat, List.filterMap_append]
  rfl

theorem released_concat (stages : List Stage) (stage : Stage) :
    released (stages ++ [stage]) =
      released stages ++ stage.happenings.filterMap Happening.released? := by
  rw [released, happened_concat, List.filterMap_append]
  rfl

-- What is not part of closing leaves no trace in what is known of it.
theorem quiet_of_ofClosing (h : ∀ h ∈ happenings, h.ofClosing = false) :
    happenings.countP Happening.stops = 0 ∧ happenings.filterMap Happening.stopped? = [] ∧
      happenings.filterMap Happening.released? = [] := by
  have hparts (happening : Happening) (hmem : happening ∈ happenings) :
      happening.stops = false ∧ happening.stopped? = none ∧ happening.released? = none := by
    have hnone := h happening hmem
    simpa only [Happening.ofClosing, Bool.or_eq_false_iff, Option.isSome_eq_false_iff,
      Option.isNone_iff_eq_none, and_assoc] using hnone
  refine ⟨List.countP_eq_zero.mpr fun happening hmem => ?_,
    List.filterMap_eq_nil_iff.mpr fun happening hmem => (hparts happening hmem).2.1,
    List.filterMap_eq_nil_iff.mpr fun happening hmem => (hparts happening hmem).2.2⟩
  rw [(hparts happening hmem).1]
  exact Bool.false_ne_true

-- Somebody who takes back the closing of a cursor has been told so in that stage.
theorem mem_takenBack {call : Call} :
    call ∈ happenings.filterMap Happening.takenBack? ↔ .collected call ∈ happenings := by
  rw [List.mem_filterMap]
  constructor
  · rintro ⟨h, hmem, hcall⟩
    cases h <;> cases hcall
    exact hmem
  · exact fun hmem => ⟨_, hmem, rfl⟩

section

variable {release : Bool} {first : Stage} {later : List Stage} {x : Close}

theorem Opened.step (h : Opened release stages s)
    (hmove : s.move? setup move = some (s', happenings)) :
    Opened release (stages ++ [⟨s, move, happenings⟩]) s' ∨
      ∃ x, Shut release ⟨s, move, happenings⟩ [] s' x ∧ happenings = [] := by
  cases System.closingMoves_of_move hmove with
  | apart hclosed hrelease hpending hhappenings hkept hnew htaken =>
    left
    refine
      { closed := hclosed.trans h.closed
        release := hrelease.trans h.release
        pending := hpending.trans h.pending
        before := ?_
        quiet := ?_
        marks := fun x hx => ?_
        taken := fun x hx => ?_ }
    · simp only [List.mem_append, List.mem_singleton]
      rintro stage (hstage | rfl)
      · exact h.before stage hstage
      · exact h.closed
    · rw [happened_concat]
      exact fun happening hmem =>
        (List.mem_append.mp hmem).elim (h.quiet happening) (hhappenings happening)
    · rcases hnew x hx with hmark | hclosed | hmem
      · exact hmark
      · rw [h.closed] at hclosed
        cases hclosed
      · exact h.marks x hmem
    · rw [takenBack_concat] at hx
      rcases List.mem_append.mp hx with hx | hx
      · exact h.taken x hx
      · obtain ⟨hmem, hother, -⟩ := htaken x (mem_takenBack.mp hx)
        exact hother (h.marks x hmem)
  | marks hplace hpending hpending' hopen hclosed hhappenings hexplicit =>
    right
    rw [h.pending] at hpending
    obtain ⟨rfl, rfl⟩ := List.append_eq_nil_iff.mp hpending.symm
    refine ⟨.wake s.cursor.finished s.cursor.release,
      ⟨hclosed, hpending', fun _ h => absurd h List.not_mem_nil, ?_, ?_⟩, hhappenings⟩
    · rw [h.release]
      exact .wakes
    · rintro ⟨place, hcall, hmark⟩
      cases hplace.symm.trans hcall
      exact .inl (hexplicit hmark)
  | proceeds hpending | answers hpending =>
    rw [h.pending] at hpending
    simp at hpending

-- The closing that is under way is the only one.
theorem Shut.eq_of_pending {before after : List Close} {y : Close}
    (h : Shut release first later s x) (hpending : s.pending = before ++ y :: after) :
    before = [] ∧ after = [] ∧ x = y := by
  have halone := h.pending.symm.trans hpending
  cases hx : x.pending? with
  | none =>
    rw [hx] at halone
    simp at halone
  | some z =>
    rw [hx, Option.toList_some, List.singleton_eq_append_iff] at halone
    rcases halone with ⟨rfl, hz⟩ | ⟨-, hnone⟩
    · cases hz
      exact ⟨rfl, rfl, Close.eq_of_pending? hx⟩
    · cases hnone

theorem Shut.step (h : Shut release first later s x)
    (hmove : s.move? setup move = some (s', happenings)) :
    ∃ x, Shut release first (later ++ [⟨s, move, happenings⟩]) s' x := by
  have hlater : ∀ stage ∈ later ++ [⟨s, move, happenings⟩],
      stage.before.cursor.closed = true := by
    simp only [List.mem_append, List.mem_singleton]
    rintro stage (hstage | rfl)
    · exact h.afterwards stage hstage
    · exact h.closed
  have hclosed := System.closed_of_move hmove h.closed
  cases System.closingMoves_of_move hmove with
  | apart _ hrelease hpending hhappenings hkept hnew htaken =>
    obtain ⟨hstops, hanswers, hreleased⟩ := quiet_of_ofClosing hhappenings
    refine ⟨x, hclosed, hpending.trans h.pending, hlater, ?_, fun hexplicit => ?_⟩
    · rw [stops_concat, stopAnswers_concat, released_concat]
      simpa only [hstops, hanswers, hreleased, Nat.add_zero, List.append_nil] using h.settles
    · rw [takenBack_concat, List.mem_append, mem_takenBack]
      rcases h.explicit hexplicit with hmem | ⟨hended, hmem⟩
      · rcases hkept x hmem with rfl | hmem | hmem
        · cases h.settles
        · exact .inl hmem
        · exact .inr ⟨(htaken x hmem).2.2, .inr hmem⟩
      · exact .inr ⟨hended, .inl hmem⟩
  | marks _ _ _ hopen =>
    rw [h.closed] at hopen
    cases hopen
  | @proceeds before after y turn hpending hstep hpending' hcursor hhappenings hexplicit' =>
    obtain ⟨rfl, rfl, rfl⟩ := h.eq_of_pending hpending
    have hpending : s.pending = [x] := hpending
    refine ⟨turn.next, hclosed, by rw [hpending']; simp, hlater, ?_, fun hexplicit => .inl ?_⟩
    · rw [stops_concat, stopAnswers_concat, released_concat, hhappenings]
      exact h.settles.step hstep
    · apply hexplicit' hpending
      refine (h.explicit hexplicit).resolve_right fun ⟨hended, _⟩ => ?_
      rw [h.pending, hended] at hpending
      cases hpending
  | @answers before after r a hpending hpending' hcursor hhappenings hexplicit' =>
    obtain ⟨rfl, rfl, rfl⟩ := h.eq_of_pending hpending
    have hpending : s.pending = [.waiting r] := hpending
    refine ⟨(Close.waiting r).answer a, hclosed, by rw [hpending']; simp, hlater, ?_,
      fun hexplicit => .inl ?_⟩
    · rw [stops_concat, stopAnswers_concat, released_concat, hhappenings]
      have hsettles := h.settles.answer a
      show Settles _ _ _ (stops later) (stopAnswers later ++ [a]) (released later ++ [])
      rw [List.append_nil]
      exact hsettles
    · exact hexplicit' hpending
        ((h.explicit hexplicit).resolve_right fun ⟨hended, _⟩ => nomatch hended)

theorem Shut.run {more : List Stage} (h : Shut release first later s x)
    (hrun : Run setup s more s') : ∃ x, Shut release first (later ++ more) s' x := by
  induction hrun with
  | nil => exact ⟨x, by rw [List.append_nil]; exact h⟩
  | snoc _ hmove ih =>
    obtain ⟨y, hy⟩ := ih
    rw [← List.append_assoc]
    exact hy.step hmove

end

-- A run of an open cursor is followed by a run of a closed one, or by none.
theorem Run.opened_or_shut {release : Bool} (hrun : Run setup (.opened release) stages s) :
    Opened release stages s ∨
      ∃ before first later start x, stages = before ++ first :: later ∧
        Run setup (.opened release) before first.before ∧ Opened release before first.before ∧
        first.before.move? setup first.move = some (start, first.happenings) ∧
        first.happenings = [] ∧ Shut release first [] start x ∧ Run setup start later s := by
  induction hrun with
  | nil =>
    left
    exact
      { closed := rfl
        release := rfl
        pending := rfl
        before := fun _ h => absurd h List.not_mem_nil
        quiet := fun _ h => absurd h List.not_mem_nil
        marks := fun _ h => absurd h List.not_mem_nil
        taken := fun _ h => absurd h List.not_mem_nil }
  | @snoc stages s s' move happenings hrun hmove ih =>
    rcases ih with hopened | ⟨before, first, later, start, x, rfl, hbefore, hopened, hfirst, hnone,
      hshut, hlater⟩
    · refine (hopened.step hmove).imp_right ?_
      rintro ⟨x, hshut, rfl⟩
      exact ⟨stages, ⟨s, move, []⟩, [], s', x, rfl, hrun, hopened, hmove, rfl, hshut, .nil⟩
    · refine .inr ⟨before, first, later ++ [⟨s, move, happenings⟩], start, x, ?_, hbefore, hopened,
        hfirst, hnone, hshut, hlater.snoc hmove⟩
      rw [List.append_assoc, List.cons_append]

/-! ## 4. Operations one after another -/

/-- Whether an operation is there to close the cursor. -/
def Operation.isClose : Operation → Bool
  | close => true
  | _ => false

/-- Whether an operation under way is there to close the cursor. -/
def Call.isClose : Call → Bool
  | close _ => true
  | _ => false

/-- The operations that a move begins, ends and leaves under way. -/
inductive System.Tallies (s : System) (move : Move) (s' : System) (happenings : List Happening) :
    Prop
  | begins (op : Operation) (hmove : move = .begin op) (hcalls : s'.calls = op.begin :: s.calls)
    (hhappenings : happenings = [.began op])
  | ends {before later : List Call} {call : Call} (hcalls : s.calls = before ++ call :: later)
    (hcalls' : s'.calls = before ++ later) (hhappenings : happenings = [.collected call])
  | goesOn (hkinds : s'.calls.map Call.isClose = s.calls.map Call.isClose)
    (hbegun : happenings.filterMap Happening.begun? = [])
    (htaken : happenings.filterMap Happening.takenBack? = [])

theorem Call.isClose_step {call : Call} {turn : Turn Call} (h : call.step setup c = some turn) :
    turn.next.isClose = call.isClose := by
  cases call <;> obtain ⟨inner, -, rfl⟩ := Option.map_eq_some_iff.mp h <;> rfl

theorem System.isClose_after (c : Cursor) (calls : List Call) (tasks : List Task)
    (events : List Event) :
    (after c calls tasks events).calls.map Call.isClose = calls.map Call.isClose := by
  unfold after
  split
  · rw [List.map_map]
    exact List.map_congr_left fun call _ => by cases call <;> rfl
  · rfl

theorem System.tallies_of_move (hmove : s.move? setup move = some (s', happenings)) :
    s.Tallies move s' happenings := by
  cases move with
  | begin op => cases hmove; exact .begins op rfl rfl rfl
  | call place =>
    obtain ⟨before, call, later, turn, hcalls, rfl, hstep, rfl, rfl⟩ := move?_call hmove
    obtain ⟨hbegun, htaken⟩ := begun?_events turn.events
    refine .goesOn ?_ hbegun htaken
    rw [isClose_after, hcalls]
    simp only [List.map_append, List.map_cons, Call.isClose_step hstep]
  | answerCall place a =>
    obtain ⟨before, call, later, kind, hcalls, rfl, hawaits, rfl, rfl⟩ := move?_answerCall hmove
    have hkind : (call.answer a).isClose = call.isClose := by cases call <;> rfl
    refine .goesOn ?_ rfl rfl
    rw [hcalls]
    simp only [List.map_append, List.map_cons, hkind]
  | collect place =>
    obtain ⟨before, call, later, hcalls, rfl, hended, rfl, rfl⟩ := move?_collect hmove
    exact .ends hcalls rfl rfl
  | task place =>
    obtain ⟨before, task, later, turn, htasks, rfl, hstep, rfl, rfl⟩ := move?_task hmove
    obtain ⟨hbegun, htaken⟩ := begun?_events turn.events
    exact .goesOn (isClose_after ..) hbegun htaken
  | answerTask place a =>
    obtain ⟨before, task, later, kind, htasks, rfl, hawaits, rfl, rfl⟩ := move?_answerTask hmove
    exact .goesOn rfl rfl rfl

namespace Run

variable {start : System}

-- One after another, each operation that has begun has been taken back or is under way.
theorem tally (hrun : Run setup start stages s) (hidle : start.calls = [])
    (hturns : ∀ stage ∈ stages, stage.Sequential) :
    s.calls.length ≤ 1 ∧
      (begun stages).map Operation.isClose = (takenBack stages ++ s.calls).map Call.isClose := by
  induction hrun with
  | nil => rw [hidle]; exact ⟨Nat.zero_le 1, rfl⟩
  | @snoc stages s s' move happenings hrun hmove ih =>
    simp only [List.mem_append, List.mem_singleton] at hturns
    obtain ⟨hlength, hkinds⟩ := ih fun stage hstage => hturns stage (.inl hstage)
    rw [begun_concat, takenBack_concat]
    cases System.tallies_of_move hmove with
    | begins op hbegins hcalls hhappenings =>
      have hnone : s.calls = [] := hturns _ (.inr rfl) op hbegins
      have hkind : op.begin.isClose = op.isClose := by cases op <;> rfl
      rw [hnone] at hkinds hcalls
      rw [hcalls, hhappenings]
      refine ⟨Nat.le_refl 1, ?_⟩
      show (begun stages ++ [op]).map _ = (takenBack stages ++ [] ++ [op.begin]).map _
      rw [List.map_append, hkinds]
      simp only [List.map_append, List.map_cons, List.map_nil, hkind]
    | @ends before later call hcalls hcalls' hhappenings =>
      rw [hcalls] at hlength hkinds
      simp only [List.length_append, List.length_cons] at hlength
      obtain rfl : before = [] := List.length_eq_zero_iff.mp (by omega)
      obtain rfl : later = [] := List.length_eq_zero_iff.mp (by omega)
      rw [hcalls', hhappenings]
      refine ⟨Nat.zero_le 1, ?_⟩
      show (begun stages ++ []).map _ = (takenBack stages ++ [call] ++ []).map _
      rw [List.append_nil, List.append_nil]
      exact hkinds
    | goesOn hkinds' hbegun htaken =>
      have hcount : s'.calls.length = s.calls.length := by
        simpa only [List.length_map] using congrArg List.length hkinds'
      rw [hbegun, htaken, List.append_nil, List.append_nil, List.map_append, hkinds',
        ← List.map_append]
      exact ⟨hcount ▸ hlength, hkinds⟩

-- The operation under way is taken back before another one begins.
theorem until_taken {later : List Stage} {call : Call} (hrun : Run setup start later s)
    (hcalls : start.calls = [call]) (hturns : ∀ stage ∈ later, stage.Sequential) :
    (∃ call, s.calls = [call]) ∧ begun later = [] ∧ takenBack later = [] ∨
      ∃ closing rest s₁ taken, later = closing ++ rest ∧ Run setup start closing s₁ ∧
        Run setup s₁ rest s ∧ s₁.calls = [] ∧ begun closing = [] ∧ takenBack closing = [taken] := by
  induction hrun with
  | nil => exact .inl ⟨⟨call, hcalls⟩, rfl, rfl⟩
  | @snoc stages s s' move happenings hrun hmove ih =>
    simp only [List.mem_append, List.mem_singleton] at hturns
    rcases ih fun stage hstage => hturns stage (.inl hstage) with
      ⟨⟨call, hcall⟩, hnone, hnone'⟩ | ⟨closing, rest, s₁, taken, rfl, hclosing, hrest, hfound⟩
    · cases System.tallies_of_move hmove with
      | begins op hbegins =>
        have hidle : s.calls = [] := hturns _ (.inr rfl) op hbegins
        rw [hcall] at hidle
        cases hidle
      | @ends before later taken hsplit hcalls' hhappenings =>
        rw [hcall, List.singleton_eq_append_iff] at hsplit
        obtain ⟨rfl, rfl⟩ : before = [] ∧ later = [] := by
          rcases hsplit with ⟨rfl, hsplit⟩ | ⟨-, hsplit⟩
          · exact ⟨rfl, (List.cons.inj hsplit).2⟩
          · cases hsplit
        refine .inr ⟨_, [], s', taken, (List.append_nil _).symm, hrun.snoc hmove, .nil, hcalls',
          ?_, ?_⟩
        · rw [begun_concat, hnone, hhappenings]
          rfl
        · rw [takenBack_concat, hnone', hhappenings]
          rfl
      | goesOn hkinds hbegun htaken =>
        left
        refine ⟨List.length_eq_one_iff.mp ?_, ?_, ?_⟩
        · have hlength := congrArg List.length hkinds
          rw [hcall, List.length_map] at hlength
          exact hlength
        · rw [begun_concat, hnone]
          exact hbegun
        · rw [takenBack_concat, hnone']
          exact htaken
    · exact .inr ⟨closing, rest ++ [⟨s, move, happenings⟩], s₁, taken, List.append_assoc ..,
        hclosing, hrest.snoc hmove, hfound⟩

-- An advance that has found no row has closed the cursor or found it closed.
theorem closed_of_findsNoRow {release : Bool} (hrun : Run setup (.opened release) stages s) :
    (∀ (t : Target) (n : Next t), .next n ∈ s.calls → n.PastMark → s.cursor.closed = true) ∧
      ∀ stage ∈ stages, stage.FindsNoRow → stage.before.cursor.closed = true := by
  induction hrun with
  | nil => exact ⟨fun _ _ h => absurd h List.not_mem_nil, fun _ h => absurd h List.not_mem_nil⟩
  | @snoc stages s s' move happenings hrun hmove ih =>
    obtain ⟨hpast, hbefore⟩ := ih
    constructor
    · intro t n hnext hn
      cases stems_of_move hmove hnext with
      | same hmem => exact System.closed_of_move hmove (hpast t n hmem hn)
      | @woken m hmem =>
        apply System.closed_of_move hmove (hpast t m hmem _)
        obtain ⟨slot, phase⟩ := m
        cases phase <;> exact hn
      | started slot => exact hn.elim
      | @answered m kind a hmem hawaits hcursor =>
        rw [hcursor]
        apply hpast t m hmem
        obtain ⟨slot, phase⟩ := m
        cases phase with
        | fetching f => exact hn.elim
        | closing x => cases x <;> trivial
        | _ => cases hawaits
      | @turned m turn place hplace hmem hstep hcursor =>
        rw [hcursor]
        exact hstep.closed_of_pastMark (hpast t m (List.mem_of_getElem? hmem)) hn
    · simp only [List.mem_append, List.mem_singleton]
      rintro stage (hstage | rfl) hfinds
      · exact hbefore stage hstage hfinds
      · obtain ⟨t, n, hmem, hn⟩ := pastMark_of_findsNoRow hmove hfinds
        exact hpast t n hmem hn

end Run

-- An open cursor is closed in a turn of an operation.
theorem System.call_of_closes (hmove : s.move? setup move = some (s', happenings))
    (hopen : s.cursor.closed = false) (hclosed : s'.cursor.closed = true) :
    ∃ place, move = .call place := by
  cases closingMoves_of_move hmove with
  | apart hsame =>
    rw [hclosed, hopen] at hsame
    cases hsame
  | marks hmove => exact ⟨_, hmove⟩
  | proceeds _ _ _ hcursor | answers _ _ hcursor =>
    rw [hcursor, hopen] at hclosed
    cases hclosed

-- That operation is under way before and after it.
theorem Stage.alone_of_closes {first : Stage} {start : System}
    (hfirst : first.before.move? setup first.move = some (start, first.happenings))
    (hopen : first.before.cursor.closed = false) (hclosed : start.cursor.closed = true)
    (hlength : first.before.calls.length ≤ 1) :
    ∃ call call', first.move = .call 0 ∧ first.before.calls = [call] ∧ start.calls = [call'] := by
  obtain ⟨place, hplace⟩ := System.call_of_closes hfirst hopen hclosed
  rw [hplace] at hfirst
  obtain ⟨before, call, later, turn, hcalls, rfl, hstep, hhappenings, rfl⟩ :=
    System.move?_call hfirst
  rw [hcalls, List.length_append, List.length_cons] at hlength
  obtain rfl : before = [] := List.length_eq_zero_iff.mp (by omega)
  obtain rfl : later = [] := List.length_eq_zero_iff.mp (by omega)
  obtain ⟨call', hcall'⟩ : ∃ call', (System.after turn.cursor ([] ++ turn.next :: [])
      first.before.tasks turn.events).calls = [call'] :=
    List.length_eq_one_iff.mp (length_calls_after ..)
  exact ⟨call, call', hplace, hcalls, hcall'⟩

/-! ## 5. The theorem -/

/-- Closing comes to its end, whatever the schedule, unless the connection breaks down. -/
theorem close_returns (setup : Setup) (schedule : Schedule) (s : System) (answers : List Answer)
    {stop : Answer} (hstop : stop ≠ .breakdown) :
    World.Returns setup schedule Call.Suffices
      (World.alone s Operation.close.begin answers stop) fun w =>
        ∃ stopError, w.system.calls = [.close (.done stopError)] := by
  apply World.returns_of_invariant
    (fun w => (∃ x : Close, w.system.calls = [.close x] ∧
      (x.Goes ∨ ∃ stopError, x = .done stopError)) ∧ w.stop ≠ .breakdown)
    (World.effort setup)
  · exact ⟨⟨.mark, rfl, .inl trivial⟩, hstop⟩
  · rintro ⟨⟨c, calls, tasks⟩, answers, stop, results⟩ w' ⟨⟨x, rfl, hx⟩, hstop⟩ hstep
    cases World.turns_of_step hstep with
    | call hturn =>
      obtain ⟨turn, hclose, rfl⟩ := Option.map_eq_some_iff.mp hturn
      exact ⟨⟨turn.next, rfl, (Close.steps_of_step hclose).goes⟩, hstop⟩
    | task =>
      refine ⟨⟨x, ?_, hx⟩, hstop⟩
      simp only [System.after, List.map_singleton, Call.wake, ite_self]
    | answerCall hawaits => cases Close.eq_stop_of_awaits? hawaits
    | answerTask => exact ⟨⟨x, rfl, hx⟩, hstop⟩
    | stopped hawaits =>
      refine ⟨⟨x.answer stop, rfl, .inl (hx.elim (·.answer hstop) ?_)⟩, hstop⟩
      rintro ⟨stopError, rfl⟩
      cases hawaits
    | again _ hhabit => exact hhabit.elim
  · rintro w w' ⟨⟨x, hcalls, -⟩, -⟩ hstep
    exact World.effort_lt_of_step hcalls (fun _ _ _ hhabit => hhabit.elim) hstep
  · rintro ⟨⟨c, calls, tasks⟩, answers, stop, results⟩ ⟨⟨x, rfl, hx⟩, hstop⟩
    rcases hx with hgoes | ⟨stopError, rfl⟩
    · cases hstep : x.step c with
      | some turn => exact .inr (World.goesOn_call (Option.map_eq_some_iff.mpr ⟨turn, hstep, rfl⟩))
      | none => exact .inr (World.goesOn_stopped (hgoes.goesOn hstep))
    · exact .inl ⟨_, rfl, rfl, fun _ => id⟩
  · rintro w ⟨⟨x, hcalls, hx⟩, -⟩ ⟨call, hcall, hdone, -⟩
    rw [hcalls] at hcall
    cases hcall
    rcases hx with hgoes | ⟨stopError, rfl⟩
    · cases x with
      | done => exact hgoes.elim
      | _ => cases hdone
    · exact ⟨stopError, hcalls⟩

/-- How a cursor is closed in a run of operations one after another: it is open up to the stage
`first` and closed from then on, and the operation that takes its turn in `first` is taken back as
`call` at the end of `closing`. -/
structure ClosedOnce (setup : Setup) (release : Bool) (before : List Stage) (first : Stage)
    (closing rest : List Stage) (s₁ s : System) (call : Call) : Prop where
  run : Run setup (.opened release) (before ++ first :: closing) s₁
  later : Run setup s₁ rest s
  opened : ∀ stage ∈ before ++ [first], stage.before.cursor.closed = false
  closed : ∀ stage ∈ closing ++ rest, stage.before.cursor.closed = true
  closed_of_later : ∀ more s', Run setup s₁ more s' → s'.cursor.closed = true
  idle : s₁.calls = []
  taken : takenBack (before ++ first :: closing) = takenBack before ++ [call]
  /-- Nothing is stopped or told before that or later. -/
  quiet : ∀ h ∈ happened before ++ happened rest, h.ofClosing = false
  /-- One stop query has been sent if the stream had not finished, and none otherwise.  Whoever is
  to be told has been told once of its error or of none, and so has the caller if the operation was
  there to close the cursor.  Nobody is told if the connection breaks down under the query. -/
  settled :
    (∃ stopError,
      Stopped first.before.cursor.finished (stops closing) (stopAnswers closing) stopError ∧
      released closing = (if release then [stopError] else []) ∧
      ((begun before).getLast? = some .close → call = .close (.done stopError))) ∨
    (first.before.cursor.finished = false ∧ stops closing = 1 ∧
      stopAnswers closing = [.breakdown] ∧ released closing = [])
  /-- Operations that begin later end without a row, closings without an error. -/
  results : List.Forall₂ Operation.EndsQuietly (begun rest) (takenBack rest)
  /-- Whatever is done later, the turns of operations leave the cursor as it is. -/
  keeps : ∀ more s' place s'' happenings, Run setup s₁ more s' →
    s'.move? setup (.call place) = some (s'', happenings) → s'.cursor.Keeps s''.cursor

/-- A cursor that is closed stays as it is. -/
theorem System.Quiet.keeps {place : Nat} (h : s.Quiet)
    (hmove : s.move? setup (.call place) = some (s', happenings)) : s.cursor.Keeps s'.cursor := by
  cases h.moves hmove with
  | turns _ _ _ hkeeps => exact hkeeps
  | begins _ _ hbegins => cases hbegins
  | ends hcalls _ _ hhappenings =>
    obtain ⟨before, call, later, turn, -, -, -, hevents, -⟩ := move?_call hmove
    rw [hhappenings] at hevents
    cases hevents' : turn.events <;> rw [hevents'] at hevents <;> cases hevents
  | others _ hother => exact absurd rfl (hother place)

theorem Shut.settled {release : Bool} {before closing : List Stage} {first : Stage} {x : Close}
    {call : Call} (h : Shut release first closing s x) (hidle : s.calls = [])
    (hexplicit : (begun before).getLast? = some .close → first.Explicit)
    (htaken : takenBack closing = [call]) :
    (∃ stopError,
      Stopped first.before.cursor.finished (stops closing) (stopAnswers closing) stopError ∧
      released closing = (if release then [stopError] else []) ∧
      ((begun before).getLast? = some .close → call = .close (.done stopError))) ∨
    (first.before.cursor.finished = false ∧ stops closing = 1 ∧
      stopAnswers closing = [.breakdown] ∧ released closing = []) := by
  have hended : x.pending? = none := by
    have hpending : s.pending = [] := by rw [System.pending, hidle]; rfl
    rw [h.pending] at hpending
    cases hx : x.pending? with
    | none => rfl
    | some y => rw [hx] at hpending; cases hpending
  have hcall (hclose : (begun before).getLast? = some .close) : call = .close x := by
    rcases h.explicit (hexplicit hclose) with hmem | ⟨-, hmem⟩
    · rw [hidle] at hmem
      cases hmem
    · rw [htaken] at hmem
      exact (List.mem_singleton.mp hmem).symm
  have hsettles := h.settles
  generalize stops closing = sent, stopAnswers closing = answers, released closing = told
    at hsettles ⊢
  cases hsettles with
  | ended hstopped => exact .inl ⟨_, hstopped, rfl, hcall⟩
  | broken hgoes => exact .inr ⟨hgoes, rfl, rfl, rfl⟩
  | wakes | stops | waits | releases => cases hended

/-- A cursor is closed once and for good.  In a run of operations one after another whose last one
is there to close the cursor, as dropping a cursor is, there is a first stage in which the cursor is
closed, in the course of some operation; what follows from it is said in `ClosedOnce`.  An advance
that finds no row leaves the cursor closed.  Closing comes to its end from every state between two
operations, unless the connection breaks down. -/
theorem closing_once {release : Bool} (hrun : Run setup (.opened release) stages s)
    (hturns : ∀ stage ∈ stages, stage.Sequential) (hdropped : (begun stages).getLast? = some .close)
    (hidle : s.calls = []) :
    (∃ before first closing rest s₁ call, stages = before ++ first :: closing ++ rest ∧
      ClosedOnce setup release before first closing rest s₁ s call) ∧
    (∀ stage ∈ stages, stage.FindsNoRow → stage.before.cursor.closed = true) ∧
    (∀ stage ∈ stages, stage.before.calls = [] →
      ∀ (schedule : Schedule) (answers : List Answer) (stop : Answer), stop ≠ .breakdown →
        World.Returns setup schedule Call.Suffices
          (World.alone stage.before Operation.close.begin answers stop) fun w =>
            ∃ stopError, w.system.calls = [.close (.done stopError)]) := by
  refine ⟨?_, hrun.closed_of_findsNoRow.2,
    fun stage _ _ schedule answers stop hstop => close_returns setup schedule _ answers hstop⟩
  have hstart : (System.opened release).calls = [] := rfl
  -- The last operation was there to close the cursor and has been taken back.
  have hclose : ∃ x, .close x ∈ takenBack stages := by
    have hkinds := (hrun.tally hstart hturns).2
    rw [hidle, List.append_nil] at hkinds
    have hlast := congrArg List.getLast? hkinds
    rw [List.getLast?_map, hdropped, List.getLast?_map, Option.map_some] at hlast
    obtain ⟨call, hcall, hkind⟩ := Option.map_eq_some_iff.mp hlast.symm
    cases call with
    | close x => exact ⟨x, List.mem_of_getLast? hcall⟩
    | _ => cases hkind
  obtain ⟨x, hx⟩ := hclose
  rcases hrun.opened_or_shut with hopened | ⟨before, first, later, start, x₀, rfl, hbefore, hopened,
    hfirst, hnone, hshut, hlater⟩
  · exact absurd hx (hopened.taken x)
  simp only [List.mem_append, List.mem_cons] at hturns
  -- The operation in whose course the cursor is closed is the only one until it is taken back.
  obtain ⟨hlength, hkinds⟩ := hbefore.tally hstart fun stage hstage => hturns stage (.inl hstage)
  obtain ⟨call₀, call₁, hmove, hcalls₀, hcalls₁⟩ :=
    Stage.alone_of_closes hfirst hopened.closed hshut.closed hlength
  rcases hlater.until_taken hcalls₁ fun stage hstage => hturns stage (.inr (.inr hstage)) with
    ⟨⟨call, hcall⟩, -⟩ | ⟨closing, rest, s₁, call, rfl, hclosing, hrest, hidle₁, hbegun, htaken⟩
  · rw [hidle] at hcall
    cases hcall
  obtain ⟨x₁, hshut₁⟩ := hshut.run hclosing
  rw [List.nil_append] at hshut₁
  -- If the operation is there to close the cursor, it has not got further than that.
  have hexplicit (hclose : (begun before).getLast? = some .close) : first.Explicit := by
    have hlast := congrArg List.getLast? hkinds
    rw [hcalls₀, List.getLast?_map, hclose, List.getLast?_map, List.getLast?_concat] at hlast
    have hmem : call₀ ∈ first.before.calls := by rw [hcalls₀]; exact List.mem_cons_self
    cases call₀ with
    | close y =>
      rw [hopened.marks y hmem] at hcalls₀
      exact ⟨0, hmove, by rw [hcalls₀]; rfl⟩
    | _ => cases hlast
  obtain ⟨ended, underway, hended, -, hresults, hnothing⟩ :=
    hrest.quiet_results hshut₁.closed hidle₁ fun stage hstage =>
      hturns stage (.inr (.inr (List.mem_append_right _ hstage)))
  rw [hidle] at hnothing
  cases hnothing
  rw [List.append_nil] at hended
  have hquiet := hrest.quiet hshut₁.closed hidle₁
  refine ⟨before, first, closing, rest, s₁, call, by rw [List.append_assoc, List.cons_append], ?_⟩
  exact
    { run := hbefore.append (hclosing.cons hfirst)
      later := hrest
      opened := fun stage hstage => (List.mem_append.mp hstage).elim (hopened.before stage)
        fun hfirst => List.mem_singleton.mp hfirst ▸ hopened.closed
      closed := fun stage hstage => (List.mem_append.mp hstage).elim (hshut₁.afterwards stage)
        fun hrest => (hquiet.2.1 stage hrest).closed
      closed_of_later := fun more s' hmore => (hmore.quiet hshut₁.closed hidle₁).1.closed
      idle := hidle₁
      taken := by
        have hsplit : before ++ first :: closing = before ++ ([first] ++ closing) := rfl
        rw [hsplit, takenBack, happened_append, happened_append, List.filterMap_append,
          List.filterMap_append]
        have hfirst : (happened [first]).filterMap Happening.takenBack? = [] := by
          simp [happened, hnone]
        rw [hfirst]
        exact congrArg (takenBack before ++ ·) htaken
      quiet := fun h hh => (List.mem_append.mp hh).elim (hopened.quiet h) (hquiet.2.2.1 h)
      settled := hshut₁.settled hidle₁ hexplicit htaken
      results := hended ▸ hresults
      keeps := fun more s' place s'' happenings hmore hmove' =>
        (hmore.quiet hshut₁.closed hidle₁).1.keeps hmove' }

/-- A stop query that fails, reported where the cursor is closed and to who is told of it, and three
operations after that. -/
theorem closing_once_failing_stop :
    ∃ stages s, Run (.ordinary 1 {}) (.opened true) stages s ∧
      released stages = [some .closed] ∧ (takenBack stages).length = 5 ∧
      ∃ before first closing rest s₁ call, stages = before ++ first :: closing ++ rest ∧
        ClosedOnce (.ordinary 1 {}) true before first closing rest s₁ s call := by
  have hmoves : ((System.opened true).stages? (.ordinary 1 {})
      [.begin (.extend ⟨.partialSequence, ["\"a\"", "\"b\""], none⟩), .call 0, .call 0, .collect 0,
        .begin .close, .call 0, .call 0, .call 0, .answerCall 0 (.failure .closed), .call 0,
        .collect 0,
        .begin (.next (t := .string) "kept"), .call 0, .collect 0,
        .begin (.extend ⟨.sequence, ["\"c\""], none⟩), .call 0, .call 0, .collect 0,
        .begin .close, .call 0, .collect 0]).any fun run =>
      (∀ stage ∈ run.1, stage.Sequential) ∧ run.2.calls.isEmpty = true ∧
      (begun run.1).getLast?.any Operation.isClose = true ∧ released run.1 = [some .closed] ∧
      (takenBack run.1).length = 5 := by
    decide +kernel
  obtain ⟨⟨stages, s⟩, hstages, hholds⟩ := (Option.any_eq_true _ _).mp hmoves
  obtain ⟨hturns, hidle, hclose, hreleased, hcount⟩ := of_decide_eq_true hholds
  have hdropped : (begun stages).getLast? = some .close := by
    obtain ⟨op, hop, hkind⟩ := (Option.any_eq_true _ _).mp hclose
    cases op with
    | close => exact hop
    | _ => cases hkind
  have hrun := Run.of_stages? hstages
  exact ⟨stages, s, hrun, hreleased, hcount,
    (closing_once hrun hturns hdropped (List.isEmpty_iff.mp hidle)).1⟩

end RowStream
