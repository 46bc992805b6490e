import RowStream.Proofs.Account

/-!
# No row is lost, duplicated or reordered

Between two advances the rows handed out, those in the queue and those of the unread texts are the
rows of the accepted replies.  An advance that closes the cursor without an error has found out
before that the rows of the replies accepted until then were handed out and that the last of these
replies was the last of its stream.
-/

namespace RowStream

variable {setup : Setup} {s s' : System} {stages : List Stage} {move : Move}
  {happenings : List Happening}

/-! ## 1. Advances in a move -/

theorem System.mem_advances {t : Target} {n : Next t} :
    ⟨t, n⟩ ∈ s.advances ↔ .next n ∈ s.calls := by
  rw [advances, List.mem_filterMap]
  constructor
  · rintro ⟨call, hmem, hcall⟩
    cases call with
    | next m =>
      cases hcall
      exact hmem
    | _ => cases hcall
  · exact fun hmem => ⟨_, hmem, rfl⟩

/-- Where an advance that is under way after a move comes from. -/
inductive Stems (setup : Setup) (s : System) (move : Move) (s' : System) {t : Target} :
    Next t → Prop
  | same {n : Next t} (hmem : .next n ∈ s.calls) : Stems setup s move s' n
  | woken {n : Next t} (hmem : .next n ∈ s.calls) : Stems setup s move s' n.wake
  | started (slot : t.Slot) : Stems setup s move s' (.start slot)
  | answered {n : Next t} {kind : Query.Kind} (a : Answer) (hmem : .next n ∈ s.calls)
    (hawaits : n.awaits? = some kind) (hcursor : s'.cursor = s.cursor) :
    Stems setup s move s' (n.answer a)
  | turned {n : Next t} {turn : Turn (Next t)} {place : Nat} (hmove : move = .call place)
    (hmem : s.calls[place]? = some (.next n)) (hstep : Next.Steps setup s.cursor n turn)
    (hcursor : s'.cursor = turn.cursor) : Stems setup s move s' turn.next

theorem next_of_wake {t : Target} {call : Call} {n : Next t} (h : call.wake = .next n) :
    ∃ m : Next t, call = .next m ∧ n = m.wake := by
  cases call with
  | next m => cases h; exact ⟨m, rfl, rfl⟩
  | _ => cases h

-- Only a turn of an advance leads to an advance.
theorem step_eq_next {c : Cursor} {call : Call} {turn : Turn Call} {t : Target} {n : Next t}
    (h : call.step setup c = some turn) (hnext : turn.next = .next n) :
    ∃ (m : Next t), call = .next m ∧ ∃ turn' : Turn (Next t), m.step setup c = some turn' ∧
      turn = turn'.map .next := by
  cases call with
  | next m =>
    obtain ⟨turn, hturn, rfl⟩ := Option.map_eq_some_iff.mp h
    cases hnext
    exact ⟨m, rfl, turn, hturn, rfl⟩
  | one | all | item | close | extend =>
    obtain ⟨turn, -, rfl⟩ := Option.map_eq_some_iff.mp h
    cases hnext

theorem stems_of_move {t : Target} {n : Next t} (hmove : s.move? setup move = some (s', happenings))
    (h : .next n ∈ s'.calls) : Stems setup s move s' n := by
  generalize hcall : Call.next n = call at h
  cases System.stems_of_move hmove h with
  | same hmem =>
    cases hcall
    exact .same hmem
  | woken hmem =>
    obtain ⟨m, rfl, rfl⟩ := next_of_wake hcall.symm
    exact .woken hmem
  | @begun op hbegin =>
    cases op with
    | next slot => cases hcall; exact .started slot
    | one | all | item | close | extend => cases hcall
  | turned hturns hturning hstep hcursor _ =>
    obtain ⟨m, rfl, turn, hturn, rfl⟩ := step_eq_next hstep hcall.symm
    cases hcall
    exact .turned hturns hturning (Next.steps_of_step hturn) hcursor
  | @answered place answered kind a _ hanswered hawaits hcursor =>
    cases answered with
    | next m =>
      cases hcall
      exact .answered a (List.mem_of_getElem? hanswered) hawaits hcursor
    | one | all | item | close | extend => cases hcall

/-! ## 2. The end of the rows -/

/-- Whether an advance has closed the cursor or found it closed. -/
def Next.PastMark {t : Target} (n : Next t) : Prop :=
  match n.phase with
  | .closing .mark => False
  | .closing _ | .done false => True
  | _ => False

/-- Whether an advance is about to close the cursor. -/
def System.Marks (s : System) : Prop :=
  ∃ (t : Target) (slot : t.Slot), .next ⟨slot, .closing .mark⟩ ∈ s.calls

/-- Whether an operation is an advance that is about to close the cursor. -/
def Call.marks : Call → Bool
  | next ⟨_, .closing .mark⟩ => true
  | _ => false

theorem System.marks_iff : s.Marks ↔ ∃ call ∈ s.calls, call.marks = true := by
  constructor
  · rintro ⟨t, slot, hmem⟩
    exact ⟨_, hmem, rfl⟩
  · rintro ⟨call, hmem, hmarks⟩
    unfold Call.marks at hmarks
    split at hmarks
    · exact ⟨_, _, hmem⟩
    · cases hmarks

instance (s : System) : Decidable s.Marks := decidable_of_iff _ System.marks_iff.symm

/-- Whether all rows accepted so far have been handed out, and no reply was to follow the last. -/
def AtEnd (setup : Setup) (stages : List Stage) : Prop :=
  Values (setup.acceptedRows stages) (handedOut stages) ∧
    ∃ last, (accepted stages).getLast? = some last ∧ last.isLast = true

/-- Whether there was a row, when the caller takes back an advance. -/
def Happening.advanced? : Happening → Option Bool
  | collected (.next n) => n.result?
  | _ => none

/-- Whether the caller takes back an advance that found no row. -/
def Stage.FindsNoRow (stage : Stage) : Prop :=
  some false ∈ stage.happenings.map Happening.advanced?

instance : DecidablePred Stage.FindsNoRow := fun stage =>
  inferInstanceAs (Decidable (some false ∈ stage.happenings.map Happening.advanced?))

/-- Whether the caller begins to close the cursor. -/
def Stage.Closes (stage : Stage) : Prop :=
  match stage.move with
  | .begin .close => True
  | _ => False

instance : DecidablePred Stage.Closes
  | ⟨_, .begin .close, _⟩ => isTrue trivial
  | ⟨_, .begin (.next _), _⟩ | ⟨_, .begin (.one _), _⟩ | ⟨_, .begin (.all _), _⟩
  | ⟨_, .begin (.item ..), _⟩ | ⟨_, .begin (.extend _), _⟩ | ⟨_, .call _, _⟩
  | ⟨_, .answerCall .., _⟩ | ⟨_, .collect _, _⟩ | ⟨_, .task _, _⟩ | ⟨_, .answerTask .., _⟩ =>
    isFalse id

/-- What is known of a run in which nobody but the advances closes the cursor.  From the moment on
at which one of them finds the end it is about to close the cursor, or the cursor is closed. -/
structure Ending (setup : Setup) (stages : List Stage) (s : System) : Prop where
  notClosing : ∀ x, .close x ∉ s.calls
  closed : ∀ (t : Target) (n : Next t), .next n ∈ s.calls → n.PastMark → s.cursor.closed = true
  returned : (∃ stage ∈ stages, stage.FindsNoRow) → s.cursor.closed = true
  found : s.cursor.error? = none → s.cursor.closed = true ∨ s.Marks →
    ∃ found late, stages = found ++ late ∧ AtEnd setup found ∧
      ∀ stage ∈ late, stage.before.cursor.closed = true ∨ stage.before.Marks

-- A move closes the cursor only if an advance was about to.
theorem closed_of_move (hplain : ∀ call ∈ s.calls, call.Plain) (hclose : ∀ x, .close x ∉ s.calls)
    (hmove : s.move? setup move = some (s', happenings)) :
    s'.cursor.closed = s.cursor.closed ∨ (s.Marks ∧ s'.cursor.closed = true) := by
  cases move with
  | begin op => cases hmove; exact .inl rfl
  | call place =>
    obtain ⟨before, call, later, turn, hcalls, rfl, hstep, rfl, rfl⟩ := System.move?_call hmove
    have hmem : call ∈ s.calls := hcalls ▸ List.mem_append_cons_self
    cases call with
    | next n =>
      obtain ⟨turn, hturn, rfl⟩ := Option.map_eq_some_iff.mp hstep
      refine (Next.steps_of_step hturn).closed_eq.imp_right fun ⟨hphase, hclosed⟩ => ⟨?_, hclosed⟩
      obtain ⟨slot, phase⟩ := n
      cases hphase
      exact ⟨_, slot, hmem⟩
    | extend f =>
      obtain ⟨turn, hturn, rfl⟩ := Option.map_eq_some_iff.mp hstep
      exact .inl (Fetch.steps_of_step hturn).closed_eq
    | close x => exact absurd hmem (hclose x)
    | one | all | item => exact (hplain _ hmem).elim
  | answerCall place a =>
    obtain ⟨before, call, later, kind, hcalls, rfl, hawaits, rfl, rfl⟩ :=
      System.move?_answerCall hmove
    exact .inl rfl
  | collect place =>
    obtain ⟨before, call, later, hcalls, rfl, hended, rfl, rfl⟩ := System.move?_collect hmove
    exact .inl rfl
  | task place =>
    obtain ⟨before, task, later, turn, htasks, rfl, hstep, rfl, rfl⟩ := System.move?_task hmove
    cases Task.steps_of_step hstep with
    | fetches hfetch => exact .inl hfetch.closed_eq
    | notices | reports | tells => exact .inl rfl
  | answerTask place a =>
    obtain ⟨before, task, later, kind, htasks, rfl, hawaits, rfl, rfl⟩ :=
      System.move?_answerTask hmove
    exact .inl rfl

theorem close_of_move {x : Close} (hmove : s.move? setup move = some (s', happenings))
    (h : .close x ∈ s'.calls) :
    (∃ y, .close y ∈ s.calls) ∨ (Stage.mk s move happenings).Closes := by
  have hafter {c : Cursor} {calls : List Call} {tasks : List Task} {events : List Event}
      (h : .close x ∈ (System.after c calls tasks events).calls) : .close x ∈ calls := by
    unfold System.after at h
    split at h
    · obtain ⟨call, hmem, hcall⟩ := List.mem_map.mp h
      cases call <;> cases hcall
      exact hmem
    · exact h
  cases move with
  | begin op =>
    cases hmove
    rcases List.mem_cons.mp h with hbegun | hmem
    · cases op with
      | close => exact .inr trivial
      | _ => cases hbegun
    · exact .inl ⟨x, hmem⟩
  | call place =>
    obtain ⟨before, call, later, turn, hcalls, rfl, hstep, rfl, rfl⟩ := System.move?_call hmove
    rw [hcalls]
    simp only [List.mem_append, List.mem_cons]
    rcases List.mem_append.mp (hafter h) with hmem | hmem
    · exact .inl ⟨x, .inl hmem⟩
    · rcases List.mem_cons.mp hmem with hnext | hmem
      · cases call with
        | close y => exact .inl ⟨y, .inr (.inl rfl)⟩
        | next | one | all | item | extend =>
          obtain ⟨inner, -, rfl⟩ := Option.map_eq_some_iff.mp hstep
          cases hnext
      · exact .inl ⟨x, .inr (.inr hmem)⟩
  | answerCall place a =>
    obtain ⟨before, call, later, kind, hcalls, rfl, hawaits, rfl, rfl⟩ :=
      System.move?_answerCall hmove
    rw [hcalls]
    simp only [List.mem_append, List.mem_cons] at h ⊢
    rcases h with hmem | hanswer | hmem
    · exact .inl ⟨x, .inl hmem⟩
    · cases call with
      | close y => exact .inl ⟨y, .inr (.inl rfl)⟩
      | _ => cases hanswer
    · exact .inl ⟨x, .inr (.inr hmem)⟩
  | collect place =>
    obtain ⟨before, call, later, hcalls, rfl, hended, rfl, rfl⟩ := System.move?_collect hmove
    refine .inl ⟨x, ?_⟩
    rw [hcalls]
    exact (List.mem_append.mp h).elim (List.mem_append_left _) fun h =>
      List.mem_append_right _ (List.mem_cons_of_mem _ h)
  | task place =>
    obtain ⟨before, task, later, turn, htasks, rfl, hstep, rfl, rfl⟩ := System.move?_task hmove
    exact .inl ⟨x, hafter h⟩
  | answerTask place a =>
    obtain ⟨before, task, later, kind, htasks, rfl, hawaits, rfl, rfl⟩ :=
      System.move?_answerTask hmove
    exact .inl ⟨x, h⟩

-- An advance that is about to close the cursor without an error has found the end.
theorem Next.Steps.finds_end {t : Target} {n : Next t} {turn : Turn (Next t)} {slot : t.Slot}
    (h : Next.Steps setup s.cursor n turn) (hnext : turn.next = ⟨slot, .closing .mark⟩)
    (herror : turn.cursor.error? = none) :
    turn.cursor.rows.toList = [] ∧ turn.cursor.batches.toList = [] ∧
      turn.cursor.finished = true := by
  cases h with
  | looks slot hsight hlooks =>
    cases hlooks with
    | finished hrows hbatches herror hfinished => exact ⟨hrows, hbatches, hfinished⟩
    | row hpop =>
      unfold Next.receive at hnext
      split at hnext <;> cases hnext
    | _ => cases hnext
  | @fetches slot f turn hstep =>
    rcases phase_ofFetch turn.next with hf | hf | hf | ⟨e, hf⟩ <;>
      simp only [Turn.map, hf] at hnext <;> cases hnext
  -- An advance that fails records an error first.
  | records slot e =>
    rw [Cursor.error?_record] at herror
    cases hc : s.cursor.error? <;> rw [hc] at herror <;> cases herror
  | closes slot hstep =>
    cases hstep with
    | tells finished r => cases finished <;> cases hnext
    | _ => cases hnext
  | _ => cases hnext

theorem Next.Steps.closed_of_pastMark {t : Target} {n : Next t} {turn : Turn (Next t)}
    (h : Next.Steps setup s.cursor n turn) (hn : n.PastMark → s.cursor.closed = true)
    (hpast : turn.next.PastMark) : turn.cursor.closed = true := by
  cases h with
  | ends slot hclosed => exact hclosed
  | looks slot hsight hlooks =>
    cases hlooks with
    | row hpop =>
      unfold Next.receive at hpast
      split at hpast <;> exact hpast.elim
    | _ => exact hpast.elim
  | @fetches slot f turn hstep =>
    rcases phase_ofFetch turn.next with hf | hf | hf | ⟨e, hf⟩ <;>
      simp only [Turn.map, hf] at hpast <;> exact hpast.elim
  | closes slot hstep =>
    cases hstep with
    | again hclosed => exact hclosed
    | marks => rfl
    | tells | stops | releases => exact hn trivial
  | enters | sleeps | records => exact hpast.elim

-- An advance comes to closing the cursor only by its own turn.
theorem turned_of_marks {t : Target} {slot : t.Slot}
    (hmove : s.move? setup move = some (s', happenings))
    (hmarks : .next ⟨slot, .closing .mark⟩ ∈ s'.calls)
    (hnew : .next ⟨slot, .closing .mark⟩ ∉ s.calls) :
    ∃ turn : Turn (Next t), s'.cursor = turn.cursor ∧ (∃ n, Next.Steps setup s.cursor n turn) ∧
      turn.next = ⟨slot, .closing .mark⟩ := by
  have hstems := stems_of_move hmove hmarks
  generalize hphase : (⟨slot, .closing .mark⟩ : Next t) = n at hstems
  cases hstems with
  | same hmem => exact absurd (hphase ▸ hmem) hnew
  | @woken m hmem =>
    obtain ⟨slot', phase⟩ := m
    cases phase <;> cases hphase
    exact absurd hmem hnew
  | started slot' => cases hphase
  | @answered m kind a hmem hawaits hcursor =>
    obtain ⟨slot', phase⟩ := m
    cases phase with
    | fetching f => cases hphase
    | closing x =>
      cases x with
      | waiting r => cases a <;> cases hphase
      | _ => cases hawaits
    | _ => cases hawaits
  | turned hplace hmem hstep hcursor => exact ⟨_, hcursor, ⟨_, hstep⟩, rfl⟩

-- An advance that found no row is past closing the cursor when it is taken back.
theorem pastMark_of_findsNoRow (hmove : s.move? setup move = some (s', happenings))
    (h : (Stage.mk s move happenings).FindsNoRow) :
    ∃ (t : Target) (n : Next t), .next n ∈ s.calls ∧ n.PastMark := by
  have hevents {events : List Event}
      (h : some false ∈ (events.map Happening.event).map Happening.advanced?) : False := by
    simp [Happening.advanced?] at h
  cases move with
  | begin op =>
    cases hmove
    cases List.mem_singleton.mp h
  | call place =>
    obtain ⟨before, call, later, turn, hcalls, rfl, hstep, rfl, rfl⟩ := System.move?_call hmove
    exact (hevents h).elim
  | answerCall place a =>
    obtain ⟨before, call, later, kind, hcalls, rfl, hawaits, rfl, rfl⟩ :=
      System.move?_answerCall hmove
    cases List.mem_singleton.mp h
  | collect place =>
    obtain ⟨before, call, later, hcalls, rfl, hended, rfl, rfl⟩ := System.move?_collect hmove
    have hresult := List.mem_singleton.mp h
    cases call with
    | next n =>
      refine ⟨_, n, hcalls ▸ List.mem_append_cons_self, ?_⟩
      obtain ⟨slot, phase⟩ := n
      cases phase with
      | done more => cases hresult; trivial
      | _ => cases hresult
    | _ => cases hresult
  | task place =>
    obtain ⟨before, task, later, turn, htasks, rfl, hstep, rfl, rfl⟩ := System.move?_task hmove
    exact (hevents h).elim
  | answerTask place a =>
    obtain ⟨before, task, later, kind, htasks, rfl, hawaits, rfl, rfl⟩ :=
      System.move?_answerTask hmove
    cases List.mem_singleton.mp h

theorem Account.atEnd {t : Target} {slot : t.Slot} (h : Account setup stages s)
    (hmarks : .next ⟨slot, .closing .mark⟩ ∈ s.calls) (hrows : s.cursor.rows.toList = [])
    (hbatches : s.cursor.batches.toList = []) (hfinished : s.cursor.finished = true) :
    AtEnd setup stages := by
  obtain ⟨taken, hand, unpacked, hvalues, hhand, haccount⟩ := h.rows
  have hmem : ⟨t, ⟨slot, .closing .mark⟩⟩ ∈ s.advances := System.mem_advances.mpr hmarks
  have hnone : hand = [] ∧ unpacked = [] := by
    generalize s.advances = advances at hhand hmem
    cases hhand with
    | none => cases hmem
    | one hhands =>
      cases List.mem_singleton.mp hmem
      exact ⟨hhands, rfl⟩
  obtain ⟨rfl, rfl⟩ := hnone
  rw [Cursor.unread, hrows, hbatches] at haccount
  simp only [List.append_nil, Setup.rowsOfAll_nil] at haccount
  refine ⟨haccount ▸ hvalues, ?_⟩
  have hlast := h.finished
  rw [hfinished] at hlast
  cases hgetLast : (accepted stages).getLast? with
  | none => rw [hgetLast] at hlast; cases hlast
  | some last => rw [hgetLast] at hlast; exact ⟨last, rfl, hlast.symm⟩

theorem Ending.step (h : Ending setup stages s) (hplain : ∀ call ∈ s.calls, call.Plain)
    (haccount : Account setup (stages ++ [⟨s, move, happenings⟩]) s')
    (hmove : s.move? setup move = some (s', happenings))
    (hopen : ¬ (Stage.mk s move happenings).Closes) :
    Ending setup (stages ++ [⟨s, move, happenings⟩]) s' := by
  have hclosed := closed_of_move hplain h.notClosing hmove
  have hkept (hs : s.cursor.closed = true) : s'.cursor.closed = true := by
    rcases hclosed with hsame | ⟨-, hclosed⟩
    · rw [hsame, hs]
    · exact hclosed
  refine
    { notClosing := fun x hx => ?_
      closed := fun t n hn hpast => ?_
      returned := fun ⟨stage, hstage, hfalse⟩ => ?_
      found := fun herror hend => ?_ }
  · rcases close_of_move hmove hx with ⟨y, hy⟩ | hclose
    · exact h.notClosing y hy
    · exact hopen hclose
  · cases stems_of_move hmove hn with
    | same hmem => exact hkept (h.closed t n hmem hpast)
    | @woken m hmem =>
      apply hkept (h.closed t m hmem _)
      obtain ⟨slot, phase⟩ := m
      cases phase <;> exact hpast
    | started slot => exact hpast.elim
    | @answered m kind a hmem hawaits hcursor =>
      rw [hcursor]
      apply h.closed t m hmem
      obtain ⟨slot, phase⟩ := m
      cases phase with
      | fetching f => exact hpast.elim
      | closing x => cases x with
        | waiting r => trivial
        | _ => cases hawaits
      | _ => cases hawaits
    | @turned m turn place hplace hmem hstep hcursor =>
      rw [hcursor]
      exact hstep.closed_of_pastMark (h.closed t m (List.mem_of_getElem? hmem)) hpast
  · apply hkept
    rcases List.mem_append.mp hstage with hstage | hlast
    · exact h.returned ⟨stage, hstage, hfalse⟩
    · cases List.mem_singleton.mp hlast
      obtain ⟨t, n, hmem, hpast⟩ := pastMark_of_findsNoRow hmove hfalse
      exact h.closed t n hmem hpast
  · have hnone : s.cursor.error? = none := by
      cases hs : s.cursor.error? with
      | none => rfl
      | some e => rw [System.error?_of_move hmove hs] at herror; cases herror
    -- Either the end had been found before, or it is found in this stage.
    by_cases hs : s.cursor.closed = true ∨ s.Marks
    · obtain ⟨found, late, rfl, hatEnd, hlate⟩ := h.found hnone hs
      refine ⟨found, late ++ [⟨s, move, happenings⟩], by rw [List.append_assoc], hatEnd, ?_⟩
      simp only [List.mem_append, List.mem_singleton]
      rintro stage (hstage | rfl)
      · exact hlate stage hstage
      · exact hs
    · refine ⟨_, [], (List.append_nil _).symm, ?_, fun stage hstage =>
        absurd hstage List.not_mem_nil⟩
      rcases hend with hend | ⟨t, slot, hmarks⟩
      · rcases hclosed with hsame | ⟨hmarks, -⟩
        · exact absurd (.inl (hsame ▸ hend)) hs
        · exact absurd (.inr hmarks) hs
      · obtain ⟨turn, hcursor, ⟨n, hstep⟩, hnext⟩ := turned_of_marks hmove hmarks fun hmem =>
          hs (.inr ⟨t, slot, hmem⟩)
        rw [hcursor] at herror
        obtain ⟨hrows, hbatches, hfinished⟩ := hstep.finds_end hnext herror
        rw [← hcursor] at hrows hbatches hfinished
        exact haccount.atEnd hmarks hrows hbatches hfinished

theorem Ending.opened (setup : Setup) (release : Bool) :
    Ending setup [] (System.opened release) where
  notClosing _ hx := absurd hx List.not_mem_nil
  closed _ _ hn := absurd hn List.not_mem_nil
  returned := fun ⟨_, hstage, _⟩ => absurd hstage List.not_mem_nil
  found _ hend := by
    rcases hend with hclosed | ⟨t, slot, hmarks⟩
    · cases hclosed
    · exact absurd hmarks List.not_mem_nil

/-! ## 3. The theorem -/

/-- Whether the cursor accepts a reply while an advance is about to close it. -/
def Stage.AcceptsLate (stage : Stage) : Prop := stage.accepted? ≠ none ∧ stage.before.Marks

instance : DecidablePred Stage.AcceptsLate := fun stage =>
  inferInstanceAs (Decidable (stage.accepted? ≠ none ∧ stage.before.Marks))

theorem acceptsLate_of_accepted {stage : Stage} (haccepted : stage.accepted? ≠ none)
    (hlate : stage.before.cursor.closed = true ∨ stage.before.Marks) : stage.AcceptsLate := by
  refine ⟨haccepted, hlate.resolve_left fun hclosed => haccepted ?_⟩
  rw [Stage.accepted?]
  cases stage.before.turning? stage.move with
  | none => rfl
  | some f => rw [Option.bind_some, Fetch.accepts?, if_pos hclosed]

/-- Whether a move keeps to the turns of one caller: it begins an operation when no other is under
way, and the fetches in the background go on while the operation under way has to wait, or between
two operations. -/
def Stage.InTurn (setup : Setup) (stage : Stage) : Prop :=
  match stage.move with
  | .begin _ => stage.before.calls = []
  | .task _ => ∀ call ∈ stage.before.calls, call.step setup stage.before.cursor = none
  | _ => True

theorem length_calls_after (c : Cursor) (calls : List Call) (tasks : List Task)
    (events : List Event) : (System.after c calls tasks events).calls.length = calls.length := by
  unfold System.after
  split
  · exact List.length_map _
  · rfl

-- In turn there is one operation under way at most.
theorem length_calls_of_move (hmove : s.move? setup move = some (s', happenings))
    (hturn : (Stage.mk s move happenings).InTurn setup) (h : s.calls.length ≤ 1) :
    s'.calls.length ≤ 1 := by
  cases move with
  | begin op =>
    cases hmove
    have hnone : s.calls = [] := hturn
    rw [hnone]
    exact Nat.le_refl 1
  | call place =>
    obtain ⟨before, call, later, turn, hcalls, rfl, hstep, rfl, rfl⟩ := System.move?_call hmove
    rw [hcalls] at h
    simpa only [length_calls_after, List.length_append, List.length_cons] using h
  | answerCall place a =>
    obtain ⟨before, call, later, kind, hcalls, rfl, hawaits, rfl, rfl⟩ :=
      System.move?_answerCall hmove
    rw [hcalls] at h
    simpa only [List.length_append, List.length_cons] using h
  | collect place =>
    obtain ⟨before, call, later, hcalls, rfl, hended, rfl, rfl⟩ := System.move?_collect hmove
    rw [hcalls] at h
    simp only [List.length_append, List.length_cons] at h ⊢
    omega
  | task place =>
    obtain ⟨before, task, later, turn, htasks, rfl, hstep, rfl, rfl⟩ := System.move?_task hmove
    rw [length_calls_after]
    exact h
  | answerTask place a =>
    obtain ⟨before, task, later, kind, htasks, rfl, hawaits, rfl, rfl⟩ :=
      System.move?_answerTask hmove
    exact h

-- The advance that is about to close the cursor is the only operation and does not wait, so
-- nobody is there to add a reply.
theorem not_acceptsLate_of_inTurn (hturn : (Stage.mk s move happenings).InTurn setup)
    (h : s.calls.length ≤ 1) : ¬ (Stage.mk s move happenings).AcceptsLate := by
  rintro ⟨haccepted, t, slot, hmem⟩
  have hcalls : s.calls = [.next ⟨slot, .closing .mark⟩] := by
    obtain ⟨call, hcall⟩ := List.length_eq_one_iff.mp
      (Nat.le_antisymm h (List.length_pos_of_mem hmem))
    rw [hcall] at hmem ⊢
    rw [List.mem_singleton.mp hmem]
  apply haccepted
  cases move with
  | call place =>
    apply Account.accepted?_eq_none
    rw [System.turning?, hcalls]
    cases place <;> rfl
  | task place =>
    have hwaits : (Call.next ⟨slot, .closing .mark⟩).step setup s.cursor = none :=
      hturn _ hmem
    simp only [Call.step, Next.step, Close.step, Option.map_eq_none_iff] at hwaits
    split at hwaits <;> cases hwaits
  | begin | answerCall | collect | answerTask => rfl

theorem Values.length_eq {rows : List Datum} {handed : List Handed} (h : Values rows handed) :
    rows.length = handed.length :=
  List.Forall₂.length_eq h

-- Where no reply is accepted after the end was found, no row is handed out after it, since there
-- is none left.
theorem AtEnd.append {found late : List Stage} {taken rest : List Datum}
    (h : AtEnd setup found) (hlate : ∀ stage ∈ late, stage.accepted? = none)
    (hvalues : Values taken (handedOut (found ++ late)))
    (hrows : taken ++ rest = setup.acceptedRows (found ++ late)) : AtEnd setup (found ++ late) := by
  obtain ⟨hfound, last, hlast, hisLast⟩ := h
  have haccepted : accepted (found ++ late) = accepted found := by
    rw [accepted, List.filterMap_append, List.filterMap_eq_nil_iff.mpr hlate, List.append_nil]
    rfl
  have hall : setup.acceptedRows (found ++ late) = setup.acceptedRows found := by
    rw [Setup.acceptedRows, haccepted]
    rfl
  have hhanded : handedOut (found ++ late) = handedOut found ++ handedOut late :=
    List.flatMap_append
  -- As many rows were handed out when the end was found as there are, so none is left.
  have hnone : handedOut late = [] ∧ rest = [] := by
    have htaken := hvalues.length_eq
    have hcount := congrArg List.length hrows
    rw [hhanded, List.length_append] at htaken
    rw [hall, List.length_append, hfound.length_eq] at hcount
    exact ⟨List.length_eq_zero_iff.mp (by omega), List.length_eq_zero_iff.mp (by omega)⟩
  refine ⟨?_, last, by rw [haccepted, hlast], hisLast⟩
  rw [← hrows, hnone.2, List.append_nil]
  exact hvalues

theorem Run.not_acceptsLate {release : Bool} (hrun : Run setup (.opened release) stages s)
    (hturns : ∀ stage ∈ stages, stage.InTurn setup) :
    s.calls.length ≤ 1 ∧ ∀ stage ∈ stages, ¬ stage.AcceptsLate := by
  have hstart : (System.opened release).calls.length ≤ 1 := Nat.zero_le 1
  refine hrun.invariant
    (fun stages s => s.calls.length ≤ 1 ∧ ∀ stage ∈ stages, ¬ stage.AcceptsLate)
    (Stage.InTurn setup) ⟨hstart, fun _ hstage => absurd hstage List.not_mem_nil⟩ ?_ hturns
  rintro stages s s' move happenings ⟨hlength, hcalm⟩ hmove hturn
  refine ⟨length_calls_of_move hmove hturn hlength, ?_⟩
  simp only [List.mem_append, List.mem_singleton]
  rintro stage (hstage | rfl)
  · exact hcalm stage hstage
  · exact not_acceptsLate_of_inTurn hturn hlength

/-- Whenever no advance is under way, the rows handed out, those in the queue and those of the
unread texts are the rows of the accepted replies in order.

If an advance has found no row on a cursor that nobody else has closed, and there is no error, then
all rows of the accepted replies have been handed out and no reply was to follow the last of them.
Where moves are not made in turn, this is so of the replies that the cursor had accepted when the
end was found, and of all unless the cursor has accepted one in the moment between an advance's
finding the end and its closing the cursor. -/
theorem rows_conserved {release : Bool} (hrun : Run setup (.opened release) stages s)
    (hreader : ∀ stage ∈ stages, stage.OneReader)
    (hdecodes : ∀ stage ∈ stages, ¬ stage.FailsToDecode setup) (hidle : s.advances = []) :
    (∃ taken, Values taken (handedOut stages) ∧
      taken ++ s.cursor.rows.toList ++ s.cursor.unread setup = setup.acceptedRows stages) ∧
    ((∃ stage ∈ stages, stage.FindsNoRow) → (∀ stage ∈ stages, ¬ stage.Closes) →
      s.cursor.error? = none →
        ((∀ stage ∈ stages, stage.InTurn setup) → AtEnd setup stages) ∧
        (∃ found late, stages = found ++ late ∧ AtEnd setup found ∧
          ∀ stage ∈ late, stage.accepted? ≠ none → stage.AcceptsLate) ∧
        ((∀ stage ∈ stages, ¬ stage.AcceptsLate) → AtEnd setup stages)) := by
  have haccount : Account setup stages s :=
    hrun.invariant (Account setup) (fun stage => stage.OneReader ∧ ¬ stage.FailsToDecode setup)
      (Account.opened setup release) (fun h hmove hkind => h.step hmove hkind.1 hkind.2)
      fun stage hstage => ⟨hreader stage hstage, hdecodes stage hstage⟩
  have hconserved : ∃ taken, Values taken (handedOut stages) ∧
      taken ++ s.cursor.rows.toList ++ s.cursor.unread setup = setup.acceptedRows stages := by
    obtain ⟨taken, hand, unpacked, hvalues, hhand, hrows⟩ := haccount.rows
    rw [hidle] at hhand
    cases hhand
    refine ⟨taken, hvalues, ?_⟩
    simpa only [List.append_nil] using hrows
  refine ⟨hconserved, fun hreturned hclose herror => ?_⟩
  -- The end needs the account beside it: that nothing is in hand follows from the account.
  have hending : Account setup stages s ∧ Ending setup stages s :=
    hrun.invariant (fun stages s => Account setup stages s ∧ Ending setup stages s)
      (fun stage => (stage.OneReader ∧ ¬ stage.FailsToDecode setup) ∧ ¬ stage.Closes)
      ⟨Account.opened setup release, Ending.opened setup release⟩
      (fun h hmove hkind =>
        have haccount := h.1.step hmove hkind.1.1 hkind.1.2
        ⟨haccount, h.2.step h.1.plain haccount hmove hkind.2⟩)
      fun stage hstage => ⟨⟨hreader stage hstage, hdecodes stage hstage⟩, hclose stage hstage⟩
  obtain ⟨found, late, rfl, hatEnd, hlate⟩ :=
    hending.2.found herror (.inl (hending.2.returned hreturned))
  have haccepts : ∀ stage ∈ late, stage.accepted? ≠ none → stage.AcceptsLate :=
    fun stage hstage haccepted => acceptsLate_of_accepted haccepted (hlate stage hstage)
  have hall (hcalm : ∀ stage ∈ found ++ late, ¬ stage.AcceptsLate) :
      AtEnd setup (found ++ late) := by
    have hnone : ∀ stage ∈ late, stage.accepted? = none := fun stage hstage =>
      Classical.byContradiction fun haccepted =>
        hcalm stage (List.mem_append_right _ hstage) (haccepts stage hstage haccepted)
    obtain ⟨taken, hvalues, hrows⟩ := hconserved
    rw [List.append_assoc] at hrows
    exact hatEnd.append hnone hvalues hrows
  refine ⟨fun hturns => hall ?_, ⟨found, late, rfl, hatEnd, haccepts⟩, hall⟩
  exact (hrun.not_acceptsLate hturns).2

/-- A reply that is added between two advances. -/
theorem rows_conserved_extended :
    ∃ stages s, Run (.ordinary 1 {}) (.opened false) stages s ∧ (handedOut stages).length = 2 ∧
      AtEnd (.ordinary 1 {}) stages := by
  have hmoves : ((System.opened false).stages? (.ordinary 1 {})
      [.begin (.extend ⟨.partialSequence, ["[\"a\"]", "[]"], none⟩),
        .call 0, .call 0, .collect 0,
        .begin (.next (t := .string) ""), .call 0, .call 0, .call 0, .collect 0,
        .begin (.extend ⟨.sequence, ["\"b\""], none⟩), .call 0, .call 0, .collect 0,
        .begin (.next (t := .string) ""), .call 0, .call 0, .call 0, .call 0, .collect 0,
        .begin (.next (t := .string) ""), .call 0, .call 0, .call 0, .call 0, .call 0,
        .collect 0]).any fun run =>
      (∀ stage ∈ run.1, stage.OneReader ∧ ¬ stage.FailsToDecode (.ordinary 1 {}) ∧
        ¬ stage.Closes ∧ ¬ stage.AcceptsLate) ∧
      run.2.advances = [] ∧ (∃ stage ∈ run.1, stage.FindsNoRow) ∧ run.2.cursor.error? = none ∧
      (handedOut run.1).length = 2 := by
    decide +kernel
  obtain ⟨⟨stages, s⟩, hstages, hholds⟩ := (Option.any_eq_true _ _).mp hmoves
  obtain ⟨hkind, hidle, hfound, herror, hcount⟩ := of_decide_eq_true hholds
  have hrun := Run.of_stages? hstages
  have h := rows_conserved hrun (fun stage hstage => (hkind stage hstage).1)
    (fun stage hstage => (hkind stage hstage).2.1) hidle
  have hend := h.2 hfound (fun stage hstage => (hkind stage hstage).2.2.1) herror
  exact ⟨stages, s, hrun, hcount, hend.2.2 fun stage hstage => (hkind stage hstage).2.2.2⟩

/-- A fetch is under way when a last reply is added.  Its own reply comes when the second advance has
found the end and not yet closed the cursor. -/
def lateReply : List Move :=
  [.begin (.extend ⟨.partialSequence, ["\"a\""], none⟩), .call 0, .call 0, .call 0, .collect 0,
    .task 0, .task 0, .task 0,
    .begin (.extend ⟨.sequence, [], none⟩), .call 0, .call 0, .collect 0,
    .begin (.next (t := .string) ""), .call 0, .call 0, .call 0, .collect 0,
    .begin (.next (t := .string) ""), .call 0, .call 0,
    .answerTask 0 (.reply ⟨.partialSequence, ["\"b\""], none⟩), .task 0,
    .call 0, .call 0, .call 0, .answerCall 0 (.reply ⟨.sequence, [], none⟩), .call 0, .collect 0]

/-- A reply that is accepted after the look and before the closing leaves its row behind and need not
be a last one, although the advance has found no row and there is no error. -/
theorem late_reply_not_handed_out :
    ∃ stages s, (System.opened false).stages? (.ordinary 1 {}) lateReply = some (stages, s) ∧
      (∀ stage ∈ stages, stage.OneReader ∧ ¬ stage.FailsToDecode (.ordinary 1 {}) ∧
        ¬ stage.Closes) ∧
      s.advances = [] ∧ (∃ stage ∈ stages, stage.FindsNoRow) ∧ s.cursor.error? = none ∧
      (handedOut stages).length = 1 ∧
      Setup.acceptedRows (.ordinary 1 {}) stages = [.string "a", .string "b"] ∧
      ¬ AtEnd (.ordinary 1 {}) stages := by
  have hmoves : ((System.opened false).stages? (.ordinary 1 {}) lateReply).any fun run =>
      (∀ stage ∈ run.1, stage.OneReader ∧ ¬ stage.FailsToDecode (.ordinary 1 {}) ∧
        ¬ stage.Closes) ∧
      run.2.advances = [] ∧ (∃ stage ∈ run.1, stage.FindsNoRow) ∧ run.2.cursor.error? = none ∧
      (handedOut run.1).length = 1 ∧
      (accepted run.1).flatMap Reply.texts = ["\"a\"", "\"b\""] := by
    decide +kernel
  obtain ⟨⟨stages, s⟩, hstages, hholds⟩ := (Option.any_eq_true _ _).mp hmoves
  obtain ⟨hkind, hidle, hfound, herror, hcount, htexts⟩ := of_decide_eq_true hholds
  have hrows : Setup.acceptedRows (.ordinary 1 {}) stages = [.string "a", .string "b"] := by
    rw [Setup.acceptedRows, htexts]
    cbv
  refine ⟨stages, s, hstages, hkind, hidle, hfound, herror, hcount, hrows, fun hatEnd => ?_⟩
  have hall := hatEnd.1.length_eq
  rw [hrows, hcount] at hall
  cases hall

end RowStream
