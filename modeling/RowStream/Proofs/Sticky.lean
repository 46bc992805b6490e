import RowStream.Proofs.Effort
import RowStream.Proofs.Runs

/-!
# Errors that a cursor has

Once a cursor has an error, an advance takes what is in the queues and closes the cursor; it asks
for nothing.  All rows and rows one by one end with that error, whatever goes on in the background.
The first row does too, unless it counts as null when it is looked at.
-/

namespace RowStream

variable {setup : Setup} {c : Cursor} {e : Error} {right : Error → Prop} {t : Target}

/-! ## 1. Closings and advances -/

/-- Whether a closing is under way. -/
def Close.Goes : Close → Prop
  | mark | wake .. | stop _ | waiting _ | release .. => True
  | done _ | aborted => False

namespace Close

variable {close : Close}

theorem Steps.goes {turn : Turn Close} (h : Steps c close turn) :
    turn.next.Goes ∨ ∃ stopError, turn.next = .done stopError := by
  cases h with
  | again => exact .inr ⟨_, rfl⟩
  | marks | stops => exact .inl trivial
  | tells finished => cases finished <;> exact .inl trivial
  | releases => exact .inr ⟨_, rfl⟩

theorem eq_stop_of_awaits? {kind : Query.Kind} (h : close.awaits? = some kind) : kind = .stop := by
  cases close <;> cases h
  rfl

theorem Goes.answer {a : Answer} (h : close.Goes) (ha : a ≠ .breakdown) :
    (close.answer a).Goes := by
  cases close with
  | waiting => cases a <;> first | exact absurd rfl ha | trivial
  | _ => exact h

theorem Goes.goesOn (h : close.Goes) (hstep : close.step c = none) :
    close.awaits? = some .stop := by
  cases close with
  | waiting => rfl
  | mark =>
    simp only [step] at hstep
    split at hstep <;> cases hstep
  | done | aborted => exact h.elim
  | _ => cases hstep

end Close

namespace Next

variable {n : Next t}

/-- Whether an advance neither fetches nor waits for a fetch. -/
def Direct (n : Next t) : Prop :=
  match n.phase with
  | .enter | .look | .refill _ | .failed _ | .done _ => True
  | .closing close => close.Goes
  | .fetching _ | .recheck | .asleep => False

-- On a cursor with an error, an advance goes on without a fetch.
theorem Steps.direct {turn : Turn (Next t)} (h : Steps setup c n turn) (hn : n.Direct)
    (he : c.error? = some e) : turn.next.Direct := by
  cases h with
  | enters | ends | records => trivial
  | @looks slot phase sight turn hsight hlooks =>
    have hsame : sight.error? = some e := (sight?_unchanged hsight).2.2.1.trans he
    cases hlooks with
    | row hpop =>
      unfold receive
      split <;> trivial
    -- With an error there is nothing more to ask for.
    | fetch hrows hbatches hopen =>
      simp only [Cursor.canContinue, hsame, Option.isNone_some, Bool.and_false] at hopen
      cases hopen
    | finished | batch | badBatch | error | closed => trivial
  | sleeps | fetches => exact hn.elim
  | @closes slot close turn hstep =>
    rcases hstep.goes with hgoes | ⟨stopError, hdone⟩
    · show Next.Direct ⟨slot, .ofClose turn.next⟩
      cases hnext : turn.next with
      | done => trivial
      | _ => rw [hnext] at hgoes; exact hgoes
    · show Next.Direct ⟨slot, .ofClose turn.next⟩
      rw [hdone]
      trivial

namespace Direct

theorem wake (h : n.Direct) : n.wake = n := by
  obtain ⟨slot, phase⟩ := n
  cases phase with
  | asleep => exact h.elim
  | _ => rfl

theorem eq_stop_of_awaits? {kind : Query.Kind} (h : n.Direct) (hawaits : n.awaits? = some kind) :
    kind = .stop := by
  obtain ⟨slot, phase⟩ := n
  cases phase with
  | fetching => exact h.elim
  | closing close => exact Close.eq_stop_of_awaits? hawaits
  | _ => cases hawaits

theorem answer {a : Answer} (h : n.Direct) (ha : a ≠ .breakdown) : (n.answer a).Direct := by
  obtain ⟨slot, phase⟩ := n
  cases phase with
  | fetching => exact h.elim
  | closing close => exact Close.Goes.answer h ha
  | _ => exact h

theorem goesOn (h : n.Direct) (hstep : n.step setup c = none) :
    n.result?.isSome = true ∨ n.awaits? = some .stop := by
  obtain ⟨slot, phase⟩ := n
  cases phase with
  | done more => exact .inl rfl
  | closing close => exact .inr (Close.Goes.goesOn h (Option.map_eq_none_iff.mp hstep))
  | fetching | recheck | asleep => exact h.elim
  | _ => cases hstep

end Direct

theorem result?_answer (n : Next t) (a : Answer) (h : n.result? = none) :
    (n.answer a).result? = none := by
  obtain ⟨slot, phase⟩ := n
  cases phase with
  | done more => cases h
  | _ => rfl

end Next

/-! ## 2. Extractions -/

/-- The extraction of the first row from a cursor with the error `e`, when it will fail with a right
one. -/
inductive One.Reports (e : Error) (right : Error → Prop) : One t → Prop
  | looks (slot : t.Slot) (hnull : right .emptyResult) (herror : right e) :
    Reports e right (.look slot)
  | advances {n : Next t} (herror : right e) (hdirect : n.Direct) (hnone : n.result? = none) :
    Reports e right (.advancing n)
  | judges (slot : t.Slot) (more : Bool) (herror : right e) : Reports e right (.judge slot more)
  | closes (slot : t.Slot) {r : Error} {close : Close} (hright : right r) (hgoes : close.Goes) :
    Reports e right (.closing slot (.failure r) close)
  | ended (slot : t.Slot) {r : Error} (hright : right r) : Reports e right (.done slot (.error r))

/-- The extraction of all rows from a cursor with an error. -/
inductive All.Reports (e : Error) : All t → Prop
  | advances (got spare : List t.Slot) {n : Next t} (hdirect : n.Direct)
    (hnone : n.result? = none) : Reports e (.advancing got spare n)
  | judges (got : List t.Slot) : Reports e (.judge got)
  | closes (got : List t.Slot) {close : Close} (hgoes : close.Goes) :
    Reports e (.closing got (.failure e) close)
  | ended (got : List t.Slot) : Reports e (.done got (.error e))

/-- The search for an item of the rows of a cursor with an error. -/
inductive NextItem.Reports (e : Error) : NextItem t → Prop
  | advances {n : Next t} (hdirect : n.Direct) (hnone : n.result? = none) : Reports e (.advancing n)
  | judges : Reports e .judge
  | found (slot : t.Slot) : Reports e (.done (some (.ok slot)))
  | ended : Reports e (.done (some (.error e)))

theorem One.Reports.step {o : One t} {turn : Turn (One t)} (h : o.Reports e right)
    (he : c.error? = some e) (hstep : o.step setup c = some turn) : turn.next.Reports e right := by
  cases h with
  | looks slot hnull herror =>
    cases hstep
    show (if c.isNil then _ else _ : One t).Reports e right
    split
    · exact .closes slot hnull trivial
    · exact .advances herror trivial rfl
  | advances herror hdirect hnone =>
    obtain ⟨inner, hinner, rfl⟩ := Option.map_eq_some_iff.mp hstep
    have hnext := (Next.steps_of_step hinner).direct hdirect he
    show (One.ofNext inner.next).Reports e right
    unfold ofNext
    split
    · exact .judges _ _ herror
    · exact .advances herror hnext (by assumption)
  | judges slot more herror =>
    cases hstep
    rw [he]
    exact .closes slot herror trivial
  | @closes slot r close hright hgoes =>
    obtain ⟨inner, hinner, rfl⟩ := Option.map_eq_some_iff.mp hstep
    show (One.ofClose slot (.failure r) inner.next).Reports e right
    rcases (Close.steps_of_step hinner).goes with hnext | ⟨stopError, hdone⟩
    · cases hclose : inner.next with
      | done stopError => exact .ended slot hright
      | _ => rw [hclose] at hnext; exact .closes slot hright hnext
    · rw [hdone]
      exact .ended slot hright
  | ended => cases hstep

theorem All.start_reports (got spare : List t.Slot) : (All.start got spare).Reports e := by
  cases spare <;> exact .advances _ _ trivial rfl

theorem All.Reports.step {a : All t} {turn : Turn (All t)} (h : a.Reports e)
    (he : c.error? = some e) (hstep : a.step setup c = some turn) : turn.next.Reports e := by
  cases h with
  | advances got spare hdirect hnone =>
    obtain ⟨inner, hinner, rfl⟩ := Option.map_eq_some_iff.mp hstep
    have hnext := (Next.steps_of_step hinner).direct hdirect he
    show (All.ofNext got spare inner.next).Reports e
    unfold ofNext
    split
    · exact start_reports _ _
    · exact .judges _
    · exact .advances _ _ hnext (by assumption)
  | judges got =>
    cases hstep
    rw [he]
    exact .closes got trivial
  | closes got hgoes =>
    obtain ⟨inner, hinner, rfl⟩ := Option.map_eq_some_iff.mp hstep
    show (All.ofClose got (.failure e) inner.next).Reports e
    rcases (Close.steps_of_step hinner).goes with hnext | ⟨stopError, hdone⟩
    · cases hclose : inner.next with
      | done stopError => exact .ended got
      | _ => rw [hclose] at hnext; exact .closes got hnext
    · rw [hdone]
      exact .ended got
  | ended => cases hstep

theorem NextItem.Reports.step {i : NextItem t} {turn : Turn (NextItem t)} (h : i.Reports e)
    (he : c.error? = some e) (hstep : i.step setup c = some turn) : turn.next.Reports e := by
  cases h with
  | advances hdirect hnone =>
    obtain ⟨inner, hinner, rfl⟩ := Option.map_eq_some_iff.mp hstep
    have hnext := (Next.steps_of_step hinner).direct hdirect he
    show (NextItem.ofNext inner.next).Reports e
    unfold ofNext
    split
    · exact .found _
    · exact .judges
    · exact .advances hnext (by assumption)
  | judges =>
    cases hstep
    rw [he]
    exact .ended
  | found | ended => cases hstep

/-! ## 3. Worlds -/

/-- The habit of collecting the items of the rows until there is none. -/
inductive Call.Collects (t : Target) : Call → Operation → Prop
  | more (slot : t.Slot) : Collects t (.item (.done (some (.ok slot)))) (.item t false)
  | last (e : Error) : Collects t (.item (t := t) (.done (some (.error e)))) (.item t true)

/-- The ways of extracting rows. -/
inductive Extraction
  | one
  | all
  | items

/-- The habit that goes with a way of extracting rows. -/
def Extraction.habit (t : Target) : Extraction → Call → Operation → Prop
  | one | all => Call.Suffices
  | items => Call.Collects t

theorem Extraction.effort_lt_of_habit {x : Extraction} {call : Call} {op : Operation}
    (h : x.habit t call op) (c : Cursor) : op.begin.effort setup c < call.effort setup c := by
  cases x with
  | one | all => exact h.elim
  | items =>
    cases h with
    | more => exact Nat.lt_succ_self 16
    | last => exact Nat.zero_lt_one

/-- The results so far and the operation under way of a caller that extracts rows from a cursor
with the error `e`. -/
inductive World.Reporting (t : Target) (e : Error) (right : Error → Prop) :
    Extraction → List Call → Call → Prop
  | one {o : One t} (h : o.Reports e right) : Reporting t e right .one [] (.one o)
  | all {a : All t} (h : a.Reports e) : Reporting t e right .all [] (.all a)
  | items (got : List t.Slot) {i : NextItem t} (h : i.Reports e) :
    Reporting t e right .items (got.map fun slot => .item (t := t) (.done (some (.ok slot))))
      (.item i)
  | collected (got : List t.Slot) :
    Reporting t e right .items
      ((got.map fun slot => .item (t := t) (.done (some (.ok slot)))) ++
        [.item (t := t) (.done (some (.error e)))])
      (.item (t := t) (.done none))

namespace World.Reporting

variable {x : Extraction} {results : List Call} {call : Call}

theorem step {turn : Turn Call} (h : Reporting t e right x results call) (he : c.error? = some e)
    (hstep : call.step setup c = some turn) : Reporting t e right x results turn.next := by
  cases h with
  | one h =>
    obtain ⟨inner, hinner, rfl⟩ := Option.map_eq_some_iff.mp hstep
    exact .one (h.step he hinner)
  | all h =>
    obtain ⟨inner, hinner, rfl⟩ := Option.map_eq_some_iff.mp hstep
    exact .all (h.step he hinner)
  | items got h =>
    obtain ⟨inner, hinner, rfl⟩ := Option.map_eq_some_iff.mp hstep
    exact .items got (h.step he hinner)
  | collected => cases hstep

theorem wake (h : Reporting t e right x results call) : call.wake = call := by
  cases h with
  | one h =>
    cases h with
    | advances _ hdirect => exact congrArg (fun n => Call.one (.advancing n)) hdirect.wake
    | _ => rfl
  | all h =>
    cases h with
    | advances got spare hdirect =>
      exact congrArg (fun n => Call.all (.advancing got spare n)) hdirect.wake
    | _ => rfl
  | items _ h =>
    cases h with
    | advances hdirect => exact congrArg (fun n => Call.item (.advancing n)) hdirect.wake
    | _ => rfl
  | collected => rfl

theorem eq_stop_of_awaits? {kind : Query.Kind} (h : Reporting t e right x results call)
    (hawaits : call.awaits? = some kind) : kind = .stop := by
  cases h with
  | one h =>
    cases h with
    | advances _ hdirect => exact hdirect.eq_stop_of_awaits? hawaits
    | closes => exact Close.eq_stop_of_awaits? hawaits
    | _ => cases hawaits
  | all h =>
    cases h with
    | advances _ _ hdirect => exact hdirect.eq_stop_of_awaits? hawaits
    | closes => exact Close.eq_stop_of_awaits? hawaits
    | _ => cases hawaits
  | items _ h =>
    cases h with
    | advances hdirect => exact hdirect.eq_stop_of_awaits? hawaits
    | _ => cases hawaits
  | collected => cases hawaits

theorem answer {a : Answer} (h : Reporting t e right x results call) (ha : a ≠ .breakdown) :
    Reporting t e right x results (call.answer a) := by
  cases h with
  | one h =>
    refine .one ?_
    cases h with
    | looks slot hnull herror => exact .looks slot hnull herror
    | advances herror hdirect hnone =>
      exact .advances herror (hdirect.answer ha) (Next.result?_answer _ a hnone)
    | closes slot hright hgoes => exact .closes slot hright (hgoes.answer ha)
    | judges slot more herror => exact .judges slot more herror
    | ended slot hright => exact .ended slot hright
  | all h =>
    refine .all ?_
    cases h with
    | advances got spare hdirect hnone =>
      exact .advances got spare (hdirect.answer ha) (Next.result?_answer _ a hnone)
    | closes got hgoes => exact .closes got (hgoes.answer ha)
    | judges got => exact .judges got
    | ended got => exact .ended got
  | items got h =>
    refine .items got ?_
    cases h with
    | advances hdirect hnone =>
      exact .advances (hdirect.answer ha) (Next.result?_answer _ a hnone)
    | judges => exact .judges
    | found slot => exact .found slot
    | ended => exact .ended
  | collected got => exact .collected got

-- The extraction takes a turn, has ended or waits for the stop query to be answered.
theorem goesOn (h : Reporting t e right x results call) (hstep : call.step setup c = none) :
    call.isDone = true ∨ call.awaits? = some .stop := by
  have hadvance {n : Next t} (hdirect : n.Direct) (hnone : n.result? = none)
      (hstep : n.step setup c = none) : n.awaits? = some .stop := by
    refine (hdirect.goesOn hstep).resolve_left fun hdone => ?_
    rw [hnone] at hdone
    cases hdone
  cases h with
  | one h =>
    have hstep := Option.map_eq_none_iff.mp hstep
    cases h with
    | advances _ hdirect hnone =>
      exact .inr (hadvance hdirect hnone (Option.map_eq_none_iff.mp hstep))
    | closes slot hright hgoes => exact .inr (hgoes.goesOn (Option.map_eq_none_iff.mp hstep))
    | looks | judges => cases hstep
    | ended => exact .inl rfl
  | all h =>
    have hstep := Option.map_eq_none_iff.mp hstep
    cases h with
    | advances got spare hdirect hnone =>
      exact .inr (hadvance hdirect hnone (Option.map_eq_none_iff.mp hstep))
    | closes got hgoes => exact .inr (hgoes.goesOn (Option.map_eq_none_iff.mp hstep))
    | judges => cases hstep
    | ended => exact .inl rfl
  | items _ h =>
    have hstep := Option.map_eq_none_iff.mp hstep
    cases h with
    | advances hdirect hnone =>
      exact .inr (hadvance hdirect hnone (Option.map_eq_none_iff.mp hstep))
    | judges => cases hstep
    | found | ended => exact .inl rfl
  | collected => exact .inl rfl

theorem again {op : Operation} (h : Reporting t e right x results call)
    (hhabit : x.habit t call op) : Reporting t e right x (results ++ [call]) op.begin := by
  cases h with
  | one | all => exact hhabit.elim
  | items got h =>
    cases hhabit with
    | more slot =>
      have hgot : ((got ++ [slot]).map fun slot => Call.item (t := t) (.done (some (.ok slot)))) =
          (got.map fun slot => .item (t := t) (.done (some (.ok slot)))) ++
            [.item (t := t) (.done (some (.ok slot)))] := List.map_append
      rw [← hgot]
      exact .items (got ++ [slot]) (.advances trivial rfl)
    | last e' =>
      cases h
      exact .collected got
  | collected => cases hhabit

end World.Reporting

/-- The invariant of a caller on a cursor with an error. -/
structure World.KeepsError (t : Target) (e : Error) (right : Error → Prop) (x : Extraction)
    (w : World) : Prop where
  calls : ∃ call, w.system.calls = [call] ∧ Reporting t e right x w.results call
  error : w.system.cursor.error? = some e
  stop : w.stop ≠ .breakdown

namespace World.KeepsError

variable {schedule : Schedule} {x : Extraction} {w w' : World}

theorem step (h : w.KeepsError t e right x) (hworld : Step setup schedule (x.habit t) w w') :
    w'.KeepsError t e right x := by
  obtain ⟨⟨c, calls, tasks⟩, answers, stop, results⟩ := w
  obtain ⟨⟨call, rfl, hreporting⟩, herror, hstop⟩ := h
  cases turns_of_step hworld with
  | @call turn hstep =>
    exact ⟨⟨_, rfl, hreporting.step herror hstep⟩, Call.error?_step hstep herror, hstop⟩
  | @task before later task turn hadmits htasks hstep =>
    refine ⟨⟨call, ?_, hreporting⟩, Task.error?_step hstep herror, hstop⟩
    simp only [System.after, List.map_singleton, hreporting.wake, ite_self]
  | answerCall hawaits => cases hreporting.eq_stop_of_awaits? hawaits
  | answerTask => exact ⟨⟨call, rfl, hreporting⟩, herror, hstop⟩
  | stopped => exact ⟨⟨_, rfl, hreporting.answer hstop⟩, herror, hstop⟩
  | again hdone hhabit => exact ⟨⟨_, rfl, hreporting.again hhabit⟩, herror, hstop⟩

theorem goesOn (h : w.KeepsError t e right x) :
    w.Over (x.habit t) ∨ ∃ later, Step setup schedule (x.habit t) w later := by
  obtain ⟨⟨c, calls, tasks⟩, answers, stop, results⟩ := w
  obtain ⟨⟨call, rfl, hreporting⟩, herror, hstop⟩ := h
  cases hstep : call.step setup c with
  | some turn => exact .inr (goesOn_call hstep)
  | none =>
    rcases hreporting.goesOn hstep with hdone | hawaits
    -- Whether the caller goes on from the result is a matter of its habit.
    · by_cases hhabit : ∃ op, x.habit t call op
      · obtain ⟨op, hhabit⟩ := hhabit
        exact .inr ⟨_, .again rfl hdone hhabit⟩
      · exact .inl ⟨call, rfl, hdone, fun op hop => hhabit ⟨op, hop⟩⟩
    · exact .inr (goesOn_stopped hawaits)

-- A caller on a cursor with an error gets a result, whatever the schedule and the answers.
theorem returns {start : World} (h : start.KeepsError t e right x) :
    Returns setup schedule (x.habit t) start fun w =>
      ∃ call, w.system.calls = [call] ∧ call.isDone = true ∧ (∀ op, ¬ x.habit t call op) ∧
        Reporting t e right x w.results call := by
  apply returns_of_invariant (fun w => w.KeepsError t e right x) (World.effort setup) h
  · exact fun w w' hw hstep => hw.step hstep
  · intro w w' hw hstep
    obtain ⟨call, hcalls, -⟩ := hw.calls
    exact effort_lt_of_step hcalls
      (fun _ _ c hhabit => Extraction.effort_lt_of_habit hhabit c) hstep
  · exact fun w hw => hw.goesOn
  · rintro w hw ⟨call, hcalls, hdone, hlast⟩
    obtain ⟨call', hcalls', hreporting⟩ := hw.calls
    rw [List.singleton_inj.mp (hcalls'.symm.trans hcalls)] at hreporting
    exact ⟨call, hcalls, hdone, hlast, hreporting⟩

-- The extraction of the first row fails with a right error.
theorem one_returns_error {start : World} (h : start.KeepsError t e right .one) :
    Returns setup schedule Call.Suffices start fun w =>
      ∃ (left : t.Slot) (r : Error), right r ∧ w.system.calls = [.one (.done left (.error r))] := by
  apply h.returns.mono
  rintro w ⟨call, hcalls, hdone, -, hreporting⟩
  generalize w.results = results at hreporting
  cases hreporting with
  | one h =>
    cases h with
    | ended left hright => exact ⟨left, _, hright, hcalls⟩
    | _ => cases hdone

end World.KeepsError

/-! ## 4. The theorem -/

/-- No extraction from a cursor that has an error succeeds.  Whatever the schedule and whatever
fetches bring, all rows fail with the error, the items of the rows end with it, and the first row
fails with it or for want of a row: for want of a row exactly if the cursor counts as null in the
step that looks at it. -/
theorem extraction_reports_error (setup : Setup) (t : Target) (schedule : Schedule) (s : System)
    {e : Error} (he : s.cursor.error? = some e) (answers : List Answer) (stop : Answer)
    (hstop : stop ≠ .breakdown) :
    (∀ initial : List t.Slot,
      World.Returns setup schedule Call.Suffices
        (World.alone s (Operation.all initial).begin answers stop) fun w =>
          ∃ got : List t.Slot, w.system.calls = [.all (.done got (.error e))]) ∧
    (World.Returns setup schedule (Call.Collects t)
      (World.alone s (Operation.item t false).begin answers stop) fun w =>
        ∃ got : List t.Slot,
          w.results = (got.map fun slot => .item (t := t) (.done (some (.ok slot)))) ++
            [.item (t := t) (.done (some (.error e)))] ∧
          w.system.calls = [.item (t := t) (.done none)]) ∧
    (∀ slot : t.Slot,
      World.Returns setup schedule Call.Suffices
        (World.alone s (Operation.one slot).begin answers stop) fun w =>
          ∃ (left : t.Slot) (r : Error), (r = .emptyResult ∨ r = e) ∧
            w.system.calls = [.one (.done left (.error r))]) ∧
    (∀ (slot : t.Slot) (turn : Turn (One t)), (One.look slot).step setup s.cursor = some turn →
      World.Returns setup schedule Call.Suffices
        (World.alone { s with cursor := turn.cursor } (.one turn.next) answers stop) fun w =>
          ∃ (left : t.Slot) (r : Error), (r = if s.cursor.isNil then .emptyResult else e) ∧
            w.system.calls = [.one (.done left (.error r))]) := by
  refine ⟨fun initial => ?_, ?_, fun slot => ?_, fun slot turn hlook => ?_⟩
  · have hkeeps : World.KeepsError t e (· = e) .all
        (World.alone s (Operation.all initial).begin answers stop) :=
      ⟨⟨_, rfl, .all (All.start_reports [] initial)⟩, he, hstop⟩
    apply hkeeps.returns.mono
    rintro w ⟨call, hcalls, hdone, -, hreporting⟩
    generalize w.results = results at hreporting
    cases hreporting with
    | all h =>
      cases h with
      | ended got => exact ⟨got, hcalls⟩
      | _ => cases hdone
  · have hkeeps : World.KeepsError t e (· = e) .items
        (World.alone s (Operation.item t false).begin answers stop) :=
      ⟨⟨_, rfl, .items [] (.advances trivial rfl)⟩, he, hstop⟩
    apply hkeeps.returns.mono
    rintro w ⟨call, hcalls, hdone, hlast, hreporting⟩
    generalize w.results = results at hreporting ⊢
    cases hreporting with
    | items got h =>
      cases h with
      | found slot => exact absurd (.more slot) (hlast _)
      | ended => exact absurd (.last e) (hlast _)
      | _ => cases hdone
    | collected got => exact ⟨got, rfl, hcalls⟩
  · exact World.KeepsError.one_returns_error
      ⟨⟨_, rfl, .one (.looks slot (.inl rfl) (.inr rfl))⟩, he, hstop⟩
  · cases hlook
    apply World.KeepsError.one_returns_error
    refine ⟨⟨_, rfl, .one ?_⟩, he, hstop⟩
    show (if s.cursor.isNil then _ else _ : One t).Reports e _
    split
    · exact .closes slot rfl trivial
    · exact .advances rfl trivial rfl

/-- After an error reply all rows fail with the error, and the first row for want of a row. -/
theorem extraction_after_error_reply :
    (World.Returns (.ordinary 1 {}) .anywhere Call.Suffices
      (World.alone { cursor := Cursor.accept {} ⟨.runtimeError, ["\"boom\""], none⟩ }
        (Operation.all (t := .string) []).begin [] (.failure .closed)) fun w =>
      ∃ got : List String,
        w.system.calls = [.all (t := .string) (.done got (.error (.server .runtime "boom")))]) ∧
    (World.Returns (.ordinary 1 {}) .anywhere Call.Suffices
      (World.alone { cursor := Cursor.accept {} ⟨.runtimeError, ["\"boom\""], none⟩ }
        (.one (t := .string) (.closing "" (.failure .emptyResult) .mark)) [] (.failure .closed))
      fun w => ∃ (left : String) (r : Error), r = .emptyResult ∧
        w.system.calls = [.one (t := .string) (.done left (.error r))]) := by
  have he : (Cursor.accept {} ⟨.runtimeError, ["\"boom\""], none⟩).error? =
      some (.server .runtime "boom") := by rfl
  have h := extraction_reports_error (.ordinary 1 {}) .string .anywhere
    { cursor := Cursor.accept {} ⟨.runtimeError, ["\"boom\""], none⟩ } he [] (.failure .closed)
    nofun
  exact ⟨h.1 [], h.2.2.2 "" _ rfl⟩

end RowStream
