import Mathlib
import RowStream.Proofs.Effort
import RowStream.Proofs.Gate
import RowStream.Proofs.Reading

/-!
# Extracting the first row

Without fetches in the background, the extraction of the first row returns its value, unless the
row at hand is null, none is at hand, or there is no row to come.
-/

namespace RowStream

/-! ## 1. What the extraction returns -/

/-- The rows that advances have still to hand out: those queued, those of the unread texts and,
unless the stream has ended, those of the outcomes to come. -/
def Cursor.rowsAhead (setup : Setup) (c : Cursor) (supply : Supply) : List Datum :=
  c.rows.toList ++ setup.rowsOfAll (c.outlook supply)

/-- Whether a destination and a result are right for the first of some rows, extracted from a
cursor. -/
structure Cursor.FirstIs {t : Target} (c : Cursor) (rows : List Datum) (slot : t.Slot)
    (result : Except Error Unit) : Prop where
  /-- Without an error there is no row if the cursor counts as null or there are none. -/
  noRow : c.error? = none → c.isNil = true ∨ rows = [] → result = .error .emptyResult
  /-- Otherwise the first row is decoded, if it is not null. -/
  row : c.error? = none → c.isNil = false → ∀ row later, rows = row :: later →
    row.isNull = false → result = .ok () ∧ t.value? row = some slot
  /-- An error that the cursor has already stands for the row. -/
  error : ∀ e, c.error? = some e → c.isNil = false → result = .error e

theorem Cursor.firstIs_of_isNil {t : Target} {c : Cursor} (rows : List Datum) (slot : t.Slot)
    (h : c.isNil = true) : c.FirstIs rows slot (.error .emptyResult) where
  noRow _ _ := rfl
  row _ hnil := by
    rw [h] at hnil
    cases hnil
  error _ _ hnil := by
    rw [h] at hnil
    cases hnil

/-- Whether a closing is under way and has met no error. -/
def Close.Smooth : Close → Prop
  | mark | wake .. | stop _ | waiting _ => True
  | release _ stopError => stopError = none
  | done _ | aborted => False

namespace One

variable {t : Target}

/-- The extraction of the first row of a stream from a cursor that was at first in a given state. -/
inductive Extracts (s : Stream) (start c : Cursor) (supply : Supply) : One t → Prop
  | looks (slot : t.Slot) (hstart : c = start)
    (hreads : (Next.start slot).Reads s c [] supply []) : Extracts s start c supply (.look slot)
  | advances {n : Next t} (hnil : start.isNil = false) (hreads : n.Reads s c [] supply [])
    (hnone : n.result? = none) : Extracts s start c supply (.advancing n)
  | judges {slot : t.Slot} {more : Bool} (hnil : start.isNil = false)
    (hreads : (⟨slot, .done more⟩ : Next t).Reads s c [] supply []) :
    Extracts s start c supply (.judge slot more)
  | closes {slot : t.Slot} {verdict : Verdict} {close : Close}
    (hright : start.FirstIs s.rows slot (verdict.result none)) (hsmooth : close.Smooth) :
    Extracts s start c supply (.closing slot verdict close)
  | ended {slot : t.Slot} {result : Except Error Unit} (hright : start.FirstIs s.rows slot result) :
    Extracts s start c supply (.done slot result)

namespace Extracts

variable {s : Stream} {start c : Cursor} {supply : Supply} {o : One t}

theorem ofNext {n : Next t} (hnil : start.isNil = false) (hreads : n.Reads s c [] supply []) :
    Extracts s start c supply (.ofNext n) := by
  obtain ⟨slot, phase⟩ := n
  cases phase with
  | done more => exact .judges hnil hreads
  | _ => exact .advances hnil hreads rfl

theorem ofClose {slot : t.Slot} {verdict : Verdict} {turn : Turn Close} {close : Close}
    (hright : start.FirstIs s.rows slot (verdict.result none)) (hsmooth : close.Smooth)
    (hstep : Close.Steps c close turn) :
    Extracts s start turn.cursor supply (.ofClose slot verdict turn.next) := by
  cases hstep with
  | again => exact .ended hright
  | marks | stops => exact .closes hright trivial
  | tells finished r => cases finished <;> exact .closes hright (by first | rfl | trivial)
  | releases r stopError line =>
    cases hsmooth
    exact .ended hright

-- Once the advance has ended, the error and whether there was a row decide.
theorem judge {slot : t.Slot} {more : Bool} (hfinal : s.final = start.error?) (hcalm : s.calm)
    (hnil : start.isNil = false) (hkept : ∀ e, start.error? = some e → c.error? = some e)
    (hreads : (⟨slot, .done more⟩ : Next t).Reads s c [] supply []) :
    Extracts s start c supply
      (.closing slot
        (match c.error? with
          | some e => .failure e
          | none => if more then .success else .noRow) .mark) := by
  refine .closes ?_ trivial
  cases hstart : start.error? with
  | some e =>
    rw [hkept e hstart]
    exact
      { noRow := fun hnone => by rw [hstart] at hnone; cases hnone
        row := fun hnone => by rw [hstart] at hnone; cases hnone
        error := fun e' he' _ => by rw [hstart] at he'; cases he'; rfl }
  | none =>
    -- The replies to come carry no error, so none has been recorded on the way.
    have hnone : c.error? = none := by
      by_cases hlive : c.Live
      · exact hlive.2
      · rw [hreads.course.error?_of_over hlive, hfinal, hstart]
    have hother (e : Error) (he : start.error? = some e) : False := by
      rw [hstart] at he
      cases he
    rw [hnone]
    cases more with
    | true =>
      obtain ⟨_, ⟨row, rfl, hvalue⟩, hrows⟩ := hreads.account
      exact
        { noRow := fun _ hnone => by
            rw [← hrows, hnil] at hnone
            rcases hnone with hnone | hnone <;> cases hnone
          row := fun _ _ first later hfirst _ => by
            rw [← hrows] at hfirst
            cases hfirst
            exact ⟨rfl, hvalue⟩
          error := fun e he => (hother e he).elim }
    | false =>
      have hempty : [] = s.rows := hreads.ended.2.2.2 hcalm
      exact
        { noRow := fun _ _ => rfl
          row := fun _ _ row later hrow => by rw [← hempty] at hrow; cases hrow
          error := fun e he => (hother e he).elim }

theorem turn {turn : Turn (One t)} (h : Extracts s start c supply o)
    (hfinal : s.final = start.error?) (hcalm : s.calm)
    (hkept : ∀ e, start.error? = some e → c.error? = some e)
    (hstep : o.step s.setup c = some turn) : Extracts s start turn.cursor supply turn.next := by
  cases h with
  | looks slot hstart hreads =>
    cases hstep
    cases hnil : c.isNil with
    | true =>
      rw [hstart] at hnil
      exact .closes (Cursor.firstIs_of_isNil s.rows slot hnil) trivial
    | false =>
      rw [hstart] at hnil
      exact .advances hnil hreads rfl
  | advances hnil hreads hnone =>
    obtain ⟨inner, hinner, rfl⟩ := Option.map_eq_some_iff.mp hstep
    exact ofNext hnil (hreads.turn hinner)
  | judges hnil hreads =>
    cases hstep
    exact judge hfinal hcalm hnil hkept hreads
  | closes hright hsmooth =>
    obtain ⟨inner, hinner, rfl⟩ := Option.map_eq_some_iff.mp hstep
    exact ofClose hright hsmooth (Close.steps_of_step hinner)
  | ended => cases hstep

theorem answer {outcome : Except Error Reply} (h : Extracts s start c (outcome :: supply) o)
    (hawaits : o.awaits? = some .more) :
    Extracts s start c supply (o.answer (.ofOutcome outcome)) := by
  cases h with
  | @advances n hnil hreads hnone =>
    refine .advances hnil (hreads.answer hawaits) ?_
    obtain ⟨slot, phase⟩ := n
    cases phase with
    | fetching | closing => rfl
    | _ => cases hawaits
  | @closes slot verdict close hright hsmooth => cases close <;> cases hawaits
  | looks | judges | ended => cases hawaits

theorem stopped (h : Extracts s start c supply o) (hawaits : o.awaits? = some .stop)
    (r : Reply) : Extracts s start c supply (o.answer (.reply r)) := by
  cases h with
  | @advances n hnil hreads hnone =>
    refine .advances hnil (hreads.stopped hawaits nofun) ?_
    obtain ⟨slot, phase⟩ := n
    cases phase with
    | fetching | closing => rfl
    | _ => cases hawaits
  | @closes slot verdict close hright hsmooth =>
    cases close with
    | waiting => exact .closes hright rfl
    | _ => cases hawaits
  | looks | judges | ended => cases hawaits

-- An advance waits for more rows only if there is none at hand.
theorem rows_eq_nil_of_waiting {n : Next t} (hschedule : s.schedule = .betweenCalls)
    (hreads : n.Reads s c [] [] []) (hmem : .waiting ∈ n.holders []) : s.rows = [] := by
  obtain ⟨⟨left, hleft, hrows⟩, -⟩ := Next.reads_iff.mp hreads
  rw [← hrows, List.map_eq_nil_iff.mp (hleft.eq_nil_of_waiting hschedule hmem)]
  rfl

-- The extraction takes a turn, waits for an answer that is still to come, or has ended.
theorem goesOn (h : Extracts s start c supply o) (hschedule : s.schedule = .betweenCalls)
    (hshort : s.short → s.rows ≠ []) (hstep : o.step s.setup c = none) :
    o.result?.isSome = true ∨ o.awaits? = some .stop ∨ (o.awaits? = some .more ∧ supply ≠ []) := by
  cases h with
  | looks | judges => cases hstep
  | ended => exact .inl rfl
  | @closes slot verdict close hright hsmooth =>
    cases close with
    | waiting => exact .inr (.inl rfl)
    | mark =>
      simp only [One.step, Close.step, Option.map_eq_none_iff] at hstep
      split at hstep <;> cases hstep
    | done | aborted => exact hsmooth.elim
    | _ => cases hstep
  | advances hnil hreads hnone =>
    rcases hreads.goesOn (Option.map_eq_none_iff.mp hstep) with ⟨more, hdone⟩ | hawaits | hasleep |
      ⟨hawaits, hmem⟩
    · rw [Next.result?, hdone] at hnone
      cases hnone
    · exact .inr (.inl hawaits)
    · obtain ⟨task, htask, -⟩ := hreads.task_goesOn hasleep
      cases htask
    · refine .inr (.inr ⟨hawaits, ?_⟩)
      rintro rfl
      exact hshort (hreads.course.short_of_waiting hmem)
        (rows_eq_nil_of_waiting hschedule hreads hmem)

end Extracts
end One

/-! ## 2. The world of a caller that extracts the first row -/

/-- The invariant of a caller that extracts the first row. -/
structure World.ExtractsFirst (s : Stream) (start : Cursor) {t : Target} (w : World) (o : One t)
    (supply : Supply) : Prop where
  calls : w.system.calls = [.one o]
  tasks : w.system.tasks = []
  answers : w.answers = supply.map .ofOutcome
  stop : ∃ r, w.stop = .reply r
  kept : ∀ e, start.error? = some e → w.system.cursor.error? = some e
  extracts : o.Extracts s start w.system.cursor supply

namespace World.ExtractsFirst

variable {t : Target} {s : Stream} {start : Cursor} {w w' : World} {o : One t} {supply : Supply}
  {schedule : Schedule}

theorem step (h : w.ExtractsFirst s start o supply) (hfinal : s.final = start.error?)
    (hcalm : s.calm) (hprefetch : s.setup.options.prefetch = false)
    (hworld : Step s.setup schedule Call.Suffices w w') :
    ∃ (o : One t) (supply : Supply), w'.ExtractsFirst s start o supply := by
  obtain ⟨⟨c, calls, tasks⟩, answers, stop, results⟩ := w
  obtain ⟨rfl, rfl, hanswers, hstop, hkept, hextracts⟩ := h
  cases turns_of_step hworld with
  | @call turn hstep =>
    have hquiet := (Call.steps_of_step hstep).countP_schedules hprefetch
    have hkept' (e : Error) (he : start.error? = some e) : turn.cursor.error? = some e :=
      Call.error?_step hstep (hkept e he)
    obtain ⟨inner, hinner, rfl⟩ := Option.map_eq_some_iff.mp hstep
    refine ⟨inner.next, supply, rfl, ?_, hanswers, hstop, hkept',
      hextracts.turn hfinal hcalm hkept hinner⟩
    rw [hquiet]
    rfl
  | task hadmits htasks => exact absurd htasks.symm (List.append_ne_nil_of_right_ne_nil _ nofun)
  | @answerCall a rest hawaits hrest =>
    cases supply with
    | nil => rw [hrest] at hanswers; cases hanswers
    | cons outcome supply =>
      rw [hrest] at hanswers
      cases hanswers
      exact ⟨_, supply, rfl, rfl, rfl, hstop, hkept, hextracts.answer hawaits⟩
  | answerTask htasks => exact absurd htasks.symm (List.append_ne_nil_of_right_ne_nil _ nofun)
  | stopped hawaits =>
    obtain ⟨r, rfl⟩ := hstop
    exact ⟨_, supply, rfl, rfl, hanswers, ⟨r, rfl⟩, hkept, hextracts.stopped hawaits r⟩
  | again hdone hhabit => exact hhabit.elim

theorem goesOn (h : w.ExtractsFirst s start o supply) (hschedule : s.schedule = .betweenCalls)
    (hshort : s.short → s.rows ≠ []) :
    w.Over Call.Suffices ∨ ∃ later, Step s.setup schedule Call.Suffices w later := by
  obtain ⟨⟨c, calls, tasks⟩, answers, stop, results⟩ := w
  obtain ⟨rfl, rfl, hanswers, hstop, hkept, hextracts⟩ := h
  cases hstep : o.step s.setup c with
  | some turn => exact .inr (goesOn_call (Option.map_eq_some_iff.mpr ⟨turn, hstep, rfl⟩))
  | none =>
    rcases hextracts.goesOn hschedule hshort hstep with hdone | hawaits | ⟨hawaits, hmore⟩
    · exact .inl ⟨_, rfl, hdone, fun _ => id⟩
    · exact .inr (goesOn_stopped hawaits)
    · refine .inr (goesOn_answerCall (fun hnone => hmore ?_) hawaits)
      exact List.map_eq_nil_iff.mp (hanswers.symm.trans hnone)

end World.ExtractsFirst

/-! ## 3. The theorem -/

theorem Supply.error?_of_success {supply : Supply}
    (h : ∀ outcome ∈ supply, ∃ reply, outcome = .ok reply ∧ reply.error? = none) :
    Supply.error? supply = none := by
  induction supply with
  | nil => rfl
  | cons outcome supply ih =>
    obtain ⟨reply, rfl, hreply⟩ := h _ List.mem_cons_self
    rw [error?]
    split
    · exact hreply
    · exact ih fun outcome houtcome => h outcome (List.mem_cons_of_mem _ houtcome)

/-- On an open cursor, between operations and without fetches in the background, the extraction of
the first row comes to its end if all outcomes to come are replies without errors.  There is no row
if the row at hand is null or none is at hand, or none is to come; otherwise the first row to come
is decoded, if it is not null.  An error that the cursor has already is returned. -/
theorem one_returns {t : Target} {setup : Setup} {release : Bool} {stages : List Stage}
    {s : System} (schedule : Schedule) (hrun : Run setup (.opened release) stages s)
    (hprefetch : setup.options.prefetch = false) (hkept : ∀ stage ∈ stages, ¬ stage.BreaksOff)
    (hidle : s.calls = []) (hopen : s.cursor.closed = false) (supply : Supply)
    (hsuccess : ∀ outcome ∈ supply, ∃ reply, outcome = .ok reply ∧ reply.error? = none)
    (hends : s.cursor.Live → supply.Ends ∨ s.cursor.rowsAhead setup supply ≠ [])
    (hread : ∀ text ∈ s.cursor.outlook supply, ∃ rows, setup.rows text = .ok rows)
    (hdecode : ∀ row ∈ s.cursor.rowsAhead setup supply, ∃ value, t.value? row = some value)
    (slot : t.Slot) (stop : Reply) :
    World.Returns setup schedule Call.Suffices
      (World.alone s (.one (.look slot)) (supply.map .ofOutcome) (.reply stop)) fun w =>
        ∃ (value : t.Slot) (result : Except Error Unit),
          w.system.calls = [.one (.done value result)] ∧
          s.cursor.FirstIs (s.cursor.rowsAhead setup supply) value result := by
  obtain ⟨htasks, hgate⟩ := hrun.gate_of_idle hprefetch hkept hidle
  -- The supply may be used up before the stream has ended, but only if there is a row before that,
  -- and the extraction does not look further.
  let stream : Stream := ⟨setup, .betweenCalls, s.cursor.rowsAhead setup supply, s.cursor.error?,
    s.cursor.rowsAhead setup supply ≠ [], True⟩
  have hcourse : Course stream.final stream.short s.cursor [] supply :=
    { gate := by rw [hgate]; rfl
      unbroken := List.not_mem_nil
      closed_of_live := fun _ => hopen
      error?_of_live := fun hlive => (Supply.error?_of_success hsuccess).trans hlive.2.symm
      ends_of_live := hends
      error?_of_over := fun _ => rfl
      held_of_over := fun _ f hf => absurd hf List.not_mem_nil }
  have hreads : (Next.start slot).Reads stream s.cursor [] supply [] :=
    { course := hcourse
      account := ⟨[], rfl, congrArg (· ++ _) (List.append_nil s.cursor.rows.toList)⟩
      readable := hread
      decodable := hdecode
      quiet := fun _ => .inl rfl
      fits := hopen
      awake := nofun }
  apply World.returns_of_invariant
    (fun w => ∃ (o : One t) (supply : Supply), w.ExtractsFirst stream s.cursor o supply)
    (World.effort setup)
  · exact ⟨.look slot, supply, rfl, htasks, rfl, ⟨stop, rfl⟩, fun _ => id, .looks slot rfl hreads⟩
  · rintro w w' ⟨o, supply, hw⟩ hstep
    exact hw.step rfl trivial hprefetch hstep
  · rintro w w' ⟨o, supply, hw⟩ hstep
    exact World.effort_lt_of_step hw.calls (fun _ _ _ hhabit => hhabit.elim) hstep
  · rintro w ⟨o, supply, hw⟩
    exact hw.goesOn rfl id
  · rintro w ⟨o, supply, hw⟩ ⟨call, hcalls, hdone, -⟩
    have hcall : call = .one o := List.singleton_inj.mp (hcalls.symm.trans hw.calls)
    rw [hcall] at hdone
    have hextracts := hw.extracts
    cases hextracts with
    | ended hright => exact ⟨_, _, hw.calls, hright⟩
    | _ => cases hdone

/-- A row that comes with the second reply. -/
theorem one_returns_second_reply :
    World.Returns (.ordinary 1 { prefetch := false }) .betweenCalls Call.Suffices
      (World.alone { cursor := Cursor.accept {} ⟨.partialSequence, ["[]"], none⟩ }
        (.one (t := .string) (.look "")) [.reply ⟨.sequence, ["\"a\""], none⟩]
        (.reply ⟨.sequence, [], none⟩)) fun w =>
      w.system.calls = [.one (t := .string) (.done "a" (.ok ()))] := by
  obtain ⟨stages, hstages, hkept⟩ : ∃ stages,
      (System.opened false).stages? (.ordinary 1 { prefetch := false })
        [.begin (.extend ⟨.partialSequence, ["[]"], none⟩), .call 0, .call 0, .call 0, .collect 0] =
          some (stages, { cursor := Cursor.accept {} ⟨.partialSequence, ["[]"], none⟩ }) ∧
        ∀ stage ∈ stages, ¬ stage.BreaksOff := by
    exact ⟨_, rfl, by decide +kernel⟩
  have hrows : Cursor.rowsAhead (.ordinary 1 { prefetch := false })
      (Cursor.accept {} ⟨.partialSequence, ["[]"], none⟩) [.ok ⟨.sequence, ["\"a\""], none⟩] =
        [.string "a"] := by cbv
  have hread : ∀ text ∈ ["[]", "\"a\""],
      ∃ rows, (Setup.ordinary 1 { prefetch := false }).rows text = .ok rows := by
    simp only [List.forall_mem_cons]
    exact ⟨⟨[], by cbv⟩, ⟨[.string "a"], by cbv⟩, List.forall_mem_nil _⟩
  have hdecode : ∀ row ∈ [Datum.string "a"], ∃ value, Target.string.value? row = some value := by
    simp only [List.forall_mem_cons]
    exact ⟨⟨"a", rfl⟩, List.forall_mem_nil _⟩
  have hsuccess : ∀ outcome ∈ [Except.ok (ε := Error) ⟨.sequence, ["\"a\""], none⟩],
      ∃ reply : Reply, outcome = .ok reply ∧ reply.error? = none := by
    simp only [List.forall_mem_cons]
    exact ⟨⟨_, rfl, rfl⟩, List.forall_mem_nil _⟩
  have h := one_returns (t := .string) .betweenCalls (Run.of_stages? hstages) rfl hkept rfl rfl
    [.ok ⟨.sequence, ["\"a\""], none⟩] hsuccess (fun _ => .inl (.inl rfl)) hread
    (hrows ▸ hdecode) "" ⟨.sequence, [], none⟩
  apply h.mono
  rintro w ⟨value, result, hcalls, hfirst⟩
  obtain ⟨rfl, hvalue⟩ := hfirst.row rfl rfl _ _ hrows rfl
  cases hvalue
  exact hcalls

/-- Without a row at hand the extraction does not ask for more, though a row is to come. -/
theorem one_of_nothing_at_hand :
    Cursor.rowsAhead (.ordinary 1 { prefetch := false }) {} [.ok ⟨.sequence, ["\"a\""], none⟩] =
        [.string "a"] ∧
      ∃ w, Relation.ReflTransGen
        (World.Step (.ordinary 1 { prefetch := false }) .betweenCalls Call.Suffices)
        (World.alone (.opened false) (.one (t := .string) (.look ""))
          [.reply ⟨.sequence, ["\"a\""], none⟩] (.reply ⟨.sequence, [], none⟩)) w ∧
        w.system.calls = [.one (t := .string) (.done "" (.error .emptyResult))] := by
  have hstep {w w' w'' : World}
      (h : World.Step (.ordinary 1 { prefetch := false }) .betweenCalls Call.Suffices w w')
      (hlater : Relation.ReflTransGen
        (World.Step (.ordinary 1 { prefetch := false }) .betweenCalls Call.Suffices) w' w'') :
      Relation.ReflTransGen
        (World.Step (.ordinary 1 { prefetch := false }) .betweenCalls Call.Suffices) w w'' :=
    .head h hlater
  refine ⟨by cbv, ?_⟩
  exact ⟨_, hstep (.call rfl) <| hstep (.call rfl) <| hstep (.call rfl) <| hstep (.call rfl) <|
    hstep (.stopped rfl rfl rfl) <| hstep (.call rfl) .refl, rfl⟩

end RowStream
