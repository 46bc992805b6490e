import RowStream.Proofs.Exhausting

/-!
# What a cursor yields

Without fetches in the background, a cursor that is read to its end yields the values of the rows
ahead up to the first failure, and is left with the error that it had before, or that of the
failure, or the one that ends its stream.  The three ways of reading it to its end all come to this:
advance after advance, all rows into a list, and rows one by one.
-/

namespace RowStream

variable {setup : Setup} {t : Target} {c : Cursor} {supply : Supply}

/-! ## 1. Values and errors -/

/-- What reading a cursor to its end yields: the values of rows, and the error that the cursor has
then. -/
structure Yield (t : Target) where
  values : List t.Slot
  error? : Option Error

/-- The entries ahead of a cursor that is read alone. -/
def Cursor.entriesAhead (setup : Setup) (c : Cursor) (supply : Supply) : List Entry :=
  c.rows.toList.map .ok ++ setup.entriesOfAll (c.outlook supply)

/-- What a cursor yields with some outcomes to come.  A closed one yields nothing more. -/
def Cursor.yield (setup : Setup) (t : Target) (c : Cursor) (supply : Supply) : Yield t :=
  if c.closed then ⟨[], c.error?⟩
  else
    ⟨t.values (c.entriesAhead setup supply),
      c.error?.or ((t.failure? (c.entriesAhead setup supply)).or
        (if c.Live then Supply.error? supply else none))⟩

namespace Yield

/-- The result of a way of reading that returns the error, if there is one. -/
def result (y : Yield t) : Except Error Unit :=
  match y.error? with
  | some e => .error e
  | none => .ok ()

/-- Whether a cursor has been read to its end and these values have come out. -/
structure Obtained (y : Yield t) (c : Cursor) (got : List t.Slot) : Prop where
  closed : c.closed = true
  values : got = y.values
  error? : c.error? = y.error?

end Yield

/-! ## 2. Advances -/

namespace Next

theorem eq_of_result? {n : Next t} {more : Bool} (h : n.result? = some more) :
    n = ⟨n.slot, .done more⟩ := by
  obtain ⟨slot, phase⟩ := n
  cases phase <;> cases h
  rfl

/-- An advance of a caller that reads a cursor alone to its end, after some values have come out.
The cursor may have been closed from the beginning. -/
inductive Spends (s : Stream) (r : Reader) (y : Yield t) (c : Cursor) (n : Next t)
    (supply : Supply) (got : List t.Slot) : Prop
  | draws {entries : List Entry} (hdraws : n.Draws s r c [] supply entries)
    (hvalues : got ++ t.values entries = y.values)
    (herror : r.first?.or ((t.failure? entries).or s.final) = y.error?)
  | shut (hphase : n.phase = .enter ∨ n.phase = .done false) (hobtained : y.Obtained c got)

/-- What is known of a stream that a caller reads alone. -/
structure Solitary (s : Stream) (r : Reader) : Prop where
  lone : r.lone
  between : s.schedule = .betweenCalls
  prefetch : s.setup.options.prefetch = false
  calm : s.calm
  long : ¬ s.short
  final : r.first?.or s.final = s.final

variable {s : Stream} {r : Reader} {y : Yield t} {n : Next t} {got : List t.Slot}

namespace Spends

theorem start {slot : t.Slot} (h : (Next.start slot).Spends s r y c supply got) (slot' : t.Slot) :
    (Next.start slot').Spends s r y c supply got := by
  cases h with
  | draws hdraws hvalues herror => exact .draws (hdraws.restart slot') hvalues herror
  | shut _ hobtained => exact .shut (.inl rfl) hobtained

theorem turn {turn : Turn (Next t)} (hs : Solitary s r) (h : n.Spends s r y c supply got)
    (hstep : n.step s.setup c = some turn) : turn.next.Spends s r y turn.cursor supply got := by
  cases h with
  | draws hdraws hvalues herror =>
    exact .draws (hdraws.turn (fun _ => hs.between) hstep) hvalues herror
  | shut hphase hobtained =>
    obtain ⟨slot, phase⟩ := n
    rcases hphase with rfl | rfl
    · simp only [step, hobtained.closed, reduceIte] at hstep
      cases hstep
      exact .shut (.inr rfl) hobtained
    · cases hstep

theorem answer {outcome : Except Error Reply} (h : n.Spends s r y c (outcome :: supply) got)
    (hawaits : n.awaits? = some .more) :
    (n.answer (.ofOutcome outcome)).Spends s r y c supply got := by
  cases h with
  | draws hdraws hvalues herror => exact .draws (hdraws.answer hawaits) hvalues herror
  | shut hphase =>
    obtain ⟨slot, phase⟩ := n
    rcases hphase with rfl | rfl <;> cases hawaits

theorem stopped {a : Answer} (h : n.Spends s r y c supply got) (hawaits : n.awaits? = some .stop)
    (ha : a ≠ .breakdown) : (n.answer a).Spends s r y c supply got := by
  cases h with
  | draws hdraws hvalues herror => exact .draws (hdraws.stopped hawaits ha) hvalues herror
  | shut hphase =>
    obtain ⟨slot, phase⟩ := n
    rcases hphase with rfl | rfl <;> cases hawaits

-- The advance after one that has handed out a row.
theorem again {slot : t.Slot} (h : (⟨slot, .done true⟩ : Next t).Spends s r y c supply got)
    (slot' : t.Slot) : (Next.start slot').Spends s r y c supply (got ++ [slot]) := by
  cases h with
  | draws hdraws hvalues herror =>
    obtain ⟨row, left, rfl, hvalue, hnext⟩ := hdraws.again slot'
    have hrow : [row].map t.value? = [slot].map some := congrArg (fun value => [value]) hvalue
    have hcons : t.values (.ok row :: left) = slot :: t.values left ∧
        t.failure? (.ok row :: left) = t.failure? left := Target.values_append hrow left
    rw [hcons.1] at hvalues
    rw [hcons.2] at herror
    refine .draws hnext ?_ herror
    rw [List.append_assoc]
    exact hvalues
  | shut hphase => rcases hphase with hphase | hphase <;> cases hphase

-- When there is no row, all values have come out and the cursor has its last error.
theorem ended {slot : t.Slot} (hs : Solitary s r)
    (h : (⟨slot, .done false⟩ : Next t).Spends s r y c supply got) : y.Obtained c got := by
  cases h with
  | shut _ hobtained => exact hobtained
  | draws hdraws hvalues herror =>
    obtain ⟨hclosed, hleft⟩ := hdraws.ended
    cases hleft with
    | nothing hfinal hnone =>
      rw [hnone hs.calm] at hvalues herror
      refine ⟨hclosed, (List.append_nil got).symm.trans hvalues, ?_⟩
      exact hfinal.trans (hs.final.symm.trans herror)
    | failure hfails hkept _ hlone =>
      rw [hfails.values_eq.1] at hvalues
      rw [hfails.values_eq.2, Option.some_or] at herror
      refine ⟨hclosed, (List.append_nil got).symm.trans hvalues, ?_⟩
      exact hkept.trans ((hlone hs.lone).trans herror)

-- The advance takes a turn, has ended, or waits for an answer that is still to come.
theorem goesOn (hs : Solitary s r) (h : n.Spends s r y c supply got)
    (hstep : n.step s.setup c = none) :
    n.result?.isSome = true ∨ n.awaits? = some .stop ∨
      (n.awaits? = some .more ∧ supply ≠ []) := by
  cases h with
  | draws hdraws =>
    rcases hdraws.goesOn hstep with ⟨more, hdone⟩ | hawaits | ⟨hfollows, hasleep | ⟨hawaits, hmem⟩⟩
    · rw [result?, hdone]
      exact .inl rfl
    · exact .inr (.inl hawaits)
    · obtain ⟨task, htask, -⟩ := hfollows.task_goesOn hasleep
      cases htask
    · refine .inr (.inr ⟨hawaits, ?_⟩)
      rintro rfl
      exact hs.long (hfollows.course.short_of_waiting hmem)
  | shut hphase =>
    obtain ⟨slot, phase⟩ := n
    rcases hphase with rfl | rfl
    · cases hstep
    · exact .inl rfl

end Spends
end Next

/-! ## 3. Ways of reading -/

/-- The ways of reading a cursor to its end. -/
inductive Way
  | next
  | all
  | items

/-- The habit that goes with a way of reading. -/
def Way.habit (t : Target) : Way → Call → Operation → Prop
  | next => Call.GoesOnAdvancing t
  | all => Call.Suffices
  | items => Call.Collects t

theorem Way.effort_lt_of_habit {x : Way} {call : Call} {op : Operation} (h : x.habit t call op)
    (c : Cursor) : op.begin.effort setup c < call.effort setup c := by
  cases x with
  | next => exact h.effort_lt c
  | all => exact h.elim
  | items => exact Extraction.effort_lt_of_habit (x := .items) h c

/-- The advances that have handed out values. -/
def Call.advances (got : List t.Slot) : List Call :=
  got.map fun slot => .next (t := t) ⟨slot, .done true⟩

/-- The items that values were. -/
def Call.items (got : List t.Slot) : List Call :=
  got.map fun slot => .item (t := t) (.done (some (.ok slot)))

theorem Call.advances_concat (got : List t.Slot) (slot : t.Slot) :
    advances (got ++ [slot]) = advances got ++ [.next (t := t) ⟨slot, .done true⟩] :=
  List.map_append

theorem Call.items_concat (got : List t.Slot) (slot : t.Slot) :
    items (got ++ [slot]) = items got ++ [.item (t := t) (.done (some (.ok slot)))] :=
  List.map_append

/-- The results and the last operation of a caller that has read a cursor to its end. -/
inductive Way.Brings (y : Yield t) : Way → List Call → Call → Prop
  | next (slot : t.Slot) :
    Brings y .next (Call.advances y.values) (.next (t := t) ⟨slot, .done false⟩)
  | all : Brings y .all [] (.all (.done y.values y.result))
  | items :
    Brings y .items
      (Call.items y.values ++
        y.error?.toList.map fun e => .item (t := t) (.done (some (.error e))))
      (.item (t := t) (.done none))

/-- The results so far and the operation under way of a caller that reads a cursor alone to its
end. -/
inductive World.Spending (s : Stream) (r : Reader) (y : Yield t) (c : Cursor) (supply : Supply) :
    Way → List Call → Call → Prop
  | next {n : Next t} {got : List t.Slot} (h : n.Spends s r y c supply got) :
    Spending s r y c supply .next (Call.advances got) (.next n)
  | all {n : Next t} {got : List t.Slot} (spare : List t.Slot) (h : n.Spends s r y c supply got)
    (hnone : n.result? = none) : Spending s r y c supply .all [] (.all (.advancing got spare n))
  | allJudges {got : List t.Slot} (h : y.Obtained c got) :
    Spending s r y c supply .all [] (.all (.judge got))
  | allCloses {got : List t.Slot} {verdict : Verdict} (h : y.Obtained c got)
    (hverdict : verdict.result none = y.result) :
    Spending s r y c supply .all [] (.all (.closing got verdict .mark))
  | allEnded {got : List t.Slot} (h : y.Obtained c got) :
    Spending s r y c supply .all [] (.all (.done got y.result))
  | item {n : Next t} {got : List t.Slot} (h : n.Spends s r y c supply got)
    (hnone : n.result? = none) :
    Spending s r y c supply .items (Call.items got) (.item (.advancing n))
  | itemFound {slot : t.Slot} {got : List t.Slot}
    (h : (⟨slot, .done true⟩ : Next t).Spends s r y c supply got) :
    Spending s r y c supply .items (Call.items got) (.item (t := t) (.done (some (.ok slot))))
  | itemJudges {got : List t.Slot} (h : y.Obtained c got) :
    Spending s r y c supply .items (Call.items got) (.item (t := t) .judge)
  | itemEnded {got : List t.Slot} (h : y.Obtained c got) :
    Spending s r y c supply .items (Call.items got) (.item (t := t) (.done (y.error?.map .error)))
  | itemsEnded {got : List t.Slot} {e : Error} (h : y.Obtained c got) (he : y.error? = some e) :
    Spending s r y c supply .items (Call.items got ++ [.item (t := t) (.done (some (.error e)))])
      (.item (t := t) (.done none))

namespace World.Spending

variable {s : Stream} {r : Reader} {y : Yield t} {x : Way} {results : List Call} {call : Call}

theorem ofStart {got : List t.Slot} (spare : List t.Slot)
    (h : (Next.start t.blank).Spends s r y c supply got) :
    Spending s r y c supply .all [] (.all (.start got spare)) := by
  cases spare with
  | nil => exact .all [] h rfl
  | cons slot spare => exact .all spare (h.start slot) rfl

theorem turn {turn : Turn Call} (hs : Next.Solitary s r)
    (h : Spending s r y c supply x results call) (hstep : call.step s.setup c = some turn) :
    Spending s r y turn.cursor supply x results turn.next := by
  cases h with
  | next h =>
    obtain ⟨inner, hinner, rfl⟩ := Option.map_eq_some_iff.mp hstep
    exact .next (h.turn hs hinner)
  | @all n got spare h hnone =>
    obtain ⟨middle, hmiddle, rfl⟩ := Option.map_eq_some_iff.mp hstep
    obtain ⟨⟨c', ⟨slot, phase⟩, events⟩, hinner, rfl⟩ := Option.map_eq_some_iff.mp hmiddle
    have hnext := h.turn hs hinner
    show Spending s r y c' supply .all [] (.all (.ofNext got spare ⟨slot, phase⟩))
    cases phase with
    | done more =>
      cases more with
      | true => exact ofStart spare (hnext.again t.blank)
      | false => exact .allJudges (hnext.ended hs)
    | _ => exact .all spare hnext rfl
  | @allJudges got h =>
    cases hstep
    refine .allCloses h ?_
    rw [h.error?, Yield.result]
    cases y.error? <;> rfl
  | @allCloses got verdict h hverdict =>
    obtain ⟨middle, hmiddle, rfl⟩ := Option.map_eq_some_iff.mp hstep
    obtain ⟨inner, hinner, rfl⟩ := Option.map_eq_some_iff.mp hmiddle
    simp only [Close.step, h.closed, reduceIte] at hinner
    cases hinner
    show Spending s r y c supply .all [] (.all (.done got (verdict.result none)))
    rw [hverdict]
    exact .allEnded h
  | item h hnone =>
    obtain ⟨middle, hmiddle, rfl⟩ := Option.map_eq_some_iff.mp hstep
    obtain ⟨⟨c', ⟨slot, phase⟩, events⟩, hinner, rfl⟩ := Option.map_eq_some_iff.mp hmiddle
    have hnext := h.turn hs hinner
    show Spending s r y c' supply .items _ (.item (.ofNext ⟨slot, phase⟩))
    cases phase with
    | done more =>
      cases more with
      | true => exact .itemFound hnext
      | false => exact .itemJudges (hnext.ended hs)
    | _ => exact .item hnext rfl
  | itemJudges h =>
    cases hstep
    show Spending s r y c supply .items _ (.item (.done (c.error?.map .error)))
    rw [h.error?]
    exact .itemEnded h
  | allEnded | itemFound | itemEnded | itemsEnded => cases hstep

theorem answer {outcome : Except Error Reply}
    (h : Spending s r y c (outcome :: supply) x results call)
    (hawaits : call.awaits? = some .more) :
    Spending s r y c supply x results (call.answer (.ofOutcome outcome)) := by
  cases h with
  | next h => exact .next (h.answer hawaits)
  | all spare h hnone => exact .all spare (h.answer hawaits) (Next.result?_answer _ _ hnone)
  | item h hnone => exact .item (h.answer hawaits) (Next.result?_answer _ _ hnone)
  | allJudges | allCloses | allEnded | itemFound | itemJudges | itemEnded | itemsEnded =>
    cases hawaits

theorem stopped {a : Answer} (h : Spending s r y c supply x results call)
    (hawaits : call.awaits? = some .stop) (ha : a ≠ .breakdown) :
    Spending s r y c supply x results (call.answer a) := by
  cases h with
  | next h => exact .next (h.stopped hawaits ha)
  | all spare h hnone => exact .all spare (h.stopped hawaits ha) (Next.result?_answer _ _ hnone)
  | item h hnone => exact .item (h.stopped hawaits ha) (Next.result?_answer _ _ hnone)
  | allJudges | allCloses | allEnded | itemFound | itemJudges | itemEnded | itemsEnded =>
    cases hawaits

theorem again {op : Operation} (h : Spending s r y c supply x results call)
    (hhabit : x.habit t call op) :
    Spending s r y c supply x (results ++ [call]) op.begin := by
  cases h with
  | next h =>
    cases hhabit with
    | again slot slot' =>
      rw [← Call.advances_concat]
      exact .next (h.again slot')
  | itemFound h =>
    cases hhabit
    rw [← Call.items_concat]
    exact .item (h.again t.blank) rfl
  | itemEnded h =>
    cases he : y.error? with
    | none =>
      rw [he] at hhabit
      cases hhabit
    | some e =>
      rw [he] at hhabit
      cases hhabit
      exact .itemsEnded h he
  | all | allJudges | allCloses | allEnded => exact hhabit.elim
  | item | itemJudges | itemsEnded => cases hhabit

-- The operation takes a turn, has ended, or waits for an answer that is still to come.
theorem goesOn (hs : Next.Solitary s r) (h : Spending s r y c supply x results call)
    (hstep : call.step s.setup c = none) :
    call.isDone = true ∨ call.awaits? = some .stop ∨
      (call.awaits? = some .more ∧ supply ≠ []) := by
  have hadvance {n : Next t} {got : List t.Slot} (h : n.Spends s r y c supply got)
      (hnone : n.result? = none) (hstep : n.step s.setup c = none) :
      n.awaits? = some .stop ∨ (n.awaits? = some .more ∧ supply ≠ []) := by
    refine (h.goesOn hs hstep).resolve_left fun hdone => ?_
    rw [hnone] at hdone
    cases hdone
  cases h with
  | next h => exact h.goesOn hs (Option.map_eq_none_iff.mp hstep)
  | all spare h hnone =>
    exact .inr (hadvance h hnone (Option.map_eq_none_iff.mp (Option.map_eq_none_iff.mp hstep)))
  | item h hnone =>
    exact .inr (hadvance h hnone (Option.map_eq_none_iff.mp (Option.map_eq_none_iff.mp hstep)))
  | allCloses h =>
    have hclose := Option.map_eq_none_iff.mp (Option.map_eq_none_iff.mp hstep)
    simp only [Close.step] at hclose
    split at hclose <;> cases hclose
  | allJudges | itemJudges => cases hstep
  | allEnded | itemFound | itemEnded | itemsEnded => exact .inl rfl

-- The caller has got what it wants only at the very end.
theorem brings (hs : Next.Solitary s r) (h : Spending s r y c supply x results call)
    (hdone : call.isDone = true) (hlast : ∀ op, ¬ x.habit t call op) :
    c.closed = true ∧ c.error? = y.error? ∧ x.Brings y results call := by
  cases h with
  | @next n got h =>
    obtain ⟨more, hmore⟩ := Option.isSome_iff_exists.mp hdone
    rw [Next.eq_of_result? hmore] at h hlast
    cases more with
    | true => exact absurd (.again n.slot t.blank) (hlast _)
    | false =>
      obtain ⟨hclosed, rfl, herror⟩ := h.ended hs
      rw [Next.eq_of_result? hmore]
      exact ⟨hclosed, herror, .next n.slot⟩
  | allEnded h =>
    obtain ⟨hclosed, rfl, herror⟩ := h
    exact ⟨hclosed, herror, .all⟩
  | itemFound h => exact absurd (.more _) (hlast _)
  | itemEnded h =>
    obtain ⟨hclosed, rfl, herror⟩ := h
    cases he : y.error? with
    | none =>
      have hbrings := Way.Brings.items (y := y)
      rw [he, Option.toList_none, List.map_nil, List.append_nil] at hbrings
      exact ⟨hclosed, herror.trans he, hbrings⟩
    | some e =>
      rw [he] at hlast
      exact absurd (.last e) (hlast _)
  | itemsEnded h he =>
    obtain ⟨hclosed, rfl, herror⟩ := h
    have hbrings := Way.Brings.items (y := y)
    rw [he] at hbrings
    exact ⟨hclosed, herror, hbrings⟩
  | all | allJudges | allCloses | item | itemJudges => cases hdone

end World.Spending

/-! ## 4. Worlds -/

/-- The invariant of a caller that reads a cursor alone to its end. -/
structure World.Spends (s : Stream) (r : Reader) (y : Yield t) (x : Way) (w : World)
    (supply : Supply) : Prop where
  calls : ∃ call, w.system.calls = [call] ∧
    Spending s r y w.system.cursor supply x w.results call
  tasks : w.system.tasks = []
  answers : w.answers = supply.map .ofOutcome
  stop : w.stop ≠ .breakdown

namespace World.Spends

variable {s : Stream} {r : Reader} {y : Yield t} {x : Way} {w w' : World} {schedule : Schedule}

theorem step (hs : Next.Solitary s r) (h : w.Spends s r y x supply)
    (hworld : Step s.setup schedule (x.habit t) w w') :
    ∃ supply, w'.Spends s r y x supply := by
  obtain ⟨⟨c, calls, tasks⟩, answers, stop, results⟩ := w
  obtain ⟨⟨call, rfl, hspending⟩, rfl, hanswers, hstop⟩ := h
  cases turns_of_step hworld with
  | @call turn hstep =>
    refine ⟨supply, ⟨_, rfl, hspending.turn hs hstep⟩, ?_, hanswers, hstop⟩
    rw [(Call.steps_of_step hstep).countP_schedules hs.prefetch]
    rfl
  | task hadmits htasks => exact absurd htasks.symm (List.append_ne_nil_of_right_ne_nil _ nofun)
  | @answerCall a rest hawaits hrest =>
    cases supply with
    | nil => rw [hrest] at hanswers; cases hanswers
    | cons outcome supply =>
      rw [hrest] at hanswers
      cases hanswers
      exact ⟨supply, ⟨_, rfl, hspending.answer hawaits⟩, rfl, rfl, hstop⟩
  | answerTask htasks => exact absurd htasks.symm (List.append_ne_nil_of_right_ne_nil _ nofun)
  | stopped hawaits =>
    exact ⟨supply, ⟨_, rfl, hspending.stopped hawaits hstop⟩, rfl, hanswers, hstop⟩
  | again hdone hhabit => exact ⟨supply, ⟨_, rfl, hspending.again hhabit⟩, rfl, hanswers, hstop⟩

theorem goesOn (hs : Next.Solitary s r) (h : w.Spends s r y x supply) :
    w.Over (x.habit t) ∨ ∃ later, Step s.setup schedule (x.habit t) w later := by
  obtain ⟨⟨c, calls, tasks⟩, answers, stop, results⟩ := w
  obtain ⟨⟨call, rfl, hspending⟩, rfl, hanswers, hstop⟩ := h
  cases hstep : call.step s.setup c with
  | some turn => exact .inr (goesOn_call hstep)
  | none =>
    rcases hspending.goesOn hs hstep with hdone | hawaits | ⟨hawaits, hmore⟩
    -- Whether the caller goes on from the result is a matter of its habit.
    · by_cases hhabit : ∃ op, x.habit t call op
      · obtain ⟨op, hhabit⟩ := hhabit
        exact .inr ⟨_, .again rfl hdone hhabit⟩
      · exact .inl ⟨call, rfl, hdone, fun op hop => hhabit ⟨op, hop⟩⟩
    · exact .inr (goesOn_stopped hawaits)
    · refine .inr (goesOn_answerCall (fun hnone => hmore ?_) hawaits)
      exact List.map_eq_nil_iff.mp (hanswers.symm.trans hnone)

theorem returns {start : World} (hs : Next.Solitary s r) (h : start.Spends s r y x supply) :
    Returns s.setup schedule (x.habit t) start fun w =>
      w.system.cursor.closed = true ∧ w.system.cursor.error? = y.error? ∧
        ∃ call, w.system.calls = [call] ∧ x.Brings y w.results call := by
  apply returns_of_invariant (fun w => ∃ supply, w.Spends s r y x supply) (World.effort s.setup)
    ⟨supply, h⟩
  · exact fun w w' ⟨_, hw⟩ hstep => hw.step hs hstep
  · rintro w w' ⟨_, hw⟩ hstep
    obtain ⟨call, hcalls, -⟩ := hw.calls
    exact effort_lt_of_step hcalls (fun _ _ c hhabit => Way.effort_lt_of_habit hhabit c) hstep
  · exact fun w ⟨_, hw⟩ => hw.goesOn hs
  · rintro w ⟨supply, hw⟩ ⟨call, hcalls, hdone, hlast⟩
    obtain ⟨call', hcalls', hspending⟩ := hw.calls
    rw [List.singleton_inj.mp (hcalls'.symm.trans hcalls)] at hspending
    obtain ⟨hclosed, herror, hbrings⟩ := hspending.brings hs hdone hlast
    exact ⟨hclosed, herror, call, hcalls, hbrings⟩

end World.Spends

/-! ## 5. The ways of reading -/

-- A cursor with nothing going on is a stream that is read alone.
theorem Cursor.spends_yield (hprefetch : setup.options.prefetch = false)
    (hgate : c.fetching = false) (hends : c.closed = false → c.Live → supply.Ends) :
    ∃ (s : Stream) (r : Reader), s.setup = setup ∧ Next.Solitary s r ∧
      (Next.start t.blank).Spends s r (c.yield setup t supply) c supply [] := by
  let s : Stream := ⟨setup, .betweenCalls, [],
    if c.Live then Supply.error? supply else c.error?, False, True⟩
  let r : Reader := ⟨True, c.error?⟩
  have hsolitary : Next.Solitary s r :=
    { lone := trivial
      between := rfl
      prefetch := hprefetch
      calm := trivial
      long := id
      final := by
        show c.error?.or (if c.Live then Supply.error? supply else c.error?) =
          if c.Live then Supply.error? supply else c.error?
        split
        next hlive => rw [hlive.2, Option.none_or]
        next => cases c.error? <;> rfl }
  refine ⟨s, r, rfl, hsolitary, ?_⟩
  cases hclosed : c.closed with
  | true =>
    refine .shut (.inl rfl) ⟨hclosed, ?_, ?_⟩ <;> rw [Cursor.yield, hclosed] <;> rfl
  | false =>
    have hcourse : Course s.final s.short c [] supply :=
      { gate := by rw [hgate]; rfl
        unbroken := List.not_mem_nil
        closed_of_live := fun _ => hclosed
        error?_of_live := fun hlive => (if_pos hlive).symm
        ends_of_live := fun hlive => .inl (hends hclosed hlive)
        error?_of_over := fun hover => (if_neg hover).symm
        held_of_over := fun _ f hf => absurd hf List.not_mem_nil }
    have hfollows : (Next.start t.blank).Follows s c [] supply (c.entriesAhead setup supply) :=
      { course := hcourse
        account := by
          refine ⟨[], rfl, ?_⟩
          show (c.rows.toList ++ []).map .ok ++ setup.entriesOfAll (c.outlook supply) = _
          rw [List.append_nil]
          rfl
        quiet := fun _ => .inl rfl
        fits := hclosed
        awake := nofun }
    refine .draws (.follows hfollows fun _ => .inl rfl) ?_ ?_
    · rw [Cursor.yield, hclosed]
      rfl
    · rw [Cursor.yield, hclosed]
      show c.error?.or ((t.failure? _).or (if c.Live then Supply.error? supply else c.error?)) =
        c.error?.or ((t.failure? _).or (if c.Live then Supply.error? supply else none))
      split
      next => rfl
      next => cases c.error? <;> cases t.failure? (c.entriesAhead setup supply) <;> rfl

end RowStream
