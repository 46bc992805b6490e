import RowStream.Proofs.Drawing
import RowStream.Proofs.Effort
import RowStream.Proofs.Gate

/-!
# Exhausting a stream

A caller that opens a cursor with a first reply and advances until there is no row draws on the
stream with every advance.  Each step of its world preserves what has been handed out and what is
left of the entries of the stream, and as long as there is something to get the world goes on.
-/

namespace RowStream

/-! ## 1. The world of a caller that drains a cursor -/

/-- The habit of advancing, into any destination, once the first reply has been added, and again
after each advance that found a row. -/
inductive Call.GoesOnAdvancing (t : Target) : Call → Operation → Prop
  | first (slot : t.Slot) : GoesOnAdvancing t (.extend (.done (.ok true))) (.next slot)
  | again (slot slot' : t.Slot) :
    GoesOnAdvancing t (.next (t := t) ⟨slot, .done true⟩) (.next slot')

/-- A cursor just opened, to which the first reply is about to be added. -/
def World.draining (release : Bool) (first : Reply) (outcomes : Supply) (stop : Answer) : World :=
  { system := { System.opened release with calls := [(Operation.extend first).begin] }
    answers := outcomes.map .ofOutcome
    stop }

/-- Whether a reply has been added. -/
def Fetch.HasAdded : Fetch → Prop
  | wake (.ok true) _ | ahead (.ok true) | done (.ok true) => True
  | _ => False

theorem Fetch.Steps.of_hasAdded {setup : Setup} {c : Cursor} {f : Fetch} {turn : Turn Fetch}
    (h : Steps setup c f turn) (hadded : f.HasAdded) : turn.cursor = c ∧ turn.next.HasAdded := by
  cases h with
  | tells outcome low =>
    refine ⟨rfl, ?_⟩
    rcases outcome with _ | _ | _ <;> cases low <;> exact hadded
  | looksAhead outcome =>
    refine ⟨rfl, ?_⟩
    rcases outcome with _ | _ | _ <;> exact hadded
  | _ => exact hadded.elim

/-- The operations under way and in the past of a caller that drains a stream: the first reply has
been added and an advance is yet to begin, or that and advances with these values lie behind. -/
inductive World.Drained {t : Target} (n : Next t) (got : List t.Slot) :
    List Call → List Call → Prop
  | adding (slot : t.Slot) (f : Fetch) (hadded : f.HasAdded) (hn : n = .start slot)
    (hgot : got = []) : Drained n got [.extend f] []
  | advancing :
    Drained n got [.next n]
      (.extend (.done (.ok true)) :: got.map fun slot => .next (t := t) ⟨slot, .done true⟩)

theorem Call.GoesOnAdvancing.effort_lt {t : Target} {setup : Setup} {call : Call} {op : Operation}
    (h : GoesOnAdvancing t call op) (c : Cursor) :
    op.begin.effort setup c < call.effort setup c := by
  cases h with
  | first slot =>
    have hlook := c.lookEffort_bounds
    show 13 < c.lookEffort + 6
    omega
  | again => exact Nat.lt_succ_self 13

namespace World

variable {s : Stream} {r : Reader} {t : Target} {w w' : World} {n : Next t} {supply : Supply}
  {taken : List Datum} {entries total : List Entry} {got : List t.Slot} {schedule : Schedule}

/-! ## 2. The first reply -/

-- The first reply is taken in as if a fetch had brought it, which alone holds the gate.
theorem course_of_first (release : Bool) (first : Reply) (outcomes : Supply) :
    Course (Supply.error? (.ok first :: outcomes)) (¬ Supply.Ends (.ok first :: outcomes))
      { release, fetching := true } [.fold (.ok first)] outcomes where
  gate := rfl
  unbroken h := nomatch List.mem_singleton.mp h
  closed_of_live _ := rfl
  error?_of_live _ := rfl
  ends_of_live _ := Classical.em _
  error?_of_over hover := absurd ⟨rfl, rfl⟩ hover
  held_of_over hover := absurd ⟨rfl, rfl⟩ hover

-- Adding the first reply opens the gate again.
theorem openGate_accept_first (release : Bool) (first : Reply) :
    (({ release, fetching := true } : Cursor).accept first).openGate =
      (({ release } : Cursor).accept first).openGate := by
  unfold Cursor.accept
  cases first.error? <;> rfl

-- Once the first reply is added, an advance follows the stream from its beginning.
theorem follows_start {setup : Setup} {release : Bool} {slot : t.Slot} {rows : List Datum}
    {first : Reply} {outcomes : Supply} {short calm : Prop}
    (hends : Supply.Ends (.ok first :: outcomes) ∨ short)
    (hcalm : calm → schedule = .betweenCalls ∨ ∀ e, .error e ∉ outcomes) :
    (Next.start slot).Follows
      ⟨setup, schedule, rows, Supply.error? (.ok first :: outcomes), short, calm⟩
      (({ release } : Cursor).accept first).openGate [] outcomes
      (setup.entriesOfAll (Supply.texts (.ok first :: outcomes))) := by
  have hfirst := course_of_first release first outcomes
  have hcourse := hfirst.adds
  have houtlook := hfirst.outlook_adds
  rw [openGate_accept_first] at hcourse houtlook
  have hnone : (({ release } : Cursor).accept first).openGate.rows.toList = [] := by
    rw [Cursor.rows_openGate, Cursor.rows_accept]
    exact Queue.toList_empty
  exact
    { course :=
        { hcourse with
          ends_of_live := fun hlive => (hcourse.ends_of_live hlive).imp_right hends.resolve_left }
      account := by
        refine ⟨[], rfl, ?_⟩
        show (_ ++ []).map Except.ok ++ setup.entriesOfAll (Cursor.outlook _ outcomes) = _
        rw [hnone, houtlook]
        rfl
      quiet := hcalm
      fits := Cursor.closed_accept
      awake := nofun }

/-! ## 3. Steps -/

theorem Drained.call {calls results : List Call} (h : Drained n got calls results) :
    ∃ call, calls = [call] := by
  cases h <;> exact ⟨_, rfl⟩

-- Waking the operation under way wakes the advance.
theorem Drained.wake {call : Call} {results : List Call} (h : Drained n got [call] results) :
    Drained n.wake got [call.wake] results := by
  cases h with
  | adding slot f hadded hn hgot => exact .adding slot f hadded (by rw [hn]; rfl) hgot
  | advancing => exact .advancing

-- In the terms of one operation under way, tasks take their turns while the advance asks for rows
-- only if it waits.
theorem Drained.waits {c : Cursor} {tasks : List Task} {call : Call} {results : List Call}
    {setup : Setup} (h : Drained n got [call] results)
    (hadmits : schedule.Admits setup ⟨c, [call], tasks⟩) :
    schedule = .betweenCalls → n.asks → n.step setup c = none := by
  intro hbetween hasks
  rw [hbetween] at hadmits
  cases h with
  | adding slot f hadded hn =>
    rw [hn] at hasks
    exact hasks.elim
  | advancing => exact Option.map_eq_none_iff.mp (hadmits _ (List.mem_singleton_self _))

/-- The invariant of a caller that drains a stream: the advance that is under way, or yet to begin,
draws on it, after the rows whose values have been handed out. -/
structure Exhausts (s : Stream) (r : Reader) {t : Target} (total : List Entry) (w : World)
    (n : Next t) (supply : Supply) (taken : List Datum) (entries : List Entry)
    (got : List t.Slot) : Prop where
  calls : Drained n got w.system.calls w.results
  answers : w.answers = supply.map .ofOutcome
  stop : w.stop ≠ .breakdown
  lone : r.lone → s.schedule = .betweenCalls ∧ s.setup.options.prefetch = false ∧
    w.system.tasks = []
  draws : n.Draws s r w.system.cursor w.system.tasks supply entries
  got : taken.map t.value? = got.map some
  all : taken.map .ok ++ entries = total

-- The first step of the world adds the first reply.
theorem exhausts_of_step {setup : Setup} {release : Bool} {first : Reply} {outcomes : Supply}
    {stop : Answer} (slot : t.Slot) (hstop : stop ≠ .breakdown)
    (hlone : r.lone → s.schedule = .betweenCalls ∧ s.setup.options.prefetch = false)
    (hdraws : (Next.start slot).Draws s r (({ release } : Cursor).accept first).openGate []
      outcomes total)
    (h : Step setup schedule (Call.GoesOnAdvancing t) (draining release first outcomes stop) w') :
    w'.Exhausts s r total (.start slot) outcomes [] total [] := by
  cases turns_of_step h with
  | call hstep =>
    cases hstep
    exact
      { calls := .adding slot _ trivial rfl rfl
        answers := rfl
        stop := hstop
        lone := fun h => ⟨(hlone h).1, (hlone h).2, rfl⟩
        draws := hdraws
        got := rfl
        all := rfl }
  | task hadmits htasks => exact absurd htasks.symm (List.append_ne_nil_of_right_ne_nil _ nofun)
  | answerCall hawaits => cases hawaits
  | answerTask htasks => exact absurd htasks.symm (List.append_ne_nil_of_right_ne_nil _ nofun)
  | stopped hawaits => cases hawaits
  | again hdone => cases hdone

section

variable {c : Cursor} {call : Call} {tasks : List Task} {answers : List Answer} {stop : Answer}
  {results : List Call}

theorem Exhausts.turn {turn : Turn Call}
    (h : Exhausts s r total ⟨⟨c, [call], tasks⟩, answers, stop, results⟩ n supply taken entries got)
    (hstep : call.step s.setup c = some turn) :
    ∃ n : Next t, Exhausts s r total
      ⟨⟨turn.cursor, [turn.next],
        tasks ++ List.replicate (turn.events.countP Event.schedules) .scheduled⟩,
        answers, stop, results⟩ n supply taken entries got := by
  obtain ⟨hcalls, hanswers, hstop, hlone, hdraws, hgot, hall⟩ := h
  -- A reader alone has fetches neither in the background nor about to start there.
  have hlone' (halone : r.lone) : s.schedule = .betweenCalls ∧
      s.setup.options.prefetch = false ∧
      tasks ++ List.replicate (turn.events.countP Event.schedules) .scheduled = [] := by
    obtain ⟨hbetween, hprefetch, hnone⟩ := hlone halone
    refine ⟨hbetween, hprefetch, ?_⟩
    rw [show tasks = [] from hnone, (Call.steps_of_step hstep).countP_schedules hprefetch]
    rfl
  cases hcalls with
  | adding slot f hadded hn hnone =>
    obtain ⟨turn, hturn, rfl⟩ := Option.map_eq_some_iff.mp hstep
    obtain ⟨hcursor, hnext⟩ := (Fetch.steps_of_step hturn).of_hasAdded hadded
    exact ⟨n, .adding slot _ hnext hn hnone, hanswers, hstop, hlone',
      hcursor ▸ hdraws.scheduled _, hgot, hall⟩
  | advancing =>
    obtain ⟨turn, hturn, rfl⟩ := Option.map_eq_some_iff.mp hstep
    have hnext := (hdraws.turn (fun halone => (hlone halone).1) hturn).scheduled
      (turn.events.countP Event.schedules)
    exact ⟨_, .advancing, hanswers, hstop, hlone', hnext, hgot, hall⟩

-- From a result the caller goes on with the next advance.
theorem Exhausts.again {op : Operation}
    (h : Exhausts s r total ⟨⟨c, [call], tasks⟩, answers, stop, results⟩ n supply taken entries got)
    (hhabit : Call.GoesOnAdvancing t call op) :
    ∃ (n : Next t) (taken : List Datum) (entries : List Entry) (got : List t.Slot),
      Exhausts s r total ⟨⟨c, [op.begin], tasks⟩, answers, stop, results ++ [call]⟩ n supply taken
        entries got := by
  obtain ⟨hcalls, hanswers, hstop, hlone, hdraws, hgot, hall⟩ := h
  cases hhabit with
  | first slot =>
    cases hcalls with
    | adding slot' f hadded hn hnone =>
      rw [hn] at hdraws
      rw [hnone] at hgot
      exact ⟨_, _, _, _, .advancing, hanswers, hstop, hlone, hdraws.restart slot, hgot, hall⟩
  | again slot slot' =>
    cases hcalls
    obtain ⟨row, left, rfl, hvalue, hnext⟩ := hdraws.again slot'
    refine ⟨_, taken ++ [row], left, got ++ [slot], ?_, hanswers, hstop, hlone, hnext, ?_, ?_⟩
    · have hmap : (got ++ [slot]).map (fun slot => Call.next (t := t) ⟨slot, .done true⟩) =
          got.map (fun slot => .next (t := t) ⟨slot, .done true⟩) ++
            [.next (t := t) ⟨slot, .done true⟩] := List.map_append
      rw [List.cons_append, ← hmap]
      exact .advancing
    · rw [List.map_append, List.map_append, hgot, List.map_singleton, hvalue]
      rfl
    · rw [List.map_append, List.append_assoc]
      exact hall

end

-- Every step of the world preserves the invariant.
theorem Exhausts.step (h : w.Exhausts s r total n supply taken entries got)
    (hschedule : ¬ r.lone → schedule = s.schedule)
    (hworld : Step s.setup schedule (Call.GoesOnAdvancing t) w w') :
    ∃ (n : Next t) (supply : Supply) (taken : List Datum) (entries : List Entry)
      (got : List t.Slot), w'.Exhausts s r total n supply taken entries got := by
  obtain ⟨⟨c, calls, tasks⟩, answers, stop, results⟩ := w
  obtain ⟨call, rfl⟩ := h.calls.call
  -- A task that takes a turn or gets an answer is beside a reader that is not alone.
  have hshared {before later : List Task} {task : Task} (htasks : tasks = before ++ task :: later)
      (halone : r.lone) : False :=
    List.append_ne_nil_of_right_ne_nil before (List.cons_ne_nil task later)
      (htasks.symm.trans (h.lone halone).2.2)
  cases turns_of_step hworld with
  | call hstep =>
    obtain ⟨n, hnext⟩ := h.turn hstep
    exact ⟨n, _, _, _, _, hnext⟩
  | @task before later task turn hadmits htasks hstep =>
    obtain ⟨hcalls, hanswers, hstop, -, hdraws, hgot, hall⟩ := h
    have halone := hshared htasks
    cases htasks
    rw [hschedule halone] at hadmits
    have hnext := hdraws.task halone (hcalls.waits hadmits) (Task.steps_of_step hstep)
    refine ⟨_, _, _, _, _, ?_, hanswers, hstop, fun hlone => (halone hlone).elim, hnext, hgot, hall⟩
    simp only [System.after]
    split
    · exact hcalls.wake
    · exact hcalls
  | @answerCall a rest hawaits hrest =>
    obtain ⟨hcalls, hanswers, hstop, hlone, hdraws, hgot, hall⟩ := h
    cases supply with
    | nil => rw [hrest] at hanswers; cases hanswers
    | cons outcome supply =>
      rw [hrest] at hanswers
      cases hanswers
      cases hcalls with
      | adding slot f hadded =>
        cases f with
        | waiting => exact hadded.elim
        | _ => cases hawaits
      | advancing =>
        exact ⟨_, _, _, _, _, .advancing, rfl, hstop, hlone, hdraws.answer hawaits, hgot, hall⟩
  | @answerTask before later task kind a rest htasks hawaits hrest =>
    obtain ⟨hcalls, hanswers, hstop, -, hdraws, hgot, hall⟩ := h
    have halone := hshared htasks
    cases supply with
    | nil => rw [hrest] at hanswers; cases hanswers
    | cons outcome supply =>
      rw [hrest] at hanswers
      cases hanswers
      cases htasks
      exact ⟨_, _, _, _, _, hcalls, rfl, hstop, fun hlone => (halone hlone).elim,
        hdraws.answerTask hawaits, hgot, hall⟩
  | stopped hawaits =>
    obtain ⟨hcalls, hanswers, hstop, hlone, hdraws, hgot, hall⟩ := h
    cases hcalls with
    | adding slot f => cases f <;> cases hawaits
    | advancing =>
      exact ⟨_, _, _, _, _, .advancing, hanswers, hstop, hlone, hdraws.stopped hawaits hstop, hgot,
        hall⟩
  | again hdone hhabit =>
    obtain ⟨n, taken, entries, got, hnext⟩ := h.again hhabit
    exact ⟨n, supply, taken, entries, got, hnext⟩

-- The caller has got what it wants, or the world goes on, or some query is left without an answer.
-- That does not keep a reader alone from an entry without a value.
theorem Exhausts.goesOn (h : w.Exhausts s r total n supply taken entries got)
    (schedule : Schedule) (hshort : s.short → t.failure? total ≠ none) :
    w.Over (Call.GoesOnAdvancing t) ∨
      (∃ later, Step s.setup schedule (Call.GoesOnAdvancing t) w later) ∨
      (s.short ∧ ¬ r.lone ∧ w.Unanswered) := by
  obtain ⟨⟨c, calls, tasks⟩, answers, stop, results⟩ := w
  obtain ⟨hcalls, hanswers, hstop, hlone, hdraws, hgot, hall⟩ := h
  cases hcalls with
  | adding slot f hadded =>
    cases f with
    | wake outcome low => exact .inr (.inl (goesOn_call rfl))
    | ahead outcome => exact .inr (.inl (goesOn_call rfl))
    | done outcome =>
      rcases outcome with e | _ | _
      · exact hadded.elim
      · exact hadded.elim
      · exact .inr (.inl ⟨_, .again rfl rfl (.first slot)⟩)
    | _ => exact hadded.elim
  | advancing =>
    cases hstep : n.step s.setup c with
    | some turn =>
      exact .inr (.inl (goesOn_call (Option.map_eq_some_iff.mpr ⟨turn, hstep, rfl⟩)))
    | none =>
      rcases hdraws.goesOn hstep with ⟨more, hdone⟩ | hawaits | ⟨hfollows, hwaits⟩
      · obtain ⟨slot, phase⟩ := n
        cases hdone
        cases more with
        | true => exact .inr (.inl ⟨_, .again rfl rfl (.again slot slot)⟩)
        | false => exact .inl ⟨_, rfl, rfl, nofun⟩
      · exact .inr (.inl (goesOn_stopped hawaits))
      · -- Whoever waits for the connection gets an answer as long as there are some.
        have hunanswered (hmem : .waiting ∈ n.holders tasks) (hnone : answers = []) :
            s.short ∧ ¬ r.lone := by
          subst hnone
          cases supply with
          | cons => cases hanswers
          | nil =>
            have hused := hfollows.course.short_of_waiting hmem
            refine ⟨hused, fun halone => hshort hused ?_⟩
            obtain ⟨hbetween, -, rfl⟩ := hlone halone
            rw [hfollows.eq_nil_of_waiting hbetween hmem, List.append_nil] at hall
            rw [← hall, ← List.append_nil (taken.map Except.ok), (Target.values_append hgot []).2]
            rfl
        rcases hwaits with hasleep | ⟨hawaits, hmem⟩
        -- An advance that sleeps takes no turn, so under either schedule the tasks may.
        · have hadmits : schedule.Admits s.setup ⟨c, [.next n], tasks⟩ := by
            cases schedule with
            | anywhere => trivial
            | betweenCalls =>
              intro call hcall
              rw [List.mem_singleton.mp hcall]
              exact Option.map_eq_none_iff.mpr hstep
          obtain ⟨task, htask, ⟨turn, hturn⟩ | ⟨hawaits, hmem⟩⟩ := hfollows.task_goesOn hasleep
          · exact .inr (.inl (goesOn_task htask hadmits hturn))
          · by_cases hnone : answers = []
            · obtain ⟨hused, hshared⟩ := hunanswered hmem hnone
              exact .inr (.inr ⟨hused, hshared, hnone, .inr ⟨task, htask, hawaits⟩⟩)
            · exact .inr (.inl (goesOn_answerTask hnone htask hawaits))
        · by_cases hnone : answers = []
          · obtain ⟨hused, hshared⟩ := hunanswered hmem hnone
            exact .inr (.inr ⟨hused, hshared, hnone, .inl ⟨_, List.mem_singleton_self _, hawaits⟩⟩)
          · exact .inr (.inl (goesOn_answerCall hnone hawaits))

/-! ## 4. The end -/

-- A caller that draws on a stream comes to the end of it, or to its first entry without a value,
-- unless the connection leaves a query without an answer.
theorem returns_of_draws {release : Bool} {first : Reply} {outcomes : Supply} {stop : Answer}
    (hstop : stop ≠ .breakdown)
    (hlone : r.lone → s.schedule = .betweenCalls ∧ s.setup.options.prefetch = false)
    (hschedule : ¬ r.lone → schedule = s.schedule)
    (hshort : s.short → t.failure? total ≠ none)
    (hdraws : (Next.start t.blank).Draws s r (({ release } : Cursor).accept first).openGate []
      outcomes total) :
    ReturnsUnless s.setup schedule (Call.GoesOnAdvancing t)
      (draining release first outcomes stop) (fun w => s.short ∧ ¬ r.lone ∧ w.Unanswered)
      fun w => ∃ (got : List t.Slot) (last : t.Slot) (taken : List Datum) (entries : List Entry),
        w.results = .extend (.done (.ok true)) ::
          got.map (fun value => .next (t := t) ⟨value, .done true⟩) ∧
        w.system.calls = [.next (t := t) ⟨last, .done false⟩] ∧
        w.system.cursor.closed = true ∧ taken.map t.value? = got.map some ∧
        taken.map .ok ++ entries = total ∧ Next.LeftOver s r t w.system.cursor entries := by
  -- Only the first step is outside the invariant: it adds the first reply.
  apply returnsUnless_of_invariant
    (fun w => w = draining release first outcomes stop ∨
      ∃ (n : Next t) (supply : Supply) (taken : List Datum) (entries : List Entry)
        (got : List t.Slot), w.Exhausts s r total n supply taken entries got)
    (effort s.setup)
  · exact .inl rfl
  · rintro w w' (rfl | ⟨n, supply, taken, entries, got, h⟩) hstep
    · exact .inr ⟨_, _, _, _, _, exhausts_of_step t.blank hstop hlone hdraws hstep⟩
    · exact .inr (h.step hschedule hstep)
  · intro w w' hw hstep
    have hcalls : ∃ call, w.system.calls = [call] := by
      rcases hw with rfl | ⟨n, supply, taken, entries, got, h⟩
      · exact ⟨_, rfl⟩
      · exact h.calls.call
    obtain ⟨call, hcalls⟩ := hcalls
    exact effort_lt_of_step hcalls (fun _ _ c hhabit => hhabit.effort_lt c) hstep
  · rintro w (rfl | ⟨n, supply, taken, entries, got, h⟩)
    · exact .inr (.inl (goesOn_call rfl))
    · exact h.goesOn schedule hshort
  · rintro w (rfl | ⟨n, supply, taken, entries, got, h⟩) ⟨call, hcalls, hdone, hover⟩
    · cases hcalls
      cases hdone
    · obtain ⟨⟨c, calls, tasks⟩, answers, stop, results⟩ := w
      obtain ⟨hunderway, hanswers, hstop, hlone, hdraws, hgot, hall⟩ := h
      cases hcalls
      cases hunderway with
      | adding slot f hadded =>
        cases f with
        | done outcome =>
          rcases outcome with e | _ | _
          · exact hadded.elim
          · exact hadded.elim
          · exact absurd (.first slot) (hover _)
        | _ => cases hdone
      | advancing =>
        obtain ⟨slot, phase⟩ := n
        cases phase with
        | done more =>
          cases more with
          | true => exact absurd (.again slot slot) (hover _)
          | false =>
            obtain ⟨hclosed, hleft⟩ := hdraws.ended
            exact ⟨got, slot, taken, entries, rfl, rfl, hclosed, hgot, hall, hleft⟩
        | _ => cases hdone

end World
end RowStream
