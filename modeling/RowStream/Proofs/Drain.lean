import Mathlib
import RowStream.Proofs.Exhausting
import RowStream.Proofs.Reading

/-!
# Draining a stream

A caller that opens a cursor with a first reply and advances until there is no row gets every row
of the stream once and in order, and then the error that ended the stream, or none.
-/

namespace RowStream

/-! ## 1. The invariant -/

/-- The invariant of a caller that drains a stream: the advance that is under way, or yet to begin,
reads it, after the rows whose values have been handed out. -/
structure World.Drains (s : Stream) {t : Target} (w : World) (n : Next t) (supply : Supply)
    (taken : List Datum) (got : List t.Slot) : Prop where
  calls : Drained n got w.system.calls w.results
  answers : w.answers = supply.map .ofOutcome
  stop : w.stop ≠ .breakdown
  reads : n.Reads s w.system.cursor w.system.tasks supply taken
  got : taken.map t.value? = got.map some

namespace World

variable {s : Stream} {t : Target} {w w' : World} {n : Next t} {supply : Supply}
  {taken : List Datum} {got : List t.Slot}

-- Once the first reply is added, an advance reads the stream from its beginning.
theorem reads_start {setup : Setup} {schedule : Schedule} {release : Bool} {slot : t.Slot}
    {first : Reply} {outcomes : Supply} {calm : Prop}
    (hends : Supply.Ends (.ok first :: outcomes))
    (hread : ∀ text ∈ Supply.texts (.ok first :: outcomes), ∃ rows, setup.rows text = .ok rows)
    (hdecode : ∀ row ∈ setup.rowsOfAll (Supply.texts (.ok first :: outcomes)),
      ∃ value, t.value? row = some value)
    (hcalm : calm → schedule = .betweenCalls ∨ ∀ e, .error e ∉ outcomes) :
    (Next.start slot).Reads
      ⟨setup, schedule, setup.rowsOfAll (Supply.texts (.ok first :: outcomes)),
        Supply.error? (.ok first :: outcomes), False, calm⟩
      (({ release } : Cursor).accept first).openGate [] outcomes [] := by
  refine Next.reads_iff.mpr ⟨⟨setup.rowsOfAll (Supply.texts (.ok first :: outcomes)), ?_,
    List.nil_append _⟩, hdecode⟩
  rw [← Setup.entriesOfAll_of_readable hread]
  exact follows_start (.inl hends) hcalm

-- A stream that is read is drawn on by a reader that knows nothing of errors.
theorem Drains.exhausts (h : w.Drains s n supply taken got) :
    ∃ entries, w.Exhausts s .unaware (s.rows.map .ok) n supply taken entries got := by
  obtain ⟨⟨left, hfollows, hrows⟩, -⟩ := Next.reads_iff.mp h.reads
  exact ⟨left.map .ok,
    { calls := h.calls
      answers := h.answers
      stop := h.stop
      lone := False.elim
      draws := .follows hfollows False.elim
      got := h.got
      all := by rw [← List.map_append, hrows] }⟩

-- If all rows fit, drawing on their entries is reading them.
theorem Exhausts.drains {entries : List Entry}
    (h : w.Exhausts s .unaware (s.rows.map .ok) n supply taken entries got)
    (hdecode : ∀ row ∈ s.rows, ∃ value, t.value? row = some value) :
    w.Drains s n supply taken got := by
  obtain ⟨before, left, hrows, hbefore, rfl⟩ := List.map_eq_append_iff.mp h.all.symm
  have htaken : before = taken := (List.map_inj_right fun _ _ => Except.ok.inj).mp hbefore
  rw [htaken] at hrows
  refine ⟨h.calls, h.answers, h.stop, ?_, h.got⟩
  cases h.draws with
  | follows hfollows => exact Next.reads_iff.mpr ⟨⟨left, hfollows, hrows.symm⟩, hdecode⟩
  | @quits e hfails =>
    exact absurd hfails (Target.not_failsAt (fun row hrow =>
      hdecode row (hrows ▸ List.mem_append_right taken hrow)) e)

-- The first step of the world adds the first reply.
theorem drains_of_step {release : Bool} {first : Reply} {outcomes : Supply} {stop : Answer}
    (slot : t.Slot) (hstop : stop ≠ .breakdown)
    (hreads : (Next.start slot).Reads s (({ release } : Cursor).accept first).openGate []
      outcomes [])
    (h : Step s.setup s.schedule (Call.GoesOnAdvancing t) (draining release first outcomes stop)
      w') :
    ∃ (n : Next t) (supply : Supply) (taken : List Datum) (got : List t.Slot),
      w'.Drains s n supply taken got := by
  obtain ⟨⟨left, hfollows, hrows⟩, hdecode⟩ := Next.reads_iff.mp hreads
  have hleft : left.map .ok = (s.rows.map .ok : List Entry) := congrArg _ hrows
  rw [hleft] at hfollows
  have hexhausts := exhausts_of_step slot hstop False.elim
    (.follows (r := .unaware) hfollows False.elim) h
  exact ⟨_, _, _, _, hexhausts.drains hdecode⟩

-- Every step of the world preserves the invariant.
theorem Drains.step (h : w.Drains s n supply taken got)
    (hworld : Step s.setup s.schedule (Call.GoesOnAdvancing t) w w') :
    ∃ (n : Next t) (supply : Supply) (taken : List Datum) (got : List t.Slot),
      w'.Drains s n supply taken got := by
  obtain ⟨entries, hexhausts⟩ := h.exhausts
  obtain ⟨n, supply, taken, entries, got, hnext⟩ := hexhausts.step (fun _ => rfl) hworld
  exact ⟨n, supply, taken, got, hnext.drains h.reads.decodable⟩

-- The caller has got what it wants, or the world goes on.
theorem Drains.goesOn (hshort : ¬ s.short) (h : w.Drains s n supply taken got) :
    w.Over (Call.GoesOnAdvancing t) ∨
      ∃ later, Step s.setup s.schedule (Call.GoesOnAdvancing t) w later := by
  obtain ⟨entries, hexhausts⟩ := h.exhausts
  refine (hexhausts.goesOn s.schedule fun h => absurd h hshort).imp_right fun hlater => ?_
  exact hlater.resolve_right fun hstuck => hshort hstuck.1

end World

/-! ## 2. The theorem -/

/-- Whatever the schedule, advancing until there is no row comes to an end.  The cursor is closed
then, and its error is the one that ended the stream.  The values handed out are those of the first
rows of the stream, and of all its rows unless a fetch fails while rows are being added from the
background in the middle of an advance. -/
theorem drain_returns {t : Target} (setup : Setup) (schedule : Schedule) (release : Bool)
    (first : Reply) (outcomes : Supply) (stop : Answer)
    (hends : Supply.Ends (.ok first :: outcomes))
    (hread : ∀ text ∈ Supply.texts (.ok first :: outcomes), ∃ rows, setup.rows text = .ok rows)
    (hdecode : ∀ row ∈ setup.rowsOfAll (Supply.texts (.ok first :: outcomes)),
      ∃ value, t.value? row = some value)
    (hstop : stop ≠ .breakdown) :
    World.Returns setup schedule (Call.GoesOnAdvancing t)
      (World.draining release first outcomes stop) fun w =>
        ∃ (got : List t.Slot) (last : t.Slot) (taken : List Datum),
          w.results = .extend (.done (.ok true)) ::
            got.map (fun value => .next (t := t) ⟨value, .done true⟩) ∧
          w.system.calls = [.next (t := t) ⟨last, .done false⟩] ∧
          w.system.cursor.closed = true ∧
          w.system.cursor.error? = Supply.error? (.ok first :: outcomes) ∧
          taken.map t.value? = got.map some ∧
          taken <+: setup.rowsOfAll (Supply.texts (.ok first :: outcomes)) ∧
          (schedule = .betweenCalls ∨ (∀ e, .error e ∉ outcomes) →
            taken = setup.rowsOfAll (Supply.texts (.ok first :: outcomes))) := by
  let s : Stream := ⟨setup, schedule, setup.rowsOfAll (Supply.texts (.ok first :: outcomes)),
    Supply.error? (.ok first :: outcomes), False,
    schedule = .betweenCalls ∨ ∀ e, .error e ∉ outcomes⟩
  have hstart : (Next.start t.blank).Reads s (({ release } : Cursor).accept first).openGate []
      outcomes [] := World.reads_start hends hread hdecode id
  -- Only the first step is outside the invariant: it adds the first reply.
  apply World.returns_of_invariant
    (fun w => w = World.draining release first outcomes stop ∨
      ∃ (n : Next t) (supply : Supply) (taken : List Datum) (got : List t.Slot),
        w.Drains s n supply taken got)
    (World.effort setup)
  · exact .inl rfl
  · rintro w w' (rfl | ⟨n, supply, taken, got, hdrains⟩) hstep
    · exact .inr (World.drains_of_step t.blank hstop hstart hstep)
    · exact .inr (hdrains.step hstep)
  · intro w w' hw hstep
    have hcalls : ∃ call, w.system.calls = [call] := by
      rcases hw with rfl | ⟨n, supply, taken, got, hdrains⟩
      · exact ⟨_, rfl⟩
      · exact hdrains.calls.call
    obtain ⟨call, hcalls⟩ := hcalls
    refine World.effort_lt_of_step hcalls ?_ hstep
    intro call op c hhabit
    cases hhabit with
    | first slot =>
      have hlook := c.lookEffort_bounds
      show 13 < c.lookEffort + 6
      omega
    | again => exact Nat.lt_succ_self 13
  · rintro w (rfl | ⟨n, supply, taken, got, hdrains⟩)
    · exact .inr (World.goesOn_call rfl)
    · exact hdrains.goesOn id
  · rintro w (rfl | ⟨n, supply, taken, got, hdrains⟩) ⟨call, hcalls, hdone, hover⟩
    · cases hcalls
      cases hdone
    · obtain ⟨⟨c, calls, tasks⟩, answers, stop, results⟩ := w
      obtain ⟨hdrained, hanswers, hstop, hreads, hgot⟩ := hdrains
      cases hcalls
      cases hdrained with
      | adding slot f hadded =>
        cases f with
        | done outcome =>
          rcases outcome with e | _ | _
          · exact hadded.elim
          · exact hadded.elim
          · exact absurd (.first slot) (hover _)
        | _ => cases hdone
      | advancing =>
        obtain ⟨slot, phase⟩ := n
        cases phase with
        | done more =>
          cases more with
          | true => exact absurd (.again slot slot) (hover _)
          | false =>
            obtain ⟨hclosed, herror, hprefix, hall⟩ := hreads.ended
            exact ⟨got, slot, taken, rfl, rfl, hclosed, herror, hgot, hprefix, hall⟩
        | _ => cases hdone

/-- Two rows of the first reply and one of the second. -/
theorem drain_returns_three :
    World.Returns (.ordinary 1 {}) .betweenCalls (Call.GoesOnAdvancing .string)
      (World.draining false ⟨.partialSequence, ["[\"a\",\"b\"]", "[]"], none⟩
        [.ok ⟨.sequence, ["\"c\""], none⟩] (.reply ⟨.sequence, [], none⟩)) fun w =>
        w.results = [.extend (.done (.ok true)), .next (t := .string) ⟨"a", .done true⟩,
            .next (t := .string) ⟨"b", .done true⟩, .next (t := .string) ⟨"c", .done true⟩] ∧
          w.system.cursor.error? = none := by
  have hread : ∀ text ∈ ["[\"a\",\"b\"]", "[]", "\"c\""],
      ∃ rows, (Setup.ordinary 1 {}).rows text = .ok rows := by
    simp only [List.forall_mem_cons]
    exact ⟨⟨[.string "a", .string "b"], by cbv⟩, ⟨[], by cbv⟩, ⟨[.string "c"], by cbv⟩,
      List.forall_mem_nil _⟩
  have hrows : (Setup.ordinary 1 {}).rowsOfAll ["[\"a\",\"b\"]", "[]", "\"c\""] =
      [.string "a", .string "b", .string "c"] := by cbv
  have hdecode : ∀ row ∈ [Datum.string "a", .string "b", .string "c"],
      ∃ value, Target.string.value? row = some value := by
    simp only [List.forall_mem_cons]
    exact ⟨⟨"a", rfl⟩, ⟨"b", rfl⟩, ⟨"c", rfl⟩, List.forall_mem_nil _⟩
  have h := drain_returns (t := .string) (.ordinary 1 {}) .betweenCalls false
    ⟨.partialSequence, ["[\"a\",\"b\"]", "[]"], none⟩ [.ok ⟨.sequence, ["\"c\""], none⟩]
    (.reply ⟨.sequence, [], none⟩) (.inr (.inl rfl)) hread (hrows ▸ hdecode)
    (fun hends => by cases hends)
  apply h.mono
  rintro w ⟨got, last, taken, hresults, -, -, herror, hvalues, -, hall⟩
  have htaken : taken = [.string "a", .string "b", .string "c"] := (hall (.inl rfl)).trans hrows
  have hgot : got = ["a", "b", "c"] := by
    rw [htaken] at hvalues
    exact (List.map_inj_right fun _ _ => Option.some.inj).mp hvalues.symm
  rw [hgot] at hresults
  exact ⟨hresults, herror⟩

end RowStream
