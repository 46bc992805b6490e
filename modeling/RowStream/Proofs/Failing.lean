import Mathlib
import RowStream.Proofs.Closed
import RowStream.Proofs.Conservation
import RowStream.Proofs.Exhausting

/-!
# The first failure of a stream

A text that cannot be read, or a row that does not fit the destination, ends the rows.  A caller
that advances until there is no row gets none of the rows after it and those before it, unless a
query fails in the middle of an advance; the cursor is closed then and has the error of the failure,
or another one that a fetch has recorded before.
-/

namespace RowStream

variable {setup : Setup} {t : Target} {texts : List String} {preceding taken : List Datum}
  {e : Error} {entries : List Entry} {got : List t.Slot}

/-! ## 1. First failures -/

/-- The first failure of texts, with the rows that precede it and its error: a text that cannot be
read, which has no rows, or a row that does not fit, which comes after other rows of its text. -/
inductive Setup.FirstFailure (setup : Setup) (t : Target) :
    List String → List Datum → Error → Prop
  | text {before later : List String} {text : String} {e : Error}
    (hread : ∀ text ∈ before, ∃ rows, setup.rows text = .ok rows)
    (hfit : ∀ row ∈ setup.rowsOfAll before, ∃ value, t.value? row = some value)
    (htext : setup.rows text = .error e) :
    FirstFailure setup t (before ++ text :: later) (setup.rowsOfAll before) e
  | row {before later : List String} {text : String} {rows more : List Datum} {row : Datum}
    {e : DecodeError} (hread : ∀ text ∈ before, ∃ rows, setup.rows text = .ok rows)
    (hfit : ∀ row ∈ setup.rowsOfAll before ++ rows, ∃ value, t.value? row = some value)
    (htext : setup.rows text = .ok (rows ++ row :: more))
    (hrow : (t.decode t.blank row).result = .error e) :
    FirstFailure setup t (before ++ text :: later) (setup.rowsOfAll before ++ rows) (.decode e)

-- What fails is the first entry after those of the rows that precede it.
theorem Setup.FirstFailure.failsAt (h : setup.FirstFailure t texts preceding e) :
    ∃ failing, setup.entriesOfAll texts = preceding.map .ok ++ failing ∧ t.FailsAt failing e := by
  cases h with
  | @text before later text e hread hfit htext =>
    refine ⟨.error e :: setup.entriesOfAll later, ?_, _, _, rfl, rfl⟩
    rw [Setup.entriesOfAll_append, Setup.entriesOfAll_cons, Setup.entriesOfAll_of_readable hread,
      Setup.entries_of_error htext]
    rfl
  | @row before later text rows more row e hread hfit htext hrow =>
    refine ⟨.ok row :: (more.map .ok ++ setup.entriesOfAll later), ?_, _, _, rfl, ?_⟩
    · rw [Setup.entriesOfAll_append, Setup.entriesOfAll_cons, Setup.entriesOfAll_of_readable hread,
        Setup.entries_of_ok htext]
      simp only [List.map_append, List.map_cons, List.append_assoc, List.cons_append]
    · show (t.decode t.blank row).result.mapError Error.decode = _
      rw [hrow]
      rfl

theorem Setup.FirstFailure.fit (h : setup.FirstFailure t texts preceding e) :
    ∀ row ∈ preceding, ∃ value, t.value? row = some value := by
  cases h with
  | text _ hfit => exact hfit
  | row _ hfit => exact hfit

/-! ## 2. Rows before the first failure -/

-- Rows with values at the front of entries come before the first one without a value.
theorem prefix_of_failsAt {failing : List Entry}
    (hfit : ∀ row ∈ taken, ∃ value, t.value? row = some value)
    (hentries : taken.map .ok ++ entries = preceding.map .ok ++ failing)
    (hfails : t.FailsAt failing e) : taken <+: preceding := by
  have hinjective {xs ys : List Datum} (h : (xs.map .ok : List Entry) = ys.map .ok) : xs = ys :=
    (List.map_inj_right fun _ _ => Except.ok.inj).mp h
  rcases List.append_eq_append_iff.mp hentries with ⟨rest, hrest, -⟩ | ⟨rest, hrest, hfailing⟩
  · obtain ⟨before, later, rfl, hbefore, -⟩ := List.map_eq_append_iff.mp hrest
    rw [hinjective hbefore]
    exact List.prefix_append taken later
  · obtain ⟨before, later, rfl, hbefore, hlater⟩ := List.map_eq_append_iff.mp hrest
    cases later with
    | nil =>
      rw [List.append_nil]
      exact hinjective hbefore ▸ List.prefix_refl before
    | cons row later =>
      -- The entry without a value would be one of the rows.
      obtain ⟨entry, others, rfl, hvalue⟩ := hfails
      rw [← hlater] at hfailing
      have hfails' : t.FailsAt ((row :: later).map .ok) e :=
        ⟨entry, later.map .ok, by rw [(List.cons.inj hfailing).1]; rfl, hvalue⟩
      exact absurd hfails' (Target.not_failsAt (fun row hrow =>
        hfit row (List.mem_append_right before hrow)) e)

/-! ## 3. The end of a drain -/

-- What a caller has got of texts with a first failure, when there is no row: all rows before it, or
-- fewer if the end was found while some were being added.
theorem Next.LeftOver.of_firstFailure {s : Stream} {r : Reader} {c : Cursor}
    (h : LeftOver s r t c entries) (hgot : taken.map t.value? = got.map some)
    (hall : taken.map .ok ++ entries = setup.entriesOfAll texts)
    (hfailure : setup.FirstFailure t texts preceding e) :
    taken <+: preceding ∧
      ((∃ kept, taken = preceding ∧ c.error? = some kept ∧ (kept = e ∨ s.final = some kept) ∧
          (r.lone → some kept = r.first?.or (some e))) ∨
        (¬ s.calm ∧ c.error? = s.final)) := by
  obtain ⟨failing, htexts, hfails⟩ := hfailure.failsAt
  have hfit : ∀ row ∈ taken, ∃ value, t.value? row = some value := Target.fit_iff.mpr ⟨got, hgot⟩
  have hbefore := prefix_of_failsAt hfit (hall.trans htexts) hfails
  refine ⟨hbefore, ?_⟩
  cases h with
  | nothing herror hnone =>
    refine .inr ⟨fun hcalm => ?_, herror⟩
    -- All entries would be rows that have been handed out.
    rw [hnone hcalm, List.append_nil, htexts] at hall
    obtain ⟨before, later, rfl, -, hlater⟩ := List.map_eq_append_iff.mp hall
    rw [← hlater] at hfails
    exact Target.not_failsAt (fun row hrow => hfit row (List.mem_append_right before hrow)) e hfails
  | @failure e' kept hleft herror hkept hlone =>
    have hafter := prefix_of_failsAt hfailure.fit (htexts.symm.trans hall.symm) hleft
    have hsame : taken = preceding :=
      hbefore.eq_of_length (Nat.le_antisymm hbefore.length_le hafter.length_le)
    have heq : e' = e := by
      rw [hsame, htexts] at hall
      rw [List.append_cancel_left hall] at hleft
      exact Option.some.inj (hleft.values_eq.2.symm.trans hfails.values_eq.2)
    rw [heq] at hkept hlone
    exact .inl ⟨kept, hsame, herror, hkept, hlone⟩

theorem Setup.FirstFailure.failure?_eq (h : setup.FirstFailure t texts preceding e) :
    t.failure? (setup.entriesOfAll texts) = some e := by
  obtain ⟨failing, htexts, hfails⟩ := h.failsAt
  obtain ⟨got, hgot⟩ := Target.fit_iff.mp h.fit
  rw [htexts, (Target.values_append hgot failing).2, hfails.values_eq.2]

-- An error reply brings no texts, and nothing comes after it.
theorem Setup.FirstFailure.error?_eq_none {first : Reply} {outcomes : Supply}
    (h : setup.FirstFailure t (Supply.texts (.ok first :: outcomes)) preceding e) :
    first.error? = none := by
  cases herror : first.error? with
  | none => rfl
  | some e' =>
    have hfailure := h.failure?_eq
    rw [Supply.texts, Reply.texts_of_error herror, Reply.isLast_of_error herror] at hfailure
    cases hfailure

-- Reading a text fails with a decoding error, if normalizing a value does.
theorem Setup.eq_decode_of_rows {text : String} (h : setup.rows text = .error e)
    (hnormalize : ∀ value e, setup.normalize value = .error e → ∃ d, e = .decode d) :
    ∃ d, e = .decode d := by
  simp only [rows, bind, Except.bind] at h
  cases hparse : Json.parse text with
  | error fault =>
    rw [hparse] at h
    cases h
    exact ⟨_, rfl⟩
  | ok json =>
    simp only [hparse, Except.mapError] at h
    cases hvalue : setup.normalize json with
    | error e' =>
      rw [hvalue] at h
      cases h
      exact hnormalize json e hvalue
    | ok value =>
      rw [hvalue] at h
      cases value <;> cases h

theorem Setup.FirstFailure.eq_decode (h : setup.FirstFailure t texts preceding e)
    (hnormalize : ∀ value e, setup.normalize value = .error e → ∃ d, e = .decode d) :
    ∃ d, e = .decode d := by
  cases h with
  | row => exact ⟨_, rfl⟩
  | text _ _ htext => exact Setup.eq_decode_of_rows htext hnormalize

/-! ## 4. The theorem -/

/-- A text that cannot be read, or a row that does not fit, ends the rows.  Whatever the schedule,
advancing until there is no row comes to an end, unless the stream has no end, rows are fetched in
the background and the connection leaves a query without an answer for good.  The values handed out
are those of the first rows before the failure, and of all of them unless a fetch fails while rows
are being added from the background in the middle of an advance.  The cursor is closed then; its
error is that of the failure, unless a fetch in the background has recorded its own before.  No
operation after that hands out a row. -/
theorem failure_ends_rows (setup : Setup) (schedule : Schedule) (release : Bool) (first : Reply)
    (outcomes : Supply) (stop : Answer)
    (hfailure : setup.FirstFailure t (Supply.texts (.ok first :: outcomes)) preceding e)
    (hstop : stop ≠ .breakdown) :
    World.ReturnsUnless setup schedule (Call.GoesOnAdvancing t)
      (World.draining release first outcomes stop)
      (fun w => ¬ Supply.Ends (.ok first :: outcomes) ∧ setup.options.prefetch = true ∧
        w.Unanswered)
      fun w =>
        ∃ (got : List t.Slot) (last : t.Slot) (taken : List Datum),
          w.results = .extend (.done (.ok true)) ::
            got.map (fun value => .next (t := t) ⟨value, .done true⟩) ∧
          w.system.calls = [.next (t := t) ⟨last, .done false⟩] ∧
          w.system.cursor.closed = true ∧
          taken.map t.value? = got.map some ∧ taken <+: preceding ∧
          (schedule = .betweenCalls ∨ setup.options.prefetch = false ∨
              (∀ e, .error e ∉ outcomes) →
            taken = preceding ∧ (w.system.cursor.error? = some e ∨
              (setup.options.prefetch = true ∧ ∃ kept, w.system.cursor.error? = some kept ∧
                Supply.error? (.ok first :: outcomes) = some kept))) ∧
          (w.system.cursor.error? = some e ∨
            w.system.cursor.error? = Supply.error? (.ok first :: outcomes)) ∧
          ((∀ value e, setup.normalize value = .error e → ∃ d, e = .decode d) →
            ∃ d, e = .decode d) ∧
          ∀ stages later, Run setup { w.system with calls := [] } stages later →
            ∀ call ∈ takenBack stages, ∃ op : Operation, op.EndsQuietly call := by
  -- Without prefetching the order of turns does not matter, so the background may as well keep to
  -- the times between the calls.
  let s : Stream := ⟨setup, if setup.options.prefetch then schedule else .betweenCalls,
    setup.rowsOfAll (Supply.texts (.ok first :: outcomes)), Supply.error? (.ok first :: outcomes),
    ¬ Supply.Ends (.ok first :: outcomes),
    schedule = .betweenCalls ∨ setup.options.prefetch = false ∨ ∀ e, .error e ∉ outcomes⟩
  let r : Reader := ⟨setup.options.prefetch = false, first.error?⟩
  have hbetween (hprefetch : setup.options.prefetch = false) : s.schedule = .betweenCalls := by
    simp only [s, hprefetch, Bool.false_eq_true, reduceIte]
  have hschedule (hprefetch : ¬ setup.options.prefetch = false) : schedule = s.schedule := by
    simp only [s, (Bool.not_eq_false _).mp hprefetch, reduceIte]
  have hcalm : s.calm → s.schedule = .betweenCalls ∨ ∀ e, .error e ∉ outcomes := by
    rintro (rfl | hprefetch | hsuccess)
    · exact .inl (ite_self _)
    · exact .inl (hbetween hprefetch)
    · exact .inr hsuccess
  have hstart : (({ release } : Cursor).accept first).openGate.error? = first.error? :=
    Cursor.error?_accept rfl
  have hdraws : (Next.start t.blank).Draws s r (({ release } : Cursor).accept first).openGate []
      outcomes (setup.entriesOfAll (Supply.texts (.ok first :: outcomes))) :=
    .follows (World.follows_start (Classical.em _) hcalm) fun _ => .inl hstart
  have hfails : t.failure? (setup.entriesOfAll (Supply.texts (.ok first :: outcomes))) ≠ none := by
    rw [hfailure.failure?_eq]
    exact Option.some_ne_none e
  apply (World.returns_of_draws hstop (fun h => ⟨hbetween h, h⟩) hschedule (fun _ => hfails)
    hdraws).mono
  · exact fun w ⟨hshort, hshared, hunanswered⟩ =>
      ⟨hshort, (Bool.not_eq_false _).mp hshared, hunanswered⟩
  rintro w ⟨got, last, taken, entries, hresults, hcalls, hclosed, hgot, hall, hleft⟩
  obtain ⟨hpreceding, hend⟩ := hleft.of_firstFailure hgot hall hfailure
  refine ⟨got, last, taken, hresults, hcalls, hclosed, hgot, hpreceding, fun hcalm => ?_, ?_,
    hfailure.eq_decode, fun stages later hrun => (hrun.quiet hclosed rfl).2.2.2⟩
  · obtain ⟨kept, hsame, herror, hkept, hlone⟩ := hend.resolve_right fun h => h.1 hcalm
    refine ⟨hsame, ?_⟩
    by_cases hprefetch : setup.options.prefetch = false
    · have hfirst : some kept = first.error?.or (some e) := hlone hprefetch
      rw [hfailure.error?_eq_none, Option.none_or] at hfirst
      exact .inl (herror.trans hfirst)
    · rcases hkept with rfl | hfinal
      · exact .inl herror
      · exact .inr ⟨(Bool.not_eq_false _).mp hprefetch, kept, herror, hfinal⟩
  · rcases hend with ⟨kept, -, herror, hkept | hfinal, -⟩ | ⟨-, herror⟩
    · exact .inl (hkept ▸ herror)
    · exact .inr (herror.trans hfinal.symm)
    · exact .inr herror

-- A text with a lone surrogate comes after two that can be read.
theorem firstFailure_of_lone_surrogate (later : List String) :
    ∃ d, (Setup.ordinary 1 {}).FirstFailure .string
      ("[\"a\"]" :: "\"b\"" :: "\"\\ud800\"" :: later) [.string "a", .string "b"] (.decode d) := by
  obtain ⟨d, hbad⟩ : ∃ d, (Setup.ordinary 1 {}).rows "\"\\ud800\"" = .error (.decode d) :=
    ⟨_, by cbv⟩
  have hrows : (Setup.ordinary 1 {}).rowsOfAll ["[\"a\"]", "\"b\""] =
      [.string "a", .string "b"] := by cbv
  have hread : ∀ text ∈ ["[\"a\"]", "\"b\""],
      ∃ rows, (Setup.ordinary 1 {}).rows text = .ok rows := by
    simp only [List.forall_mem_cons]
    exact ⟨⟨[.string "a"], by cbv⟩, ⟨[.string "b"], by cbv⟩, List.forall_mem_nil _⟩
  have hfit : ∀ row ∈ [Datum.string "a", .string "b"],
      ∃ value, Target.string.value? row = some value := by
    simp only [List.forall_mem_cons]
    exact ⟨⟨"a", rfl⟩, ⟨"b", rfl⟩, List.forall_mem_nil _⟩
  have hfailure : (Setup.ordinary 1 {}).FirstFailure .string
      (["[\"a\"]", "\"b\""] ++ "\"\\ud800\"" :: later)
      ((Setup.ordinary 1 {}).rowsOfAll ["[\"a\"]", "\"b\""]) (.decode d) :=
    .text hread (hrows ▸ hfit) hbad
  rw [hrows] at hfailure
  exact ⟨d, hfailure⟩

/-- A reply whose second text holds a lone surrogate: the reply is accepted, and the row of the
first text still comes after those of the reply before. -/
theorem failure_ends_rows_lone_surrogate :
    Reply.parse "\x7b\"t\":2,\"r\":[\"b\",\"\\ud800\",\"c\"]\x7d" =
      .ok ⟨.sequence, ["\"b\"", "\"\\ud800\"", "\"c\""], none⟩ ∧
    World.Returns (.ordinary 1 {}) .anywhere (Call.GoesOnAdvancing .string)
      (World.draining false ⟨.partialSequence, ["[\"a\"]"], none⟩
        [.ok ⟨.sequence, ["\"b\"", "\"\\ud800\"", "\"c\""], none⟩] (.reply ⟨.sequence, [], none⟩))
      fun w =>
        w.results = [.extend (.done (.ok true)), .next (t := .string) ⟨"a", .done true⟩,
            .next (t := .string) ⟨"b", .done true⟩] ∧
          ∃ d, w.system.cursor.error? = some (.decode d) := by
  obtain ⟨d, hfailure⟩ := firstFailure_of_lone_surrogate ["\"c\""]
  have h := failure_ends_rows (t := .string) (.ordinary 1 {}) .anywhere false
    ⟨.partialSequence, ["[\"a\"]"], none⟩
    [.ok ⟨.sequence, ["\"b\"", "\"\\ud800\"", "\"c\""], none⟩] (.reply ⟨.sequence, [], none⟩)
    hfailure (fun hbreakdown => by cases hbreakdown)
  refine ⟨by cbv, (h.returns fun _ hstuck => hstuck.1 (.inr (.inl rfl))).mono ?_⟩
  rintro w ⟨got, last, taken, hresults, -, -, hgot, -, hcalm, -⟩
  obtain ⟨htaken, herror⟩ :=
    hcalm (.inr (.inr fun e hmem => by cases List.mem_singleton.mp hmem))
  rw [htaken] at hgot
  have hvalues : got = ["a", "b"] := (List.map_inj_right fun _ _ => Option.some.inj).mp hgot.symm
  rw [hvalues] at hresults
  refine ⟨hresults, d, herror.resolve_right ?_⟩
  rintro ⟨-, kept, -, hkept⟩
  cases hkept

/-- A reply from the background comes between the look of the second advance and its passing the gate;
then the advance asks for more rows itself, and its query fails. -/
def failingQuery : List Move :=
  [.begin (.extend ⟨.partialSequence, ["[\"a\"]"], none⟩), .call 0, .call 0, .call 0, .collect 0,
    .begin (.next (t := .string) ""), .call 0, .call 0, .call 0, .collect 0,
    .begin (.next (t := .string) ""), .call 0, .call 0,
    .task 0, .task 0, .task 0,
    .answerTask 0 (.reply ⟨.partialSequence, ["\"b\"", "\"\\ud800\""], none⟩), .task 0,
    .call 0, .call 0, .call 0, .answerCall 0 (.failure (.connection (.reported "reset"))), .call 0,
    .call 0, .call 0, .call 0, .call 0, .call 0, .answerCall 0 (.reply ⟨.sequence, [], none⟩),
    .call 0, .collect 0]

/-- A query that fails ends the rows, although a row that came before the text that cannot be read is
left in the queue. -/
theorem row_before_failure_not_handed_out :
    (∃ d, (Setup.ordinary 1 {}).FirstFailure .string ["[\"a\"]", "\"b\"", "\"\\ud800\""]
      [.string "a", .string "b"] (.decode d)) ∧
    ∃ stages s, (System.opened false).stages? (.ordinary 1 {}) failingQuery = some (stages, s) ∧
      (accepted stages).flatMap Reply.texts = ["[\"a\"]", "\"b\"", "\"\\ud800\""] ∧
      (handedOut stages).length = 1 ∧ (∃ stage ∈ stages, stage.FindsNoRow) ∧
      s.calls.length = 0 ∧ s.cursor.closed = true ∧
      s.cursor.error? = some (.connection (.reported "reset")) := by
  have hmoves : ((System.opened false).stages? (.ordinary 1 {}) failingQuery).any fun run =>
      (accepted run.1).flatMap Reply.texts = ["[\"a\"]", "\"b\"", "\"\\ud800\""] ∧
      (handedOut run.1).length = 1 ∧ (∃ stage ∈ run.1, stage.FindsNoRow) ∧
      run.2.calls.length = 0 ∧ run.2.cursor.closed = true ∧
      run.2.cursor.error? = some (.connection (.reported "reset")) := by
    decide +kernel
  obtain ⟨⟨stages, s⟩, hstages, hholds⟩ := (Option.any_eq_true _ _).mp hmoves
  exact ⟨firstFailure_of_lone_surrogate [], stages, s, hstages, of_decide_eq_true hholds⟩

end RowStream
