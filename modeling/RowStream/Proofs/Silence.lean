import RowStream.Proofs.InFlight

/-!
# Queries after closing

A fetch looks whether the cursor is closed and sends its query in the turn after that.  In between
the cursor can be closed and its connection given back, and the query still goes out.  There is no
other way in which more rows are asked for on a closed cursor.
-/

namespace RowStream

variable {s : System} {stages : List Stage}

/-! ## 1. Who is about to send a query can send it -/

/-- The events of a turn that sends a query for more rows. -/
def asking : List Event := [.logged .requesting, .sent .more]

theorem Fetch.eq_send_of_sending {f? : Option Fetch} (h : (f?.map Fetch.sending).getD 0 ≠ 0) :
    f? = some .send := by
  cases f? with
  | none => exact absurd rfl h
  | some f =>
    cases f with
    | send => rfl
    | _ => exact absurd rfl h

/-- A query that is about to be sent can be sent in the next move. -/
theorem System.asks_of_sending (h : s.sending ≠ 0) (setup : Setup) :
    ∃ move s' happenings, s.move? setup move = some (s', happenings) ∧
      happenings.countP Happening.asks = 1 := by
  have hsome : (∃ call ∈ s.calls, call.fetch? = some .send) ∨
      ∃ task ∈ s.tasks, task.fetch? = some .send := by
    by_contra hnone
    rw [not_or] at hnone
    apply h
    have hcalls : (s.calls.map fun call => (call.fetch?.map Fetch.sending).getD 0).sum = 0 := by
      apply List.sum_eq_zero
      simp only [List.mem_map]
      rintro count ⟨call, hcall, rfl⟩
      by_contra hsends
      exact hnone.1 ⟨call, hcall, Fetch.eq_send_of_sending hsends⟩
    have htasks : (s.tasks.map fun task => (task.fetch?.map Fetch.sending).getD 0).sum = 0 := by
      apply List.sum_eq_zero
      simp only [List.mem_map]
      rintro count ⟨task, htask, rfl⟩
      by_contra hsends
      exact hnone.2 ⟨task, htask, Fetch.eq_send_of_sending hsends⟩
    rw [sending, hcalls, htasks]
  have hsends : Fetch.step setup s.cursor .send = some ⟨s.cursor, .waiting, asking⟩ := rfl
  rcases hsome with ⟨call, hcall, hsend⟩ | ⟨task, htask, hsend⟩
  · obtain ⟨place, hplace⟩ := List.mem_iff_getElem?.mp hcall
    obtain ⟨next, hstep⟩ := Call.step_of_fetch? hsend hsends
    refine ⟨.call place, (heedAll { s with calls := s.calls.set place next } asking).1,
      asking.map .event, ?_, rfl⟩
    simp only [move?, hplace, hstep, Option.bind_eq_bind, Option.bind_some]
    rfl
  · obtain ⟨place, hplace⟩ := List.mem_iff_getElem?.mp htask
    obtain ⟨next, hstep⟩ := Task.step_of_fetch? hsend hsends
    refine ⟨.task place, (heedAll { s with tasks := s.tasks.set place next } asking).1,
      asking.map .event, ?_, rfl⟩
    simp only [move?, hplace, hstep, Option.bind_eq_bind, Option.bind_some]
    rfl

/-! ## 2. How many there are -/

theorem Accounted.sending_le {lost : Nat} (h : Accounted stages s lost) :
    s.sending ≤ s.holding := by
  have hcount (f? : Option Fetch) :
      (f?.map Fetch.sending).getD 0 ≤ Fetch.count Fetch.holds f? := by
    cases f? with
    | none => exact Nat.le_refl 0
    | some f =>
      cases f with
      | check | waiting | fold | aborted => exact Nat.zero_le 1
      | _ => exact Nat.le_refl _
  apply System.total_le_total (v := .sending) (w := .asking Fetch.holds rfl)
  · intro call hcall
    show (call.fetch?.map Fetch.sending).getD 0 ≤ Fetch.count Fetch.holds call.asking?
    cases happends : call.appends with
    | false =>
      rw [Call.asking?_of_not_appends happends]
      exact hcount call.fetch?
    | true =>
      cases call with
      | extend f =>
        have hastray : (!f.pastAsking).toNat ≤ 0 :=
          h.astray_eq ▸ System.ofCall_le_total hcall .astray
        cases f with
        | send => cases hastray
        | _ => exact Nat.zero_le _
      | next | one | all | item | close => cases happends
  · exact fun task _ => hcount task.fetch?

/-! ## 3. The theorem -/

/-- In every state in which a cursor is closed: all queries for more rows that go out from then on
are those that were about to be sent, of fetches that had looked at the cursor and not sent; there
is one of these at most, and one more for every reply that was added from outside while a fetch held
the gate; and in each later state, whatever has been stopped or given back by then, a query goes out
on some continuation exactly if one is still about to be sent. -/
theorem asked_after_closing {setup : Setup} {release : Bool} {before later : List Stage}
    {s₁ s : System} (hbefore : Run setup (.opened release) before s₁)
    (hclosed : s₁.cursor.closed = true) (hlater : Run setup s₁ later s) :
    asked later + s.sending = s₁.sending ∧
      s₁.sending ≤ 1 + intrusions before ∧
      ((∃ more s', Run setup s more s' ∧ asked more ≠ 0) ↔ s.sending ≠ 0) := by
  obtain ⟨hend, hstages⟩ := hlater.closed hclosed
  have hasked := hlater.asked_of_stuck fun stage hstage =>
    Cursor.canContinue_of_closed (hstages stage hstage)
  refine ⟨hasked, ?_, ?_, ?_⟩
  · obtain ⟨lost, haccounted⟩ := hbefore.accounted
    have hsending := haccounted.sending_le
    have hholding := haccounted.holding_le
    have hgate := s₁.cursor.fetching.toNat_le
    omega
  · rintro ⟨more, s', hmore, hasks⟩
    have hstuck := hmore.asked_of_stuck fun stage hstage =>
      Cursor.canContinue_of_closed ((hmore.closed hend).2 stage hstage)
    omega
  · intro hsending
    obtain ⟨move, s', happenings, hmove, hasks⟩ := System.asks_of_sending hsending setup
    refine ⟨_, s', Run.snoc .nil hmove, ?_⟩
    rw [asked_concat]
    show 0 + happenings.countP Happening.asks ≠ 0
    omega

/-- A fetch in the background has looked at the cursor when the cursor is closed.  The stop query is
answered and the connection given back, and then the fetch sends its query. -/
theorem asked_after_closing_released :
    ∃ before s₁ later s more s',
      Run (.ordinary 1 {}) (.opened true) before s₁ ∧ s₁.cursor.closed = true ∧
      Run (.ordinary 1 {}) s₁ later s ∧ stops later = 1 ∧ released later = [none] ∧
      Run (.ordinary 1 {}) s more s' ∧ asked more ≠ 0 := by
  obtain ⟨before, s₁, later, s, hbefore, hclosed, hlater, hstops, hreleased, hsending⟩ :
      ∃ before s₁ later s,
        (System.opened true).stages? (.ordinary 1 {})
          [.begin (.extend ⟨.partialSequence, ["1"], none⟩), .call 0, .call 0, .call 0, .collect 0,
            .task 0, .task 0, .begin .close, .call 0] = some (before, s₁) ∧
        s₁.cursor.closed = true ∧
        s₁.stages? (.ordinary 1 {})
          [.call 0, .call 0, .answerCall 0 (.reply ⟨.sequence, [], none⟩), .call 0, .collect 0] =
            some (later, s) ∧
        stops later = 1 ∧ released later = [none] ∧ s.sending ≠ 0 :=
    ⟨_, _, _, _, rfl, rfl, rfl, rfl, rfl, nofun⟩
  obtain ⟨-, -, hiff⟩ :=
    asked_after_closing (Run.of_stages? hbefore) hclosed (Run.of_stages? hlater)
  obtain ⟨more, s', hmore, hasks⟩ := hiff.mpr hsending
  exact ⟨before, s₁, later, s, more, s', Run.of_stages? hbefore, hclosed, Run.of_stages? hlater,
    hstops, hreleased, hmore, hasks⟩

end RowStream
