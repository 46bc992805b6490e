import Mathlib.Order.Bounds.Defs
import RowStream.Proofs.Account
import RowStream.Proofs.Exhausting
import RowStream.Proofs.Silence

/-!
# Fetching on demand

Without fetches in the background an advance asks for more only after all rows that the cursor was
given have been handed out.  So when there is a row, as many replies have been asked for as it takes
to have that row, and at the end as many as it takes to come to the outcome that ends the stream.
-/

namespace RowStream

variable {setup : Setup} {first : Reply} {outcomes : Supply} {m : Nat} {t : Target} {c c' : Cursor}
  {s s' : System} {stages : List Stage} {move : Move} {happenings : List Happening}

/-! ## 1. What the outcomes give -/

/-- The replies among some outcomes. -/
def Supply.replies (supply : Supply) : List Reply := supply.filterMap Except.toOption

/-- The rows of a first reply and of the replies among the first outcomes after it. -/
def Setup.rowsWithin (setup : Setup) (first : Reply) (outcomes : Supply) (m : Nat) : List Datum :=
  setup.rowsOfAll ((first :: Supply.replies (outcomes.take m)).flatMap Reply.texts)

theorem Supply.replies_concat (supply : Supply) (outcome : Except Error Reply) :
    replies (supply ++ [outcome]) = replies supply ++ outcome.toOption.toList := by
  rw [replies, List.filterMap_append]
  cases outcome <;> rfl

theorem Supply.ends_append {supply later : Supply} :
    Ends (supply ++ later) ↔ Ends supply ∨ Ends later := by
  induction supply with
  | nil => exact (or_iff_right id).symm
  | cons outcome supply ih =>
    cases outcome with
    | ok reply => rw [List.cons_append, Ends, Ends, ih, or_assoc]
    | error e => exact ⟨fun _ => .inl trivial, fun _ => trivial⟩

theorem Supply.take_next {outcome : Except Error Reply} (h : outcomes[m]? = some outcome) :
    outcomes.take (m + 1) = outcomes.take m ++ [outcome] := by
  rw [List.take_add_one, h]
  rfl

/-- The answer to a query for more rows. -/
def Happening.fetched? : Happening → Option Answer
  | answered .more a => some a
  | _ => none

/-- The answers to the queries for more rows. -/
def fetched (stages : List Stage) : List Answer := (happened stages).filterMap Happening.fetched?

theorem fetched_concat (stages : List Stage) (stage : Stage) :
    fetched (stages ++ [stage]) =
      fetched stages ++ stage.happenings.filterMap Happening.fetched? := by
  rw [fetched, happened_concat, List.filterMap_append]
  rfl

theorem filterMap_fetched?_events (events : List Event) :
    (events.map Happening.event).filterMap Happening.fetched? = [] := by
  rw [List.filterMap_map, List.filterMap_eq_nil_iff]
  exact fun _ _ => rfl

-- The answers are the outcomes one after another, so the next answer is the next outcome.
theorem eq_ofOutcome_of_prefix {answers : List Answer} {a : Answer}
    (h : answers ++ [a] <+: outcomes.map .ofOutcome) :
    ∃ outcome, outcomes[answers.length]? = some outcome ∧ a = .ofOutcome outcome := by
  obtain ⟨rest, hanswers⟩ := h
  have hlast := congrArg (·[answers.length]?) hanswers
  simp only [List.append_assoc, List.getElem?_append_right (Nat.le_refl _), Nat.sub_self,
    List.singleton_append, List.getElem?_cons_zero, List.getElem?_map] at hlast
  obtain ⟨outcome, houtcome, ha⟩ := Option.map_eq_some_iff.mp hlast.symm
  exact ⟨outcome, houtcome, ha.symm⟩

/-- A cursor that has taken in a first reply and the first outcomes after it.  None of them ends the
stream but perhaps the last one, and then the cursor knows. -/
structure Cursor.HasTaken (c : Cursor) (first : Reply) (outcomes : Supply) (m : Nat) : Prop where
  before : ∀ k < m, ¬ Supply.Ends (.ok first :: outcomes.take k)
  ends_iff : Supply.Ends (.ok first :: outcomes.take m) ↔ ¬ c.Live
  over_of_closed : c.closed = true → ¬ c.Live

namespace Cursor.HasTaken

theorem congr (h : c.HasTaken first outcomes m) (hlive : c'.Live ↔ c.Live)
    (hclosed : c'.closed = true → ¬ c.Live) : c'.HasTaken first outcomes m where
  before := h.before
  ends_iff := h.ends_iff.trans (not_congr hlive.symm)
  over_of_closed hc := mt hlive.mp (hclosed hc)

-- The first reply is the first outcome of the stream.
theorem opened (hopen : c.closed = false) (hlive : c.Live ↔ first.isLast = false) :
    c.HasTaken first outcomes 0 where
  before k hk := absurd hk (Nat.not_lt_zero k)
  ends_iff := by
    rw [List.take_zero, Supply.Ends, hlive, Bool.not_eq_false]
    exact or_iff_left id
  over_of_closed hclosed := by
    rw [hopen] at hclosed
    cases hclosed

-- One outcome more, of a stream that has not ended.
theorem next {outcome : Except Error Reply} (h : c.HasTaken first outcomes m) (hlive : c.Live)
    (hnext : outcomes[m]? = some outcome) (hopen : c'.closed = false)
    (hlast : Supply.Ends [outcome] ↔ ¬ c'.Live) : c'.HasTaken first outcomes (m + 1) where
  before k hk := by
    rcases Nat.lt_succ_iff_lt_or_eq.mp hk with hk | rfl
    · exact h.before k hk
    · exact fun hends => h.ends_iff.mp hends hlive
  ends_iff := by
    rw [Supply.take_next hnext, ← List.cons_append, Supply.ends_append, h.ends_iff, hlast]
    exact or_iff_right (not_not_intro hlive)
  over_of_closed hclosed := by
    rw [hopen] at hclosed
    cases hclosed

end Cursor.HasTaken

/-! ## 2. What an advance has found out -/

/-- What a fetch that asks on demand has found out about the cursor at the point that it has
reached. -/
def Fetch.OnDemand (outcomes : Supply) (m : Nat) (c : Cursor) : Fetch → Prop
  | claim | check => c.Drained
  | send | waiting => c.Drained ∧ c.canContinue = true
  | fold outcome => c.canContinue = true ∧ outcomes[m]? = some outcome
  | wake (.error _) _ | ahead (.error _) | done (.error _) => ¬ c.Live
  | wake (.ok _) _ | ahead (.ok _) | done (.ok _) => True
  | aborted => False

/-- The same of an advance. -/
def Next.OnDemand (outcomes : Supply) (m : Nat) (c : Cursor) (n : Next t) : Prop :=
  match n.phase with
  | .fetching f => f.OnDemand outcomes m c
  | .failed _ | .closing _ | .done false => ¬ c.Live
  | _ => True

theorem Next.onDemand_ofFetch {slot : t.Slot} {f : Fetch} (h : f.OnDemand outcomes m c) :
    (⟨slot, .ofFetch f⟩ : Next t).OnDemand outcomes m c := by
  cases f with
  | done outcome => rcases outcome with e | _ | _ <;> exact h
  | _ => exact h

theorem Next.onDemand_ofClose {slot : t.Slot} (close : Close) (h : ¬ c.Live) :
    (⟨slot, .ofClose close⟩ : Next t).OnDemand outcomes m c := by
  cases close <;> exact h

/-- What a turn comes to for the outcomes that have been taken in, with the reply that the cursor
accepts in it. -/
structure TakesIn (first : Reply) (outcomes : Supply) (m m' : Nat) (c' : Cursor)
    (reply? : Option Reply) : Prop where
  hasTaken : c'.HasTaken first outcomes m'
  replies : Supply.replies (outcomes.take m') = Supply.replies (outcomes.take m) ++ reply?.toList

theorem Cursor.HasTaken.nothing (h : c.HasTaken first outcomes m) (hlive : c'.Live ↔ c.Live)
    (hclosed : c'.closed = true → ¬ c.Live) : TakesIn first outcomes m m c' none :=
  ⟨h.congr hlive hclosed, (List.append_nil _).symm⟩

theorem Cursor.HasTaken.one {outcome : Except Error Reply} (h : c.HasTaken first outcomes m)
    (hcontinue : c.canContinue = true) (hnext : outcomes[m]? = some outcome)
    (hclosed : c'.closed = c.closed) (hlast : Supply.Ends [outcome] ↔ ¬ c'.Live) :
    TakesIn first outcomes m (m + 1) c' outcome.toOption := by
  obtain ⟨hopen, hlive⟩ := Cursor.live_of_canContinue hcontinue
  refine ⟨h.next hlive hnext (hclosed.trans hopen) hlast, ?_⟩
  rw [Supply.take_next hnext, Supply.replies_concat]

/-! ## 3. Turns of an advance -/

theorem Fetch.Steps.onDemand {f : Fetch} {turn : Turn Fetch} (h : Steps setup c f turn)
    (hf : f.OnDemand outcomes m c) (hc : c.HasTaken first outcomes m) :
    turn.next.OnDemand outcomes (m + f.foldsIn.toNat) turn.cursor ∧
      TakesIn first outcomes m (m + f.foldsIn.toNat) turn.cursor (f.accepts? c) := by
  have hstill (hbrings : f.brings? = none) (hfolds : f.foldsIn = false)
      (hlive : turn.cursor.Live ↔ c.Live) (hclosed : turn.cursor.closed = c.closed) :
      TakesIn first outcomes m (m + f.foldsIn.toNat) turn.cursor (f.accepts? c) := by
    rw [hfolds, accepts?_of_brings?_eq_none hbrings]
    exact hc.nothing hlive (hclosed ▸ hc.over_of_closed)
  cases h with
  | refused | turnsBack => exact ⟨trivial, hstill rfl rfl .rfl rfl⟩
  | passed => exact ⟨hf, hstill rfl rfl .rfl rfl⟩
  | goesOn hopen => exact ⟨⟨hf, hopen⟩, hstill rfl rfl .rfl rfl⟩
  | asks => exact ⟨hf, hstill rfl rfl .rfl rfl⟩
  | tells outcome low =>
    refine ⟨?_, hstill rfl rfl .rfl rfl⟩
    cases outcome <;> cases low <;> exact hf
  | looksAhead outcome =>
    refine ⟨?_, hstill rfl rfl .rfl rfl⟩
    cases outcome <;> exact hf
  | adds reply =>
    obtain ⟨hcontinue, hnext⟩ := hf
    obtain ⟨hopen, hlive⟩ := Cursor.live_of_canContinue hcontinue
    have hlive' : (c.accept reply).openGate.Live ↔ reply.isLast = false :=
      Cursor.live_accept_iff hopen hlive
    rw [accepts?_fold_of_open reply hopen]
    refine ⟨trivial, hc.one hcontinue hnext Cursor.closed_accept ?_⟩
    rw [hlive', Bool.not_eq_false]
    exact or_iff_left id
  | fails e =>
    obtain ⟨hcontinue, hnext⟩ := hf
    rw [accepts?_of_brings?_eq_none rfl]
    exact ⟨Cursor.not_live_record c e,
      hc.one hcontinue hnext rfl (iff_of_true trivial (Cursor.not_live_record c e))⟩

-- An advance that looks for a row ends, or reads a text, or asks for more with both queues empty.
theorem Next.Looks.onDemand {slot : t.Slot} {turn : Turn (Next t)} (h : Looks setup c slot turn)
    (hfront : ¬ c.FrontFails setup t) (hc : c.closed = true → ¬ c.Live) :
    turn.next.OnDemand outcomes m turn.cursor := by
  cases h with
  | row hpop =>
    obtain ⟨value, hvalue⟩ := value?_of_front hfront hpop
    rw [receive_of_value? hvalue]
    trivial
  | batch => trivial
  | badBatch hempty hpop hread => exact absurd hread (rows_ne_error_of_front hfront hempty hpop _)
  | error _ _ herror =>
    intro hlive
    rw [hlive.2] at herror
    cases herror
  | finished _ _ _ hfinished =>
    intro hlive
    rw [hlive.1] at hfinished
    cases hfinished
  | closed _ _ _ _ hclosed => exact hc hclosed
  | fetch hrows hbatches => exact ⟨hrows, hbatches⟩

theorem Next.Steps.onDemand {n : Next t} {turn : Turn (Next t)} (h : Steps setup c n turn)
    (hn : n.OnDemand outcomes m c) (hc : c.HasTaken first outcomes m)
    (hdecodes : ¬ n.Fails setup c) :
    turn.next.OnDemand outcomes (m + Fetch.count Fetch.foldsIn n.fetch?) turn.cursor ∧
      TakesIn first outcomes m (m + Fetch.count Fetch.foldsIn n.fetch?) turn.cursor
        (n.fetch?.bind (Fetch.accepts? c)) := by
  cases h with
  | enters => exact ⟨trivial, hc.nothing .rfl hc.over_of_closed⟩
  | ends slot hclosed => exact ⟨hc.over_of_closed hclosed, hc.nothing .rfl hc.over_of_closed⟩
  | sleeps => exact ⟨trivial, hc.nothing .rfl hc.over_of_closed⟩
  | @looks slot phase sight turn hsight hlooks =>
    obtain ⟨-, hfinished, herror, hclosed⟩ := hlooks.unchanged
    obtain ⟨-, hfinished', herror', hclosed'⟩ := sight?_unchanged hsight
    have hlive : sight.Live ↔ c.Live := Cursor.live_congr hfinished' herror'
    have hover : sight.closed = true → ¬ sight.Live := by
      rw [hlive, hclosed']
      exact hc.over_of_closed
    have hlive' : turn.cursor.Live ↔ c.Live := (Cursor.live_congr hfinished herror).trans hlive
    rw [(sight?_account (n := ⟨slot, phase⟩) hsight).2.2]
    refine ⟨hlooks.onDemand (fun hfails => hdecodes ⟨sight, hsight, hfails⟩) hover,
      hc.nothing hlive' ?_⟩
    rw [hclosed, hclosed']
    exact hc.over_of_closed
  | fetches slot hstep =>
    obtain ⟨hnext, htakes⟩ := hstep.onDemand hn hc
    exact ⟨onDemand_ofFetch hnext, htakes⟩
  | records slot e =>
    have hover : ¬ c.Live := hn
    exact ⟨Cursor.not_live_record c e,
      hc.nothing (iff_of_false (Cursor.not_live_record c e) hover) fun _ => hover⟩
  | @closes slot close turn hstep =>
    have hover : ¬ c.Live := hn
    have hlive : turn.cursor.Live ↔ c.Live := by cases hstep <;> rfl
    exact ⟨onDemand_ofClose turn.next (mt hlive.mp hover), hc.nothing hlive fun _ => hover⟩

-- No turn leaves a fetch with an outcome to take in.
theorem FetchTurn.foldsIn_next {f? f'? : Option Fetch} {events : List Event}
    (h : FetchTurn setup c f? f'? c' events) : Fetch.count Fetch.foldsIn f'? = 0 := by
  cases h with
  | apart hafter => rcases hafter with rfl | rfl <;> rfl
  | fetches hstep hafter =>
    rcases hafter with rfl | ⟨rfl, -⟩
    · cases hstep with
      | tells outcome low => cases low <;> rfl
      | _ => rfl
    · rfl
  | notices => rfl

theorem Fetch.sending_le (f? : Option Fetch) : (f?.map sending).getD 0 ≤ 1 := by
  cases f? with
  | none => exact Nat.zero_le 1
  | some f =>
    cases f with
    | send => exact Nat.le_refl 1
    | _ => exact Nat.zero_le 1

-- A fetch that has added its reply only has to tell.
theorem Fetch.HasAdded.past {f : Fetch} (h : f.HasAdded) :
    f.awaits? = none ∧ f.brings? = none ∧ f.sending = 0 := by
  cases f with
  | wake | ahead | done => exact ⟨rfl, rfl, rfl⟩
  | _ => exact h.elim

/-! ## 4. Rows that have been handed out -/

namespace Account

variable {n : Next t} {slot : t.Slot}

-- Beside one advance that is under way nothing else is in hand.
theorem alone (h : Account setup stages s) (hcalls : s.calls = [.next n]) :
    ∃ taken hand, Values taken (handedOut stages) ∧ n.Hands hand ∧
      taken ++ hand ++ s.cursor.rows.toList ++ n.unpacked ++ s.cursor.unread setup =
        setup.acceptedRows stages := by
  obtain ⟨taken, hand, unpacked, hvalues, hhand, hrows⟩ := h.rows
  have hadvances : s.advances = [] ++ [⟨t, n⟩] ++ [] := by
    rw [System.advances, hcalls]
    rfl
  rw [hadvances] at hhand
  obtain ⟨-, -, hhands, rfl⟩ := hhand.alone
  exact ⟨taken, hand, hvalues, hhands, hrows⟩

-- All rows have been handed out when an advance asks for more and both queues are empty.
theorem length_eq_of_fetching {f : Fetch} (h : Account setup stages s)
    (hcalls : s.calls = [.next (t := t) ⟨slot, .fetching f⟩]) (hdrained : s.cursor.Drained) :
    (setup.acceptedRows stages).length = (handedOut stages).length := by
  obtain ⟨taken, hand, hvalues, rfl, hrows⟩ := h.alone hcalls
  rw [hdrained.1, Cursor.unread, hdrained.2] at hrows
  rw [← hrows, ← hvalues.length_eq]
  simp [Next.unpacked]

-- The row that an advance has found has not been counted among those handed out.
theorem lt_of_found (h : Account setup stages s)
    (hcalls : s.calls = [.next (t := t) ⟨slot, .done true⟩]) :
    (handedOut stages).length < (setup.acceptedRows stages).length := by
  obtain ⟨taken, hand, hvalues, ⟨row, rfl, -⟩, hrows⟩ := h.alone hcalls
  rw [← hrows, ← hvalues.length_eq]
  simp only [List.length_append, List.length_singleton]
  omega

end Account

/-! ## 5. Runs -/

/-- What is under way of a caller that has opened a cursor and advances it, and the fetch in it that
may ask for more. -/
inductive Underway (outcomes : Supply) (m : Nat) (c : Cursor) : List Call → Option Fetch → Prop
  | nothing : Underway outcomes m c [] none
  | opening {f : Fetch} (hadded : f.HasAdded) : Underway outcomes m c [.extend f] none
  | advancing {t : Target} {n : Next t} (hn : n.OnDemand outcomes m c) :
    Underway outcomes m c [.next n] n.fetch?

/-- The state of a run after the first reply was taken in.  Of the queries for more rows, `m` have
had their outcome taken in, and none was sent before the rows of the replies until then had been
handed out. -/
structure Demand (setup : Setup) (first : Reply) (outcomes : Supply) (stages : List Stage)
    (s : System) (m : Nat) (f? : Option Fetch) : Prop where
  tasks : s.tasks = []
  underway : Underway outcomes m s.cursor s.calls f?
  hasTaken : s.cursor.HasTaken first outcomes m
  opened : ∃ earlier, begun stages = .extend first :: earlier
  accepted_eq : accepted stages = first :: Supply.replies (outcomes.take m)
  asked_eq : asked stages = m + Fetch.count Fetch.inFlight f?
  fetched_eq : (fetched stages).length = m + Fetch.count Fetch.foldsIn f?
  length_le : ∀ k < asked stages,
    (setup.rowsWithin first outcomes k).length ≤ (handedOut stages).length

namespace Demand

variable {f? f'? : Option Fetch} {m' : Nat}

theorem post (h : Demand setup first outcomes stages s m f?) {stage : Stage}
    (htasks : s'.tasks = [])
    (hunderway : Underway outcomes m' s'.cursor s'.calls f'?)
    (htakes : TakesIn first outcomes m m' s'.cursor stage.accepted?)
    (hasks : m + stage.happenings.countP Happening.asks + Fetch.count Fetch.inFlight f? =
      m' + Fetch.count Fetch.inFlight f'?)
    (hfetches : m + (stage.happenings.filterMap Happening.fetched?).length +
      Fetch.count Fetch.foldsIn f? = m' + Fetch.count Fetch.foldsIn f'?)
    (hlength : stage.happenings.countP Happening.asks ≤ 1 ∧
      (stage.happenings.countP Happening.asks ≠ 0 →
        (setup.rowsWithin first outcomes (asked stages)).length ≤ (handedOut stages).length)) :
    Demand setup first outcomes (stages ++ [stage]) s' m' f'? := by
  obtain ⟨earlier, hearlier⟩ := h.opened
  have hasked := h.asked_eq
  have hfetched := h.fetched_eq
  refine ⟨htasks, hunderway, htakes.hasTaken, ?_, ?_, ?_, ?_, ?_⟩
  · refine ⟨earlier ++ stage.happenings.filterMap Happening.begun?, ?_⟩
    rw [begun_concat, hearlier]
    rfl
  · rw [accepted_concat, h.accepted_eq, htakes.replies]
    rfl
  · rw [asked_concat]
    omega
  · rw [fetched_concat, List.length_append]
    omega
  · intro k hk
    rw [asked_concat] at hk
    rw [handedOut_concat, List.length_append]
    apply Nat.le_add_right_of_le
    by_cases hearlier : k < asked stages
    · exact h.length_le k hearlier
    · obtain rfl : k = asked stages := by omega
      exact hlength.2 (by omega)

-- A stage in which nothing is asked, answered or taken in.
theorem quiet (h : Demand setup first outcomes stages s m f?) (htasks : s'.tasks = [])
    (hcursor : s'.cursor = s.cursor)
    (hunderway : Underway outcomes m s.cursor s'.calls f'?)
    (haccepted : (Stage.mk s move happenings).accepted? = none)
    (hasks : happenings.countP Happening.asks = 0)
    (hfetches : happenings.filterMap Happening.fetched? = [])
    (hcount : ∀ counts, Fetch.count counts f? = Fetch.count counts f'?) :
    Demand setup first outcomes (stages ++ [⟨s, move, happenings⟩]) s' m f'? := by
  refine h.post htasks (hcursor ▸ hunderway) ?_ ?_ ?_ ⟨?_, ?_⟩
  · rw [haccepted, hcursor]
    exact h.hasTaken.nothing .rfl h.hasTaken.over_of_closed
  · rw [hasks, hcount]
    rfl
  · rw [hfetches, hcount]
    rfl
  · exact hasks ▸ Nat.zero_le 1
  · exact fun hne => absurd hasks hne

theorem acceptedRows_eq (h : Demand setup first outcomes stages s m f?) :
    setup.acceptedRows stages = setup.rowsWithin first outcomes m := by
  rw [Setup.acceptedRows, h.accepted_eq]
  rfl

-- The turn of what is under way.
theorem turned {call : Call} {turn : Turn Call}
    (h : Demand setup first outcomes stages ⟨c, [call], []⟩ m f?)
    (haccount : Account setup stages ⟨c, [call], []⟩) (hstep : call.step setup c = some turn)
    (hdecodes : ¬ Stage.FailsToDecode setup ⟨⟨c, [call], []⟩, .call 0, turn.events.map .event⟩) :
    ∃ m' f'?, Demand setup first outcomes
      (stages ++ [⟨⟨c, [call], []⟩, .call 0, turn.events.map .event⟩])
      ⟨turn.cursor, [turn.next], []⟩ m' f'? := by
  have hunderway : Underway outcomes m c [call] f? := h.underway
  cases hunderway with
  | @opening f hadded =>
    obtain ⟨turn, hturn, rfl⟩ := Option.map_eq_some_iff.mp hstep
    obtain ⟨hcursor, hnext⟩ := (Fetch.steps_of_step hturn).of_hasAdded hadded
    obtain ⟨-, hbrings, hsending⟩ := hadded.past
    have hasks : (turn.events.map Happening.event).countP Happening.asks = f.sending :=
      (Call.steps_of_step hstep).fetchTurn.asks_eq
    exact ⟨m, none, h.quiet rfl hcursor (.opening hnext) (Fetch.accepts?_of_brings?_eq_none hbrings)
      (hasks.trans hsending) (filterMap_fetched?_events _) fun _ => rfl⟩
  | @advancing t n hn =>
    obtain ⟨turn, hturn, rfl⟩ := Option.map_eq_some_iff.mp hstep
    have hsteps := Next.steps_of_step hturn
    obtain ⟨hnext, htakes⟩ := hsteps.onDemand hn h.hasTaken
      fun hfails => hdecodes ⟨⟨t, n⟩, rfl, hfails⟩
    have hasks := hsteps.fetchTurn.asks_eq
    have hflight := hsteps.fetchTurn.accounts.1
    have hfolds := hsteps.fetchTurn.foldsIn_next
    refine ⟨_, turn.next.fetch?, h.post rfl (.advancing hnext) htakes ?_ ?_ ⟨?_, fun hsends => ?_⟩⟩
    · show _ + (turn.events.map Happening.event).countP Happening.asks + _ = _
      omega
    · show _ + ((turn.events.map Happening.event).filterMap Happening.fetched?).length + _ = _
      rw [filterMap_fetched?_events, hfolds]
      rfl
    · show (turn.events.map Happening.event).countP Happening.asks ≤ 1
      rw [hasks]
      exact Fetch.sending_le n.fetch?
    · -- Only a fetch that found both queues empty sends a query.
      change (turn.events.map Happening.event).countP Happening.asks ≠ 0 at hsends
      rw [hasks] at hsends
      have hsend := Fetch.eq_send_of_sending hsends
      obtain ⟨slot, phase⟩ := n
      cases phase with
      | fetching f =>
        cases hsend
        have hasked := h.asked_eq
        have hlength := haccount.length_eq_of_fetching rfl hn.1
        rw [h.acceptedRows_eq] at hlength
        rw [hasked]
        exact Nat.le_of_eq hlength
      | _ => cases hsend

-- The answer to the query of what is under way.
theorem answered {call : Call} {kind : Query.Kind} {a : Answer}
    (h : Demand setup first outcomes stages ⟨c, [call], []⟩ m f?)
    (hawaits : call.awaits? = some kind)
    (hanswers : fetched (stages ++ [⟨⟨c, [call], []⟩, .answerCall 0 a, [.answered kind a]⟩]) <+:
      outcomes.map .ofOutcome) :
    ∃ f'?, Demand setup first outcomes
      (stages ++ [⟨⟨c, [call], []⟩, .answerCall 0 a, [.answered kind a]⟩])
      ⟨c, [call.answer a], []⟩ m f'? := by
  have hunderway : Underway outcomes m c [call] f? := h.underway
  cases hunderway with
  | opening hadded => cases hadded.past.1.symm.trans hawaits
  | @advancing t n hn =>
    obtain ⟨slot, phase⟩ := n
    cases phase with
    | fetching f =>
      cases f with
      | waiting =>
        cases hawaits
        have hfetched : (fetched stages).length = m := h.fetched_eq
        rw [fetched_concat] at hanswers
        obtain ⟨outcome, hnext, rfl⟩ := eq_ofOutcome_of_prefix hanswers
        rw [hfetched] at hnext
        have hanswer : Fetch.answer (.ofOutcome outcome) .waiting = .fold outcome := by
          cases outcome <;> rfl
        have hunderway : Underway outcomes m c
            [.next (t := t) ⟨slot, .fetching (Fetch.answer (.ofOutcome outcome) .waiting)⟩]
            (some (.fold outcome)) := by
          rw [hanswer]
          exact .advancing (n := ⟨slot, .fetching (.fold outcome)⟩) ⟨hn.2, hnext⟩
        refine ⟨some (.fold outcome), h.post rfl hunderway ?_ ?_ ?_ ⟨Nat.zero_le 1, absurd rfl⟩⟩
        · exact h.hasTaken.nothing .rfl h.hasTaken.over_of_closed
        · rfl
        · rfl
      | _ => cases hawaits
    | closing close =>
      have hkind : kind = .stop := by
        cases close with
        | waiting r => exact (Option.some.inj hawaits).symm
        | _ => cases hawaits
      subst hkind
      have hnext : (⟨slot, .closing (close.answer a)⟩ : Next t).OnDemand outcomes m c := hn
      exact ⟨none, h.quiet rfl rfl (.advancing hnext) rfl rfl rfl fun _ => rfl⟩
    | _ => cases hawaits

-- The caller takes back what has ended.
theorem collected {call : Call} (h : Demand setup first outcomes stages ⟨c, [call], []⟩ m f?)
    (hended : (call.isDone || call.isAborted) = true) :
    Demand setup first outcomes (stages ++ [⟨⟨c, [call], []⟩, .collect 0, [.collected call]⟩])
      ⟨c, [], []⟩ m none := by
  have hunderway : Underway outcomes m c [call] f? := h.underway
  cases hunderway with
  | opening => exact h.quiet rfl rfl .nothing rfl rfl rfl fun _ => rfl
  | @advancing t n hn =>
    have hnone : n.fetch? = none := by
      obtain ⟨slot, phase⟩ := n
      cases phase with
      | fetching f => cases f <;> first | exact hn.elim | cases hended
      | _ => rfl
    exact h.quiet rfl rfl .nothing rfl rfl rfl fun _ => by rw [hnone]

-- The caller begins to advance when nothing is under way.
theorem begun {slot : t.Slot} (h : Demand setup first outcomes stages ⟨c, [], []⟩ m f?) :
    Demand setup first outcomes
      (stages ++ [⟨⟨c, [], []⟩, .begin (.next slot), [.began (.next slot)]⟩])
      ⟨c, [.next (.start slot)], []⟩ m none := by
  have hunderway : Underway outcomes m c [] f? := h.underway
  cases hunderway
  exact h.quiet rfl rfl (.advancing (n := .start slot) trivial) rfl rfl rfl fun _ => rfl

end Demand

theorem Underway.length_le {calls : List Call} {f? : Option Fetch}
    (h : Underway outcomes m c calls f?) : calls.length ≤ 1 := by
  cases h with
  | nothing => exact Nat.zero_le 1
  | opening | advancing => exact Nat.le_refl 1

theorem Demand.step {f? : Option Fetch} {later : List Operation}
    (h : Demand setup first outcomes stages s m f?) (haccount : Account setup stages s)
    (hprefetch : setup.options.prefetch = false)
    (hadvances : ∀ op ∈ later, ∃ (t : Target) (slot : t.Slot), op = .next slot)
    (hmove : s.move? setup move = some (s', happenings))
    (hturn : (Stage.mk s move happenings).Sequential)
    (hbegun : RowStream.begun (stages ++ [⟨s, move, happenings⟩]) <+: .extend first :: later)
    (hdecodes : ¬ (Stage.mk s move happenings).FailsToDecode setup)
    (hanswers : fetched (stages ++ [⟨s, move, happenings⟩]) <+: outcomes.map .ofOutcome) :
    ∃ m' f'?, Demand setup first outcomes (stages ++ [⟨s, move, happenings⟩]) s' m' f'? := by
  obtain ⟨c, calls, tasks⟩ := s
  obtain rfl : tasks = [] := h.tasks
  cases move with
  | begin op =>
    cases hmove
    obtain rfl : calls = [] := hturn op rfl
    obtain ⟨earlier, hearlier⟩ := h.opened
    rw [begun_concat, hearlier, List.cons_append, List.cons_prefix_cons] at hbegun
    obtain ⟨t, slot, rfl⟩ := hadvances op (hbegun.2.subset (List.mem_append_right _ (.head _)))
    exact ⟨m, none, h.begun⟩
  | call place =>
    obtain ⟨before, call, later, turn, hcalls, rfl, hstep, rfl, rfl⟩ := System.move?_call hmove
    obtain ⟨rfl, rfl⟩ := System.alone_of_length_le h.underway.length_le hcalls
    obtain rfl : calls = [call] := hcalls
    rw [List.nil_append, System.after_of_step hstep,
      (Call.steps_of_step hstep).countP_schedules hprefetch]
    exact h.turned haccount hstep hdecodes
  | answerCall place a =>
    obtain ⟨before, call, later, kind, hcalls, rfl, hawaits, rfl, rfl⟩ :=
      System.move?_answerCall hmove
    obtain ⟨rfl, rfl⟩ := System.alone_of_length_le h.underway.length_le hcalls
    obtain rfl : calls = [call] := hcalls
    exact ⟨m, h.answered hawaits hanswers⟩
  | collect place =>
    obtain ⟨before, call, later, hcalls, rfl, hended, rfl, rfl⟩ := System.move?_collect hmove
    obtain ⟨rfl, rfl⟩ := System.alone_of_length_le h.underway.length_le hcalls
    obtain rfl : calls = [call] := hcalls
    exact ⟨m, none, h.collected hended⟩
  | task place => cases hmove
  | answerTask place a => cases hmove

/-- How far a caller has come that opens a cursor with a first reply and then advances it. -/
inductive Progress (setup : Setup) (release : Bool) (first : Reply) (outcomes : Supply) :
    List Stage → System → Prop
  | unopened : Progress setup release first outcomes [] (.opened release)
  | opening :
    Progress setup release first outcomes
      [⟨.opened release, .begin (.extend first), [.began (.extend first)]⟩]
      ⟨{ release }, [.extend (.fold (.ok first))], []⟩
  | advancing {stages : List Stage} {s : System} {m : Nat} {f? : Option Fetch}
    (h : Demand setup first outcomes stages s m f?) : Progress setup release first outcomes stages s

namespace Progress

variable {release : Bool}

-- The first reply is added.
theorem opens (setup : Setup) (release : Bool) (first : Reply) (outcomes : Supply) (low : Bool) :
    Demand setup first outcomes
      [⟨.opened release, .begin (.extend first), [.began (.extend first)]⟩,
        ⟨⟨{ release }, [.extend (.fold (.ok first))], []⟩, .call 0, []⟩]
      ⟨(Cursor.accept { release } first).openGate, [.extend (.wake (.ok true) low)], []⟩ 0
      none := by
  have hlive : (Cursor.accept { release } first).openGate.Live ↔ first.isLast = false :=
    Cursor.live_accept_iff rfl ⟨rfl, rfl⟩
  exact
    { tasks := rfl
      underway := .opening trivial
      hasTaken := .opened Cursor.closed_accept hlive
      opened := ⟨[], rfl⟩
      accepted_eq := rfl
      asked_eq := rfl
      fetched_eq := rfl
      length_le := fun k hk => absurd hk (Nat.not_lt_zero k) }

theorem step {later : List Operation} (h : Progress setup release first outcomes stages s)
    (haccount : Account setup stages s) (hprefetch : setup.options.prefetch = false)
    (hadvances : ∀ op ∈ later, ∃ (t : Target) (slot : t.Slot), op = .next slot)
    (hmove : s.move? setup move = some (s', happenings))
    (hturn : (Stage.mk s move happenings).Sequential)
    (hbegun : begun (stages ++ [⟨s, move, happenings⟩]) <+: .extend first :: later)
    (hdecodes : ¬ (Stage.mk s move happenings).FailsToDecode setup)
    (hanswers : fetched (stages ++ [⟨s, move, happenings⟩]) <+: outcomes.map .ofOutcome) :
    Progress setup release first outcomes (stages ++ [⟨s, move, happenings⟩]) s' := by
  cases h with
  | unopened =>
    cases move with
    | begin op =>
      cases hmove
      obtain rfl : op = .extend first := (List.cons_prefix_cons.mp hbegun).1
      exact .opening
    | call | answerCall | collect | task | answerTask => cases hmove
  | opening =>
    have hlength : [Call.extend (.fold (.ok first))].length ≤ 1 := Nat.le_refl 1
    cases move with
    | begin op => cases hturn op rfl
    | call place =>
      obtain ⟨before, call, later, turn, hcalls, rfl, hstep, rfl, rfl⟩ := System.move?_call hmove
      obtain ⟨rfl, rfl⟩ := System.alone_of_length_le hlength hcalls
      cases hcalls
      cases hstep
      exact .advancing (opens setup release first outcomes _)
    | answerCall place a =>
      obtain ⟨before, call, later, kind, hcalls, rfl, hawaits, -⟩ := System.move?_answerCall hmove
      obtain ⟨rfl, rfl⟩ := System.alone_of_length_le hlength hcalls
      cases hcalls
      cases hawaits
    | collect place =>
      obtain ⟨before, call, later, hcalls, rfl, hended, -⟩ := System.move?_collect hmove
      obtain ⟨rfl, rfl⟩ := System.alone_of_length_le hlength hcalls
      cases hcalls
      cases hended
    | task | answerTask => cases hmove
  | advancing h =>
    obtain ⟨m, f?, hnext⟩ :=
      h.step haccount hprefetch hadvances hmove hturn hbegun hdecodes hanswers
    exact .advancing hnext

-- From the first advance on the first reply was taken in.
theorem demand {n : Next t} (h : Progress setup release first outcomes stages s)
    (hcalls : s.calls = [.next n]) :
    ∃ m, Demand setup first outcomes stages s m n.fetch? ∧ n.OnDemand outcomes m s.cursor := by
  cases h with
  | unopened | opening => cases hcalls
  | @advancing _ _ m f? h =>
    have hunderway := h.underway
    rw [hcalls] at hunderway
    cases hunderway with
    | advancing hn => exact ⟨m, h, hn⟩

end Progress

-- A caller that advances once at a time is the only reader.
theorem Stage.oneReader_of_begun {op : Operation} {later : List Operation}
    (hadvances : ∀ op ∈ later, ∃ (t : Target) (slot : t.Slot), op = .next slot)
    (hop : op ∈ .extend first :: later) (hturn : (Stage.mk s (.begin op) happenings).Sequential) :
    (Stage.mk s (.begin op) happenings).OneReader := by
  rcases List.mem_cons.mp hop with rfl | hop
  · trivial
  · obtain ⟨t, slot, rfl⟩ := hadvances op hop
    have hidle : s.calls = [] := hturn _ rfl
    show s.advances = []
    rw [System.advances, hidle]
    rfl

theorem Run.progress {release : Bool} {later : List Operation}
    (hrun : Run setup (.opened release) stages s) (hprefetch : setup.options.prefetch = false)
    (hturns : ∀ stage ∈ stages, stage.Sequential) (hbegun : begun stages <+: .extend first :: later)
    (hadvances : ∀ op ∈ later, ∃ (t : Target) (slot : t.Slot), op = .next slot)
    (hdecodes : ∀ stage ∈ stages, ¬ stage.FailsToDecode setup)
    (hanswers : fetched stages <+: outcomes.map .ofOutcome) :
    Account setup stages s ∧ Progress setup release first outcomes stages s := by
  induction hrun with
  | nil => exact ⟨Account.opened setup release, .unopened⟩
  | @snoc stages s s' move happenings _ hmove ih =>
    simp only [List.mem_append, List.mem_singleton] at hturns hdecodes
    have hturn := hturns _ (.inr rfl)
    have hdecoded := hdecodes _ (.inr rfl)
    have hbegun' := hbegun
    have hanswers' := hanswers
    rw [begun_concat] at hbegun'
    rw [fetched_concat] at hanswers'
    obtain ⟨haccount, hprogress⟩ := ih (fun stage hstage => hturns stage (.inl hstage))
      ((List.prefix_append ..).trans hbegun') (fun stage hstage => hdecodes stage (.inl hstage))
      ((List.prefix_append ..).trans hanswers')
    have hreader : (Stage.mk s move happenings).OneReader := by
      cases move with
      | begin op =>
        cases hmove
        exact Stage.oneReader_of_begun hadvances
          (hbegun'.subset (List.mem_append_right _ (.head _))) hturn
      | _ => trivial
    exact ⟨haccount.step hmove hreader hdecoded,
      hprogress.step haccount hprefetch hadvances hmove hturn hbegun hdecoded hanswers⟩

/-! ## 6. The theorem -/

/-- A caller opens a cursor with a first reply and then advances it, once at a time, with no fetches
in the background, and meets nothing that cannot be decoded.  When an advance has come to a row, the
number of queries for more rows that were sent is the least number of replies that have, with the
first one, the rows that were handed out and this one.  When it has come to no row, it is the least
number of outcomes with which, after the first reply, the stream has ended. -/
theorem fetches_on_demand {release : Bool} {later : List Operation} {slot : t.Slot} {more : Bool}
    (hprefetch : setup.options.prefetch = false) (hrun : Run setup (.opened release) stages s)
    (hturns : ∀ stage ∈ stages, stage.Sequential) (hbegun : begun stages = .extend first :: later)
    (hadvances : ∀ op ∈ later, ∃ (t : Target) (slot : t.Slot), op = .next slot)
    (hdecodes : ∀ stage ∈ stages, ¬ stage.FailsToDecode setup)
    (hanswers : fetched stages <+: outcomes.map .ofOutcome)
    (hreturned : s.calls = [.next (t := t) ⟨slot, .done more⟩]) :
    (more = true →
      IsLeast {m | (handedOut stages).length + 1 ≤ (setup.rowsWithin first outcomes m).length}
        (asked stages)) ∧
    (more = false →
      IsLeast {m | Supply.Ends (.ok first :: outcomes.take m)} (asked stages)) := by
  have hopened : begun stages <+: .extend first :: later := ⟨[], by rw [List.append_nil, hbegun]⟩
  obtain ⟨haccount, hprogress⟩ :=
    hrun.progress hprefetch hturns hopened hadvances hdecodes hanswers
  obtain ⟨m, h, hn⟩ := hprogress.demand hreturned
  have hasked : asked stages = m := h.asked_eq
  refine ⟨?_, ?_⟩
  · rintro rfl
    have hfound := haccount.lt_of_found hreturned
    rw [h.acceptedRows_eq, ← hasked] at hfound
    refine ⟨hfound, fun k hk => ?_⟩
    -- With fewer replies there would be no more rows than were handed out.
    by_contra hless
    exact absurd (h.length_le k (Nat.lt_of_not_le hless)) (Nat.not_le_of_lt hk)
  · rintro rfl
    rw [hasked]
    refine ⟨h.hasTaken.ends_iff.mpr hn, fun k hk => ?_⟩
    by_contra hless
    exact h.hasTaken.before k (Nat.lt_of_not_le hless) hk

/-- The first reply and the next one are empty, so the first row takes two queries; the end is known
with it, and another advance asks for nothing more. -/
theorem fetches_on_demand_empty_reply :
    ∃ stages s later s', Run (.ordinary 1 { prefetch := false }) (.opened false) stages s ∧
      Run (.ordinary 1 { prefetch := false }) s later s' ∧
      s.calls = [.next (t := .string) ⟨"a", .done true⟩] ∧
      IsLeast {m | 1 ≤ (Setup.rowsWithin (.ordinary 1 { prefetch := false })
        ⟨.partialSequence, [], none⟩
        [.ok ⟨.partialSequence, [], none⟩, .ok ⟨.sequence, ["\"a\""], none⟩] m).length} 2 ∧
      s'.calls = [.next (t := .string) ⟨"", .done false⟩] ∧
      IsLeast {m | Supply.Ends (.ok ⟨.partialSequence, [], none⟩ :: List.take m
        [.ok ⟨.partialSequence, [], none⟩, .ok ⟨.sequence, ["\"a\""], none⟩])} 2 := by
  -- The run is cut where a text is read, so that it is read only once.
  obtain ⟨fetching, c, reading, c', found, later, s', hfetching, hreading, hfound, hlater, hend,
      hasked, hhanded, hasked', hbegun, hbegun', hfetched, hfetched', hkind⟩ :
      ∃ fetching c reading c' found later s',
        (System.opened false).stages? (.ordinary 1 { prefetch := false })
          [.begin (.extend ⟨.partialSequence, [], none⟩), .call 0, .call 0, .collect 0,
            .begin (.next (t := .string) ""), .call 0, .call 0, .call 0, .call 0, .call 0,
            .answerCall 0 (.reply ⟨.partialSequence, [], none⟩), .call 0, .call 0, .call 0,
            .call 0, .call 0, .call 0,
            .answerCall 0 (.reply ⟨.sequence, ["\"a\""], none⟩), .call 0, .call 0] =
          some (fetching, ⟨{ finished := true, batches := Queue.empty.pushAll ["\"a\""] },
            [.next (t := .string) ⟨"", .look⟩], []⟩) ∧
        System.stages? (.ordinary 1 { prefetch := false })
          ⟨{ finished := true, batches := Queue.empty.pushAll ["\"a\""] },
            [.next (t := .string) ⟨"", .look⟩], []⟩ [.call 0] =
          some (reading, ⟨c, [.next (t := .string) ⟨"", .refill [.string "a"]⟩], []⟩) ∧
        System.stages? (.ordinary 1 { prefetch := false })
          ⟨c, [.next (t := .string) ⟨"", .refill [.string "a"]⟩], []⟩ [.call 0] =
          some (found, ⟨c', [.next (t := .string) ⟨"a", .done true⟩], []⟩) ∧
        System.stages? (.ordinary 1 { prefetch := false })
          ⟨c', [.next (t := .string) ⟨"a", .done true⟩], []⟩
          [.collect 0, .begin (.next (t := .string) ""), .call 0, .call 0, .call 0, .call 0,
            .call 0] = some (later, s') ∧
        s'.calls = [.next (t := .string) ⟨"", .done false⟩] ∧
        asked (fetching ++ reading ++ found) = 2 ∧ handedOut (fetching ++ reading ++ found) = [] ∧
        asked (fetching ++ reading ++ found ++ later) = 2 ∧
        begun (fetching ++ reading ++ found) =
          [.extend ⟨.partialSequence, [], none⟩, .next (t := .string) ""] ∧
        begun (fetching ++ reading ++ found ++ later) =
          [.extend ⟨.partialSequence, [], none⟩, .next (t := .string) "",
            .next (t := .string) ""] ∧
        fetched (fetching ++ reading ++ found) <+: List.map .ofOutcome
          [.ok ⟨.partialSequence, [], none⟩, .ok ⟨.sequence, ["\"a\""], none⟩] ∧
        fetched (fetching ++ reading ++ found ++ later) <+: List.map .ofOutcome
          [.ok ⟨.partialSequence, [], none⟩, .ok ⟨.sequence, ["\"a\""], none⟩] ∧
        ∀ stage ∈ fetching ++ reading ++ found ++ later, stage.Sequential ∧
          ¬ stage.FailsToDecode (.ordinary 1 { prefetch := false }) :=
    ⟨_, _, _, _, _, _, _, rfl, rfl, rfl, rfl, rfl, rfl, rfl, rfl, rfl, rfl, ⟨[], rfl⟩, ⟨[], rfl⟩,
      by decide +kernel⟩
  have hrun := ((Run.of_stages? hfetching).append (Run.of_stages? hreading)).append
    (Run.of_stages? hfound)
  have hnext := Run.of_stages? hlater
  have hadvances (n : Nat) : ∀ op ∈ List.replicate n (Operation.next (t := .string) ""),
      ∃ (t : Target) (slot : t.Slot), op = .next slot := fun op hop =>
    ⟨_, _, List.eq_of_mem_replicate hop⟩
  have hrow := fetches_on_demand rfl hrun
    (fun stage hstage => (hkind stage (List.mem_append_left _ hstage)).1) hbegun (hadvances 1)
    (fun stage hstage => (hkind stage (List.mem_append_left _ hstage)).2) hfetched rfl
  have hover := fetches_on_demand rfl (hrun.append hnext)
    (fun stage hstage => (hkind stage hstage).1) hbegun' (hadvances 2)
    (fun stage hstage => (hkind stage hstage).2) hfetched' hend
  rw [hhanded, hasked] at hrow
  rw [hasked'] at hover
  exact ⟨_, _, _, _, hrun, hnext, rfl, hrow.1 rfl, hend, hover.2 rfl⟩

end RowStream
