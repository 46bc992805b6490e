import Mathlib.Data.List.Forall2
import RowStream.Proofs.Runs

/-!
# The account of rows

As long as one caller advances at a time and nothing fails to decode, the rows handed out, those
that the advance under way has in hand, those in the queues and those of the unread texts are the
rows of the replies that the cursor has accepted, in order.  This holds for every run, with replies
added and the cursor closed by anybody at any time.
-/

namespace RowStream

variable {setup : Setup} {s s' : System} {stages : List Stage}

/-! ## 1. Runs with one reader -/

/-- An operation other than the extractions. -/
def Call.Plain : Call → Prop
  | next _ | close _ | extend _ => True
  | _ => False

/-- Whether a move leaves the rows to one reader: an advance begins when no other is under way, and
nothing else takes rows. -/
def Stage.OneReader (stage : Stage) : Prop :=
  match stage.move with
  | .begin (.next _) => stage.before.advances = []
  | .begin op => op.begin.Plain
  | _ => True

instance : DecidablePred Stage.OneReader
  | ⟨s, .begin (.next _), _⟩ => inferInstanceAs (Decidable (s.advances = []))
  | ⟨_, .begin .close, _⟩ | ⟨_, .begin (.extend _), _⟩ => isTrue trivial
  | ⟨_, .begin (.one _), _⟩ | ⟨_, .begin (.all _), _⟩ | ⟨_, .begin (.item ..), _⟩ => isFalse id
  | ⟨_, .call _, _⟩ | ⟨_, .answerCall .., _⟩ | ⟨_, .collect _, _⟩ | ⟨_, .task _, _⟩
  | ⟨_, .answerTask .., _⟩ => isTrue trivial

/-- Whether the advance that takes its turn meets something that cannot be decoded. -/
def Stage.FailsToDecode (setup : Setup) (stage : Stage) : Prop :=
  ∃ a, stage.before.advancing? stage.move = some a ∧ a.2.Fails setup stage.before.cursor

instance (setup : Setup) : DecidablePred (Stage.FailsToDecode setup) := fun stage =>
  inferInstanceAs <| Decidable <|
    ∃ a ∈ stage.before.advancing? stage.move, a.2.Fails setup stage.before.cursor

/-- Rows whose values have been handed out. -/
def Values : List Datum → List Handed → Prop :=
  List.Forall₂ fun row handed => handed.1.value? row = some handed.2

/-- What the advances under way have in hand: the row that one has found, and the rows that it has
read but not queued. -/
inductive InHand : List ((t : Target) × Next t) → List Datum → List Datum → Prop
  | none : InHand [] [] []
  | one {t : Target} {n : Next t} {hand : List Datum} (hhands : n.Hands hand) :
    InHand [⟨t, n⟩] hand n.unpacked

/-- The rows of the replies that the cursor has accepted. -/
def Setup.acceptedRows (setup : Setup) (stages : List Stage) : List Datum :=
  setup.rowsOfAll ((accepted stages).flatMap Reply.texts)

/-- The account of a run that has come to a system. -/
structure Account (setup : Setup) (stages : List Stage) (s : System) : Prop where
  plain : ∀ call ∈ s.calls, call.Plain
  rows : ∃ taken hand unpacked, Values taken (handedOut stages) ∧ InHand s.advances hand unpacked ∧
    taken ++ hand ++ s.cursor.rows.toList ++ unpacked ++ s.cursor.unread setup =
      setup.acceptedRows stages
  finished : s.cursor.finished = ((accepted stages).getLast?.map Reply.isLast).getD false

/-! ## 2. Histories with one stage more -/

theorem accepted_concat (stages : List Stage) (stage : Stage) :
    accepted (stages ++ [stage]) = accepted stages ++ stage.accepted?.toList := by
  rw [accepted, List.filterMap_append]
  cases h : stage.accepted? <;> simp [accepted, h]

theorem Setup.acceptedRows_concat (setup : Setup) (stages : List Stage) (stage : Stage) :
    setup.acceptedRows (stages ++ [stage]) =
      setup.acceptedRows stages ++
        setup.rowsOfAll ((stage.accepted?.map Reply.texts).getD []) := by
  rw [acceptedRows, accepted_concat, List.flatMap_append, rowsOfAll_append]
  cases stage.accepted? with
  | none => rfl
  | some reply => exact congrArg (_ ++ setup.rowsOfAll ·) (List.append_nil _)

theorem getLast?_accepted_concat (stages : List Stage) (stage : Stage) :
    ((accepted (stages ++ [stage])).getLast?.map Reply.isLast).getD false =
      (stage.accepted?.map Reply.isLast).getD
        (((accepted stages).getLast?.map Reply.isLast).getD false) := by
  rw [accepted_concat]
  cases stage.accepted? with
  | none => rw [Option.toList, List.append_nil]; rfl
  | some reply => rw [Option.toList, List.getLast?_concat]; rfl

theorem handedOut_concat (stages : List Stage) (stage : Stage) :
    handedOut (stages ++ [stage]) =
      handedOut stages ++ stage.happenings.filterMap Happening.handed? := by
  rw [handedOut, List.flatMap_append, List.flatMap_singleton]
  rfl

theorem filterMap_handed?_events (events : List Event) :
    (events.map Happening.event).filterMap Happening.handed? = [] := by
  rw [List.filterMap_map, List.filterMap_eq_nil_iff]
  exact fun _ _ => rfl

/-! ## 3. Operations under way -/

theorem advances_split {before later : List Call} {call : Call}
    (h : s.calls = before ++ call :: later) :
    s.advances = before.filterMap Call.advance? ++ call.advance?.toList ++
      later.filterMap Call.advance? := by
  rw [System.advances, h, List.filterMap_append]
  cases hcall : call.advance? <;> simp [hcall]

theorem InHand.alone {before later : List ((t : Target) × Next t)} {t : Target} {n : Next t}
    {hand unpacked : List Datum} (h : InHand (before ++ [⟨t, n⟩] ++ later) hand unpacked) :
    before = [] ∧ later = [] ∧ n.Hands hand ∧ unpacked = n.unpacked := by
  cases before with
  | nil =>
    cases later with
    | nil => cases h with | one hhands => exact ⟨rfl, rfl, hhands, rfl⟩
    | cons => cases h
  | cons _ before => cases before <;> cases h

theorem advance?_wake (call : Call) :
    call.wake.advance? = call.advance?.map fun a => ⟨a.1, a.2.wake⟩ := by
  cases call <;> rfl

-- What is in hand stays in hand when the operations are woken.
theorem InHand.after {calls : List Call} {hand unpacked : List Datum}
    (h : InHand (calls.filterMap Call.advance?) hand unpacked) (c : Cursor) (tasks : List Task)
    (events : List Event) :
    InHand (System.after c calls tasks events).advances hand unpacked := by
  unfold System.after System.advances
  split
  next =>
    have hwoken : (calls.map Call.wake).filterMap Call.advance? =
        (calls.filterMap Call.advance?).map fun a => ⟨a.1, a.2.wake⟩ := by
      rw [List.filterMap_map, List.map_filterMap]
      exact List.filterMap_congr fun call _ => advance?_wake call
    rw [hwoken]
    generalize calls.filterMap Call.advance? = advances at h ⊢
    cases h with
    | none => exact .none
    | @one t n hand hhands =>
      obtain ⟨slot, phase⟩ := n
      cases phase <;> exact .one hhands
  next => exact h

theorem Call.Plain.wake {call : Call} (h : call.Plain) : call.wake.Plain := by
  cases call <;> exact h

theorem plain_after {calls : List Call} (h : ∀ call ∈ calls, call.Plain) (c : Cursor)
    (tasks : List Task) (events : List Event) :
    ∀ call ∈ (System.after c calls tasks events).calls, call.Plain := by
  unfold System.after
  split
  next =>
    intro call hcall
    obtain ⟨call, hmem, rfl⟩ := List.mem_map.mp hcall
    exact (h call hmem).wake
  next => exact h

/-! ## 4. Stages -/

namespace Account

variable {happenings : List Happening} {move : Move} {before later : List Call}

theorem accepted?_eq_none (h : s.turning? move = none) :
    (Stage.mk s move happenings).accepted? = none := by
  rw [Stage.accepted?, h]
  rfl

-- A stage that leaves the queues as they are and hands out nothing.
theorem idle (h : Account setup stages s)
    (haccepted : (Stage.mk s move happenings).accepted? = none)
    (hhanded : happenings.filterMap Happening.handed? = [])
    (hrows : s'.cursor.rows = s.cursor.rows) (hbatches : s'.cursor.batches = s.cursor.batches)
    (hfinished : s'.cursor.finished = s.cursor.finished) (hplain : ∀ call ∈ s'.calls, call.Plain)
    (hinHand : ∀ hand unpacked, InHand s.advances hand unpacked →
      InHand s'.advances hand unpacked) :
    Account setup (stages ++ [⟨s, move, happenings⟩]) s' := by
  obtain ⟨taken, hand, unpacked, hvalues, hhand, haccount⟩ := h.rows
  exact
    { plain := hplain
      rows := by
        refine ⟨taken, hand, unpacked, ?_, hinHand _ _ hhand, ?_⟩
        · rw [handedOut_concat, hhanded, List.append_nil]
          exact hvalues
        · rw [Setup.acceptedRows_concat, haccepted, hrows, Cursor.unread, hbatches]
          exact haccount.trans (List.append_nil _).symm
      finished := by
        rw [getLast?_accepted_concat, haccepted, hfinished]
        exact h.finished }

-- A turn of a fetch that is not part of an advance.
theorem fetched {f : Fetch} {turn : Turn Fetch} {calls : List Call} {tasks : List Task}
    (h : Account setup stages s) (hstep : Fetch.Steps setup s.cursor f turn)
    (hturning : s.turning? move = some f) (hplain : ∀ call ∈ calls, call.Plain)
    (hinHand : ∀ hand unpacked, InHand s.advances hand unpacked →
      InHand (calls.filterMap Call.advance?) hand unpacked) :
    Account setup (stages ++ [⟨s, move, turn.events.map .event⟩])
      (.after turn.cursor calls tasks turn.events) := by
  have haccepted : (Stage.mk s move (turn.events.map .event)).accepted? = f.accepts? s.cursor := by
    rw [Stage.accepted?, hturning]
    rfl
  obtain ⟨taken, hand, unpacked, hvalues, hhand, hrows⟩ := h.rows
  exact
    { plain := plain_after hplain _ _ _
      rows := by
        refine ⟨taken, hand, unpacked, ?_, (hinHand _ _ hhand).after .., ?_⟩
        · rw [handedOut_concat, filterMap_handed?_events, List.append_nil]
          exact hvalues
        · rw [Setup.acceptedRows_concat, haccepted, ← hrows]
          rw [System.cursor_after, Cursor.unread, hstep.toList_batches, hstep.rows_eq,
            Setup.rowsOfAll_append]
          simp only [Cursor.unread, List.append_assoc]
      finished := by
        rw [getLast?_accepted_concat, haccepted, ← h.finished]
        exact hstep.finished_eq }

-- A turn of an advance.
theorem advanced {t : Target} {n : Next t} {turn : Turn (Next t)} (h : Account setup stages s)
    (hcalls : s.calls = before ++ .next n :: later) (hstep : Next.Steps setup s.cursor n turn)
    (hturning : s.turning? move = n.fetch?) (hnone : ∀ hand, n.Hands hand → hand = [])
    (hdecodes : ¬ n.Fails setup s.cursor) :
    Account setup (stages ++ [⟨s, move, turn.events.map .event⟩])
      (.after turn.cursor (before ++ .next turn.next :: later) s.tasks turn.events) := by
  have haccepted : (Stage.mk s move (turn.events.map .event)).accepted? =
      n.fetch?.bind (Fetch.accepts? s.cursor) := by
    rw [Stage.accepted?, hturning]
  have hplain : ∀ call ∈ before ++ .next turn.next :: later, call.Plain := by
    have hbefore := h.plain
    rw [hcalls] at hbefore
    simp only [List.mem_append, List.mem_cons] at hbefore ⊢
    rintro call (hcall | rfl | hcall)
    · exact hbefore call (.inl hcall)
    · trivial
    · exact hbefore call (.inr (.inr hcall))
  obtain ⟨taken, hand, unpacked, hvalues, hhand, hrows⟩ := h.rows
  rw [advances_split hcalls] at hhand
  -- The advance is the only one, so what it has in hand is all that is in hand.
  obtain ⟨hbefore, hlater, hhands, rfl⟩ := InHand.alone hhand
  obtain ⟨hand', hhands', haccount⟩ := hstep.account hdecodes
  have hinHand : InHand ((before ++ .next turn.next :: later).filterMap Call.advance?) hand'
      turn.next.unpacked := by
    have hnext : (Call.next turn.next).advance? = some ⟨t, turn.next⟩ := rfl
    rw [List.filterMap_append, List.filterMap_cons_some hnext, hbefore, hlater]
    exact .one hhands'
  exact
    { plain := plain_after hplain _ _ _
      rows := by
        refine ⟨taken, hand', turn.next.unpacked, ?_, hinHand.after _ _ _, ?_⟩
        · rw [handedOut_concat, filterMap_handed?_events, List.append_nil]
          exact hvalues
        · rw [Setup.acceptedRows_concat, haccepted, ← hrows, hnone hand hhands]
          have hall := congrArg (taken ++ ·) haccount
          simpa only [List.append_assoc, List.append_nil, List.nil_append, Next.added,
            System.cursor_after] using hall
      finished := by
        rw [getLast?_accepted_concat, haccepted, ← h.finished]
        exact hstep.finished_eq }

-- What an advance has in hand at its end is what it hands out.
theorem values_of_ended {t : Target} {n : Next t} {hand : List Datum} (hhands : n.Hands hand)
    (hended : ((Call.next n).isDone || (Call.next n).isAborted) = true) :
    n.unpacked = [] ∧ Values hand ([.collected (.next n)].filterMap Happening.handed?) := by
  obtain ⟨slot, phase⟩ := n
  cases phase with
  | done more =>
    cases more with
    | true =>
      obtain ⟨row, rfl, hvalue⟩ := hhands
      exact ⟨rfl, .cons hvalue .nil⟩
    | false =>
      cases hhands
      exact ⟨rfl, .nil⟩
  | fetching | closing =>
    cases hhands
    exact ⟨rfl, .nil⟩
  | _ => cases hended

-- The caller takes back an operation.
theorem collected {call : Call} {place : Nat} (h : Account setup stages s)
    (hcalls : s.calls = before ++ call :: later) (hended : (call.isDone || call.isAborted) = true) :
    Account setup (stages ++ [⟨s, .collect place, [.collected call]⟩])
      { s with calls := before ++ later } := by
  have hplain : ∀ call ∈ before ++ later, call.Plain := by
    have hbefore := h.plain
    rw [hcalls] at hbefore
    simp only [List.mem_append, List.mem_cons] at hbefore ⊢
    rintro call (hcall | hcall)
    · exact hbefore call (.inl hcall)
    · exact hbefore call (.inr (.inr hcall))
  have hadvances := advances_split hcalls
  have hfilter : (before ++ later).filterMap Call.advance? =
      before.filterMap Call.advance? ++ later.filterMap Call.advance? := List.filterMap_append
  cases hadvance : call.advance? with
  | none =>
    rw [hadvance, Option.toList, List.append_nil] at hadvances
    refine h.idle rfl ?_ rfl rfl rfl hplain fun hand unpacked hhand => ?_
    · cases call with
      | next n => cases hadvance
      | _ => rfl
    · rw [System.advances, hfilter, ← hadvances]
      exact hhand
  | some a =>
    cases call with
    | next n =>
      obtain ⟨taken, hand, unpacked, hvalues, hhand, hrows⟩ := h.rows
      rw [hadvances] at hhand
      obtain ⟨hbefore, hlater, hhands, rfl⟩ := InHand.alone hhand
      obtain ⟨hunpacked, hhanded⟩ := values_of_ended hhands hended
      rw [hunpacked] at hrows
      exact
        { plain := hplain
          rows := by
            -- What was in hand is handed out with the result.
            refine ⟨taken ++ hand, [], [], ?_, ?_, ?_⟩
            · rw [handedOut_concat]
              exact List.rel_append hvalues hhanded
            · rw [System.advances, hfilter, hbefore, hlater]
              exact .none
            · rw [Setup.acceptedRows_concat, ← hrows]
              simp [Stage.accepted?, System.turning?]
          finished := by
            rw [getLast?_accepted_concat]
            exact h.finished }
    | _ => cases hadvance

theorem turning?_call {call : Call} (hcalls : s.calls = before ++ call :: later) :
    s.turning? (.call before.length) = call.fetch? := by
  rw [System.turning?, System.getElem?_of_split hcalls]
  rfl

theorem turning?_task {before later : List Task} {task : Task}
    (htasks : s.tasks = before ++ task :: later) :
    s.turning? (.task before.length) = task.fetch? := by
  rw [System.turning?, System.getElem?_of_split htasks]
  rfl

-- Replacing an operation by another that is not an advance either.
theorem filterMap_advance?_replace {call call' : Call} (hcalls : s.calls = before ++ call :: later)
    (h : call'.advance? = call.advance?) :
    (before ++ call' :: later).filterMap Call.advance? = s.advances := by
  rw [System.advances, hcalls, List.filterMap_append, List.filterMap_append, List.filterMap_cons,
    List.filterMap_cons, h]

theorem plain_replace {call call' : Call} (h : ∀ call ∈ s.calls, call.Plain)
    (hcalls : s.calls = before ++ call :: later) (hplain : call'.Plain) :
    ∀ call ∈ before ++ call' :: later, call.Plain := by
  rw [hcalls] at h
  simp only [List.mem_append, List.mem_cons] at h ⊢
  rintro call (hcall | rfl | hcall)
  · exact h call (.inl hcall)
  · exact hplain
  · exact h call (.inr (.inr hcall))

-- A turn of an operation.
theorem called {place : Nat} (h : Account setup stages s)
    (hmove : s.move? setup (.call place) = some (s', happenings))
    (hdecodes : ¬ (Stage.mk s (.call place) happenings).FailsToDecode setup) :
    Account setup (stages ++ [⟨s, .call place, happenings⟩]) s' := by
  obtain ⟨before, call, later, turn, hcalls, rfl, hstep, rfl, rfl⟩ := System.move?_call hmove
  have hmem : call ∈ s.calls := hcalls ▸ List.mem_append_cons_self
  have hturning := turning?_call hcalls
  cases call with
  | next n =>
    obtain ⟨turn, hturn, rfl⟩ := Option.map_eq_some_iff.mp hstep
    have hadvancing : s.advancing? (.call before.length) = some ⟨_, n⟩ := by
      rw [System.advancing?, System.getElem?_of_split hcalls]
      rfl
    refine h.advanced hcalls (Next.steps_of_step hturn) hturning ?_ fun hfails =>
      hdecodes ⟨_, hadvancing, hfails⟩
    -- An advance that can take a turn has not found its row yet.
    intro hand hhands
    obtain ⟨slot, phase⟩ := n
    cases phase with
    | done more => cases hturn
    | _ => exact hhands
  | extend f =>
    obtain ⟨turn, hturn, rfl⟩ := Option.map_eq_some_iff.mp hstep
    have hsame : (before ++ .extend turn.next :: later).filterMap Call.advance? = s.advances :=
      filterMap_advance?_replace hcalls rfl
    exact h.fetched (Fetch.steps_of_step hturn) hturning (plain_replace h.plain hcalls trivial)
      fun hand unpacked hhand => hsame ▸ hhand
  | close x =>
    obtain ⟨turn, hturn, rfl⟩ := Option.map_eq_some_iff.mp hstep
    have hsame : (before ++ .close turn.next :: later).filterMap Call.advance? = s.advances :=
      filterMap_advance?_replace hcalls rfl
    have hcursor : turn.cursor.rows = s.cursor.rows ∧ turn.cursor.batches = s.cursor.batches ∧
        turn.cursor.finished = s.cursor.finished := by
      cases Close.steps_of_step hturn <;> exact ⟨rfl, rfl, rfl⟩
    have hplain : ∀ call ∈ before ++ .close turn.next :: later, call.Plain :=
      plain_replace h.plain hcalls trivial
    exact h.idle (accepted?_eq_none hturning) (filterMap_handed?_events _) hcursor.1 hcursor.2.1
      hcursor.2.2 (plain_after hplain _ _ _) fun hand unpacked hhand =>
        InHand.after (hsame ▸ hhand) _ _ _
  | one | all | item => exact (h.plain _ hmem).elim

-- A turn of a task.
theorem tasked {place : Nat} (h : Account setup stages s)
    (hmove : s.move? setup (.task place) = some (s', happenings)) :
    Account setup (stages ++ [⟨s, .task place, happenings⟩]) s' := by
  obtain ⟨before, task, later, turn, htasks, rfl, hstep, rfl, rfl⟩ := System.move?_task hmove
  have hturning := turning?_task htasks
  cases Task.steps_of_step hstep with
  | fetches hfetch => exact h.fetched hfetch hturning h.plain fun _ _ => id
  | notices =>
    have haccepted (happenings : List Happening) :
        (Stage.mk s (.task before.length) happenings).accepted? = none := by
      rw [Stage.accepted?, hturning]
      exact Fetch.accepts?_of_brings?_eq_none rfl
    exact h.idle (haccepted _) rfl rfl rfl rfl h.plain fun _ _ => id
  | reports | tells =>
    exact h.idle (accepted?_eq_none hturning) rfl rfl rfl rfl (plain_after h.plain _ _ _)
      fun hand unpacked hhand => InHand.after hhand _ _ _

-- The answer to the query of an operation.
theorem answered {place : Nat} {a : Answer} (h : Account setup stages s)
    (hmove : s.move? setup (.answerCall place a) = some (s', happenings)) :
    Account setup (stages ++ [⟨s, .answerCall place a, happenings⟩]) s' := by
  obtain ⟨before, call, later, kind, hcalls, rfl, hawaits, rfl, rfl⟩ :=
    System.move?_answerCall hmove
  have hmem : call ∈ s.calls := hcalls ▸ List.mem_append_cons_self
  have hplain : ∀ call' ∈ before ++ call.answer a :: later, call'.Plain := by
    apply plain_replace h.plain hcalls
    have hcall := h.plain _ hmem
    cases call <;> exact hcall
  refine h.idle rfl rfl rfl rfl rfl hplain fun hand unpacked hhand => ?_
  cases call with
  | next n =>
    rw [advances_split hcalls] at hhand
    obtain ⟨hbefore, hlater, hhands, rfl⟩ := InHand.alone hhand
    have hanswer : (Call.next (n.answer a)).advance? = some ⟨_, n.answer a⟩ := rfl
    -- An answer moves no rows.
    have hkept : (n.answer a).Hands hand ∧ (n.answer a).unpacked = n.unpacked := by
      obtain ⟨slot, phase⟩ := n
      cases phase with
      | fetching | closing => exact ⟨hhands, rfl⟩
      | _ => exact ⟨hhands, rfl⟩
    rw [System.advances, List.filterMap_append]
    simp only [Call.answer]
    rw [List.filterMap_cons_some hanswer, hbefore, hlater, ← hkept.2]
    exact .one hkept.1
  | extend f =>
    have hsame : (before ++ (Call.extend f).answer a :: later).filterMap Call.advance? =
      s.advances := filterMap_advance?_replace hcalls rfl
    rw [System.advances, hsame]
    exact hhand
  | close x =>
    have hsame : (before ++ (Call.close x).answer a :: later).filterMap Call.advance? =
      s.advances := filterMap_advance?_replace hcalls rfl
    rw [System.advances, hsame]
    exact hhand
  | one | all | item => exact (h.plain _ hmem).elim

-- The caller begins an operation.
theorem begun {op : Operation} (h : Account setup stages s)
    (hreader : (Stage.mk s (.begin op) [.began op]).OneReader) :
    Account setup (stages ++ [⟨s, .begin op, [.began op]⟩])
      { s with calls := op.begin :: s.calls } := by
  have hplain : op.begin.Plain := by
    cases op <;> first | exact hreader | trivial
  refine h.idle rfl rfl rfl rfl rfl ?_ fun hand unpacked hhand => ?_
  · rintro call (_ | ⟨_, hcall⟩)
    · exact hplain
    · exact h.plain call hcall
  · cases op with
    | next slot =>
      have hnone : s.advances = [] := hreader
      have hbegin : (Operation.next slot).begin.advance? = some ⟨_, .start slot⟩ := rfl
      rw [System.advances, List.filterMap_cons_some hbegin]
      rw [hnone] at hhand
      rw [System.advances] at hnone
      rw [hnone]
      cases hhand
      exact .one rfl
    | extend | close => exact hhand
    | one | all | item => exact hplain.elim

-- Every stage preserves the account.
theorem step (h : Account setup stages s) (hmove : s.move? setup move = some (s', happenings))
    (hreader : (Stage.mk s move happenings).OneReader)
    (hdecodes : ¬ (Stage.mk s move happenings).FailsToDecode setup) :
    Account setup (stages ++ [⟨s, move, happenings⟩]) s' := by
  cases move with
  | begin op => cases hmove; exact h.begun hreader
  | call place => exact h.called hmove hdecodes
  | answerCall place a => exact h.answered hmove
  | collect place =>
    obtain ⟨before, call, later, hcalls, rfl, hended, rfl, rfl⟩ := System.move?_collect hmove
    exact h.collected hcalls hended
  | task place => exact h.tasked hmove
  | answerTask place a =>
    obtain ⟨before, task, later, kind, htasks, rfl, hawaits, rfl, rfl⟩ :=
      System.move?_answerTask hmove
    exact h.idle rfl rfl rfl rfl rfl h.plain fun _ _ => id

end Account

theorem Account.opened (setup : Setup) (release : Bool) :
    Account setup [] (System.opened release) := by
  have hrows : (System.opened release).cursor.rows.toList = [] := Queue.toList_empty
  have hbatches : (System.opened release).cursor.batches.toList = [] := Queue.toList_empty
  exact
    { plain := fun call hcall => absurd hcall List.not_mem_nil
      rows := by
        refine ⟨[], [], [], .nil, .none, ?_⟩
        rw [Cursor.unread, hrows, hbatches]
        rfl
      finished := rfl }

end RowStream
