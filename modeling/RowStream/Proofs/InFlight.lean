import Mathlib.Algebra.Order.BigOperators.Group.List
import Mathlib.Algebra.Order.Group.Nat
import RowStream.Proofs.Asking

/-!
# Queries in flight

A fetch asks the server with the gate shut behind it, and opens the gate when it takes in what came
of its query.  A reply that is added from outside opens the gate too, whoever holds it, and lets
another query out: with every such reply there may be one more query in flight.
-/

namespace RowStream

variable {setup : Setup} {c c' : Cursor} {s s' start : System} {stages : List Stage} {move : Move}
  {happenings : List Happening} {f? f'? : Option Fetch} {events : List Event}

/-! ## 1. Queries whose outcome is not in -/

/-- Whether an operation adds a reply from outside. -/
def Call.appends : Call → Bool
  | extend _ => true
  | _ => false

/-- The fetch that an operation is in, if it asks the server. -/
def Call.asking? (call : Call) : Option Fetch := if call.appends then none else call.fetch?

/-- Whether a fetch has asked the server and not taken in what came of it. -/
def Fetch.inFlight : Fetch → Bool
  | waiting | fold _ | aborted => true
  | _ => false

/-- Whether a fetch takes in what came of its query when it takes its turn.  For a fetch in the
background that was broken off its task does. -/
def Fetch.foldsIn : Fetch → Bool
  | fold _ | aborted => true
  | _ => false

/-- The fetch, of those that ask the server, that takes a turn in a move. -/
def System.asking? (s : System) : Move → Option Fetch
  | .call place => s.calls[place]?.bind Call.asking?
  | .task place => s.tasks[place]?.bind Task.fetch?
  | _ => none

/-- Whether the outcome of a query is taken in. -/
def Stage.foldsIn (stage : Stage) : Bool :=
  ((stage.before.asking? stage.move).map Fetch.foldsIn).getD false

/-- How many queries for more rows have had their outcome taken in. -/
def foldedIn (stages : List Stage) : Nat := stages.countP Stage.foldsIn

/-- Whether an operation adds a reply from outside in its next turn while the gate is held. -/
def Call.intrudes (c : Cursor) : Call → Bool
  | extend (.fold _) => c.fetching
  | _ => false

/-- Whether a reply from outside is added while a fetch holds the gate. -/
def Stage.intrudes (stage : Stage) : Bool :=
  match stage.move with
  | .call place => (stage.before.calls[place]?.map (Call.intrudes stage.before.cursor)).getD false
  | _ => false

/-- How many replies from outside were added while a fetch held the gate. -/
def intrusions (stages : List Stage) : Nat := stages.countP Stage.intrudes

theorem foldedIn_concat (stages : List Stage) (stage : Stage) :
    foldedIn (stages ++ [stage]) = foldedIn stages + stage.foldsIn.toNat := by
  rw [foldedIn, List.countP_append, List.countP_singleton]
  cases stage.foldsIn <;> rfl

theorem intrusions_concat (stages : List Stage) (stage : Stage) :
    intrusions (stages ++ [stage]) = intrusions stages + stage.intrudes.toNat := by
  rw [intrusions, List.countP_append, List.countP_singleton]
  cases stage.intrudes <;> rfl

theorem foldedIn_append (stages later : List Stage) :
    foldedIn (stages ++ later) = foldedIn stages + foldedIn later := List.countP_append

theorem intrusions_append (stages later : List Stage) :
    intrusions (stages ++ later) = intrusions stages + intrusions later := List.countP_append

/-! ## 2. What a turn does to them -/

/-- A fetch, or none, as a number. -/
def Fetch.count (counts : Fetch → Bool) (f? : Option Fetch) : Nat :=
  (f?.map fun f => (counts f).toNat).getD 0

-- A query goes into flight when it is sent and comes down when its outcome is taken in, and in
-- between the fetch holds the gate.
theorem FetchTurn.accounts (h : FetchTurn setup c f? f'? c' events) :
    (events.map Happening.event).countP Happening.asks + Fetch.count Fetch.inFlight f? =
        Fetch.count Fetch.inFlight f'? + Fetch.count Fetch.foldsIn f? ∧
      Fetch.count Fetch.holds f'? + c.fetching.toNat ≤
        Fetch.count Fetch.holds f? + c'.fetching.toNat := by
  have hgate := c.fetching.toNat_le
  cases h with
  | apart hafter hsame hquiet =>
    rw [Happening.countP_asks_eq_zero hquiet, hsame]
    rcases hafter with rfl | rfl <;> exact ⟨rfl, Nat.le_refl _⟩
  | @fetches f turn f? hstep hafter =>
    have hcount (counts : Fetch → Bool) (hdone : ∀ outcome, counts (.done outcome) = false) :
        Fetch.count counts f'? = (counts turn.next).toNat := by
      rcases hafter with rfl | ⟨rfl, outcome, hend⟩
      · rfl
      · rw [hend, hdone]
        rfl
    rw [hcount _ fun _ => rfl, hcount _ fun _ => rfl]
    cases hstep with
    | passed hfree => rw [hfree]; exact ⟨rfl, Nat.le_refl _⟩
    | tells outcome low => cases low <;> exact ⟨rfl, Nat.le_refl _⟩
    | looksAhead outcome =>
      rw [Happening.countP_asks_eq_zero c.sent_not_mem_schedule]
      exact ⟨rfl, Nat.le_refl _⟩
    | turnsBack | adds | fails =>
      refine ⟨rfl, ?_⟩
      show 0 + _ ≤ 1 + _
      omega
    | refused | goesOn | asks => exact ⟨rfl, Nat.le_refl _⟩
  | notices =>
    refine ⟨rfl, ?_⟩
    show 0 + _ ≤ 1 + _
    omega

/-- Whether a fetch has no query to send any more. -/
def Fetch.pastAsking : Fetch → Bool
  | fold _ | wake .. | ahead _ | done _ => true
  | _ => false

-- An operation that adds a reply from outside sends nothing.  It leaves the gate alone unless it
-- opens it for the reply.
theorem Fetch.Steps.of_pastAsking {f : Fetch} {turn : Turn Fetch} (h : Steps setup c f turn)
    (hpast : f.pastAsking = true) :
    turn.next.pastAsking = true ∧ .sent .more ∉ turn.events ∧
      c.fetching.toNat ≤ turn.cursor.fetching.toNat + (Call.intrudes c (.extend f)).toNat := by
  cases h with
  | adds reply | fails e => exact ⟨rfl, by simp, Nat.le_add_left ..⟩
  | tells outcome low =>
    refine ⟨?_, by simp, Nat.le_add_right ..⟩
    cases low <;> rfl
  | looksAhead outcome => exact ⟨rfl, c.sent_not_mem_schedule, Nat.le_add_right ..⟩
  | refused | passed | goesOn | turnsBack | asks => cases hpast

theorem Call.asking?_of_not_appends {call : Call} (h : call.appends = false) :
    call.asking? = call.fetch? := by
  rw [asking?, h]
  rfl

theorem Call.appends_step {call : Call} {turn : Turn Call} (h : call.step setup c = some turn) :
    turn.next.appends = call.appends := by
  cases call <;> obtain ⟨inner, -, rfl⟩ := Option.map_eq_some_iff.mp h <;> rfl

theorem Call.asking?_wake (call : Call) : call.wake.asking? = call.asking? := by
  have happends : call.wake.appends = call.appends := by cases call <;> rfl
  rw [asking?, asking?, happends, call.fetch?_wake]

theorem Call.asking?_answer (call : Call) (a : Answer) :
    (call.answer a).asking? = call.asking?.map (Fetch.answer a) := by
  have happends : (call.answer a).appends = call.appends := by cases call <;> rfl
  rw [asking?, asking?, happends, call.fetch?_answer]
  split <;> rfl

theorem Operation.asking?_begin (op : Operation) : op.begin.asking? = none := by
  rcases op.fetch?_begin_eq with hnone | ⟨reply, hextend⟩
  · rw [Call.asking?, hnone, ite_self]
  · rw [hextend]
    rfl

theorem Fetch.count_answer {counts : Fetch → Bool} (hwaiting : counts .waiting = true)
    (hfold : ∀ outcome, counts (.fold outcome) = true) (haborted : counts .aborted = true)
    (f? : Option Fetch) (a : Answer) :
    count counts (f?.map (Fetch.answer a)) = count counts f? := by
  cases f? with
  | none => rfl
  | some f =>
    cases f with
    | waiting =>
      show (counts (answer a waiting)).toNat = (counts waiting).toNat
      rw [hwaiting]
      cases a with
      | reply | failure => exact congrArg Bool.toNat (hfold _)
      | breakdown => exact congrArg Bool.toNat haborted
    | _ => rfl

/-! ## 3. What a move does to them -/

/-- Fetches that ask the server, those counted that have some property. -/
def Weight.asking (counts : Fetch → Bool) (hclaim : counts .claim = false) : Weight :=
  .ofFetches Call.asking? Call.asking?_wake (fun f => (counts f).toNat)
    (by rw [hclaim]; rfl)

/-- Operations that add a reply from outside and are about to ask the server. -/
def Weight.astray : Weight where
  ofCall
    | .extend f => (!f.pastAsking).toNat
    | _ => 0
  ofTask _ := 0
  ofCall_wake call := by cases call <;> rfl
  ofTask_scheduled := rfl

-- The turn of an operation under way, whether it asks the server or adds a reply from outside.
theorem Call.accounts {call : Call} {turn : Turn Call} (hstep : call.step setup c = some turn)
    (hastray : Weight.astray.ofCall call = 0) :
    (turn.events.map Happening.event).countP Happening.asks +
          Fetch.count Fetch.inFlight call.asking? =
        Fetch.count Fetch.inFlight turn.next.asking? + Fetch.count Fetch.foldsIn call.asking? ∧
      Fetch.count Fetch.holds turn.next.asking? + c.fetching.toNat ≤
        Fetch.count Fetch.holds call.asking? + turn.cursor.fetching.toNat +
          (call.intrudes c).toNat ∧
      Weight.astray.ofCall turn.next = 0 := by
  cases happends : call.appends with
  | false =>
    have hnext : turn.next.appends = false := (appends_step hstep).trans happends
    obtain ⟨hasks, hholds⟩ := (steps_of_step hstep).fetchTurn.accounts
    rw [asking?_of_not_appends happends, asking?_of_not_appends hnext]
    refine ⟨hasks, Nat.le_add_right_of_le hholds, ?_⟩
    cases hcall : turn.next with
    | extend f => rw [hcall] at hnext; cases hnext
    | _ => rfl
  | true =>
    cases call with
    | extend f =>
      obtain ⟨inner, hinner, rfl⟩ := Option.map_eq_some_iff.mp hstep
      have hpast : f.pastAsking = true := by
        cases h : f.pastAsking with
        | true => rfl
        | false =>
          have hone : (!f.pastAsking).toNat = 0 := hastray
          rw [h] at hone
          cases hone
      obtain ⟨hpast, hquiet, hgate⟩ := (Fetch.steps_of_step hinner).of_pastAsking hpast
      have hasks := Happening.countP_asks_eq_zero hquiet
      refine ⟨?_, ?_, ?_⟩
      · show (inner.events.map Happening.event).countP Happening.asks + 0 = 0 + 0
        rw [hasks]
      · show 0 + c.fetching.toNat ≤ 0 + inner.cursor.fetching.toNat + _
        omega
      · show (!inner.next.pastAsking).toNat = 0
        rw [hpast]
        rfl
    | next | one | all | item | close => cases happends

/-- How many queries are in flight that belong to fetches under way. -/
def System.inFlight (s : System) : Nat := s.total (.asking Fetch.inFlight rfl)

/-- Fetches that have passed the gate and not left it. -/
def Weight.holding : Weight := .asking Fetch.holds rfl

/-- How many fetches under way have passed the gate and not left it. -/
def System.holding (s : System) : Nat := s.total (.asking Fetch.holds rfl)

theorem System.total_le_total {v w : Weight}
    (hcalls : ∀ call ∈ s.calls, v.ofCall call ≤ w.ofCall call)
    (htasks : ∀ task ∈ s.tasks, v.ofTask task ≤ w.ofTask task) : s.total v ≤ s.total w :=
  Nat.add_le_add (List.sum_le_sum hcalls) (List.sum_le_sum htasks)

theorem System.ofCall_le_total {call : Call} (h : call ∈ s.calls) (w : Weight) :
    w.ofCall call ≤ s.total w := by
  obtain ⟨before, later, hcalls⟩ := List.append_of_mem h
  rw [total_call hcalls w]
  exact Nat.le_add_left ..

theorem System.inFlight_le_holding (s : System) : s.inFlight ≤ s.holding := by
  have hcount (f? : Option Fetch) :
      Fetch.count Fetch.inFlight f? ≤ Fetch.count Fetch.holds f? := by
    cases f? with
    | none => exact Nat.le_refl 0
    | some f =>
      cases f with
      | check | send => exact Nat.zero_le 1
      | _ => exact Nat.le_refl _
  exact total_le_total (fun call _ => hcount call.asking?) (fun task _ => hcount task.fetch?)

/-- The books of a run: every query that was sent has had its outcome taken in, or is in flight, or
is one of `lost` of operations that were broken off and taken back.  There are no more fetches past
the gate than there are gates shut or forced open. -/
structure Accounted (stages : List Stage) (s : System) (lost : Nat) : Prop where
  asked_eq : asked stages = foldedIn stages + s.inFlight + lost
  holding_le : s.holding + lost ≤ s.cursor.fetching.toNat + intrusions stages
  astray_eq : s.total .astray = 0

namespace Accounted

variable {lost : Nat}

theorem post (h : Accounted stages s lost) {lost' : Nat} (stage : Stage)
    (hasks : stage.happenings.countP Happening.asks + s.inFlight + lost =
      s'.inFlight + lost' + stage.foldsIn.toNat)
    (hholding : s'.holding + lost' + s.cursor.fetching.toNat ≤
      s.holding + lost + s'.cursor.fetching.toNat + stage.intrudes.toNat)
    (hastray : s'.total .astray = 0) : Accounted (stages ++ [stage]) s' lost' := by
  obtain ⟨hasked, hheld, -⟩ := h
  refine ⟨?_, ?_, hastray⟩
  · rw [asked_concat, foldedIn_concat]
    omega
  · rw [intrusions_concat]
    omega

theorem call {place : Nat} {call : Call} {turn : Turn Call} (h : Accounted stages s lost)
    (hcall : s.calls[place]? = some call) (hstep : call.step setup s.cursor = some turn)
    (hcursor : s'.cursor = turn.cursor)
    (htotal : ∀ w, s'.total w + w.ofCall call = s.total w + w.ofCall turn.next) :
    Accounted (stages ++ [⟨s, .call place, turn.events.map .event⟩]) s' lost := by
  have hastray : Weight.astray.ofCall call = 0 :=
    Nat.le_zero.mp (h.astray_eq ▸ System.ofCall_le_total (List.mem_of_getElem? hcall) .astray)
  obtain ⟨hasks, hgate, hnext⟩ := Call.accounts hstep hastray
  have hfolds : (Stage.mk s (.call place) (turn.events.map .event)).foldsIn.toNat =
      Fetch.count Fetch.foldsIn call.asking? := by
    simp only [Stage.foldsIn, System.asking?, hcall, Option.bind_some]
    cases call.asking? <;> rfl
  have hintrudes : (Stage.mk s (.call place) (turn.events.map .event)).intrudes =
      call.intrudes s.cursor := by
    simp only [Stage.intrudes, hcall]
    rfl
  have hflight : s'.inFlight + Fetch.count Fetch.inFlight call.asking? =
    s.inFlight + Fetch.count Fetch.inFlight turn.next.asking? := htotal _
  have hholding : s'.holding + Fetch.count Fetch.holds call.asking? =
    s.holding + Fetch.count Fetch.holds turn.next.asking? := htotal _
  have hsum := htotal .astray
  have hnone := h.astray_eq
  apply h.post
  · rw [hfolds]
    show (turn.events.map Happening.event).countP Happening.asks + _ + _ = _
    omega
  · rw [hintrudes, hcursor]
    omega
  · omega

theorem task {place : Nat} {task : Task} {turn : Turn Task} (h : Accounted stages s lost)
    (htask : s.tasks[place]? = some task) (hstep : task.step setup s.cursor = some turn)
    (hcursor : s'.cursor = turn.cursor)
    (htotal : ∀ w, s'.total w + w.ofTask task = s.total w + w.ofTask turn.next) :
    Accounted (stages ++ [⟨s, .task place, turn.events.map .event⟩]) s' lost := by
  obtain ⟨hasks, hgate⟩ := (Task.steps_of_step hstep).fetchTurn.accounts
  have hfolds : (Stage.mk s (.task place) (turn.events.map .event)).foldsIn.toNat =
      Fetch.count Fetch.foldsIn task.fetch? := by
    simp only [Stage.foldsIn, System.asking?, htask, Option.bind_some]
    cases task.fetch? <;> rfl
  have hflight : s'.inFlight + Fetch.count Fetch.inFlight task.fetch? =
    s.inFlight + Fetch.count Fetch.inFlight turn.next.fetch? := htotal _
  have hholding : s'.holding + Fetch.count Fetch.holds task.fetch? =
    s.holding + Fetch.count Fetch.holds turn.next.fetch? := htotal _
  have hastray : s'.total .astray = s.total .astray := htotal .astray
  apply h.post
  · rw [hfolds]
    show (turn.events.map Happening.event).countP Happening.asks + _ + _ = _
    omega
  · rw [hcursor]
    show _ ≤ _ + 0
    omega
  · rw [hastray, h.astray_eq]

-- A move that asks nothing, takes nothing in and leaves the gate alone.
theorem quiet (h : Accounted stages s lost) {lost' : Nat}
    (hasks : happenings.countP Happening.asks = 0) (hturn : s.asking? move = none)
    (hintrudes : (Stage.mk s move happenings).intrudes = false) (hcursor : s'.cursor = s.cursor)
    (hflight : s'.inFlight + lost' = s.inFlight + lost)
    (hholding : s'.holding + lost' = s.holding + lost) (hastray : s'.total .astray = 0) :
    Accounted (stages ++ [⟨s, move, happenings⟩]) s' lost' := by
  have hfolds : (Stage.mk s move happenings).foldsIn = false := by
    simp only [Stage.foldsIn, hturn]
    rfl
  apply h.post
  · rw [hfolds, Bool.toNat_false]
    show happenings.countP Happening.asks + _ + _ = _
    omega
  · rw [hintrudes, hcursor, Bool.toNat_false]
    omega
  · exact hastray

theorem begun {op : Operation} (h : Accounted stages s lost) (hcursor : s'.cursor = s.cursor)
    (htotal : ∀ w, s'.total w = s.total w + w.ofCall op.begin) :
    Accounted (stages ++ [⟨s, .begin op, [.began op]⟩]) s' lost := by
  have hzero (counts : Fetch → Bool) : Fetch.count counts op.begin.asking? = 0 := by
    rw [op.asking?_begin]
    rfl
  have hflight : s'.inFlight = s.inFlight + Fetch.count Fetch.inFlight op.begin.asking? :=
    htotal _
  have hholding : s'.holding = s.holding + Fetch.count Fetch.holds op.begin.asking? := htotal _
  have hastray : Weight.astray.ofCall op.begin = 0 := by cases op <;> rfl
  rw [hzero] at hflight hholding
  refine h.quiet rfl rfl rfl hcursor (by omega) (by omega) ?_
  rw [htotal, h.astray_eq, hastray]

theorem answered {place : Nat} {call : Call} {kind : Query.Kind} {a : Answer}
    (h : Accounted stages s lost) (hcursor : s'.cursor = s.cursor)
    (htotal : ∀ w, s'.total w + w.ofCall call = s.total w + w.ofCall (call.answer a)) :
    Accounted (stages ++ [⟨s, .answerCall place a, [.answered kind a]⟩]) s' lost := by
  have hflight : s'.inFlight + Fetch.count Fetch.inFlight call.asking? =
    s.inFlight + Fetch.count Fetch.inFlight (call.answer a).asking? := htotal _
  have hholding : s'.holding + Fetch.count Fetch.holds call.asking? =
    s.holding + Fetch.count Fetch.holds (call.answer a).asking? := htotal _
  rw [call.asking?_answer, Fetch.count_answer rfl (fun _ => rfl) rfl] at hflight hholding
  have hastray : Weight.astray.ofCall (call.answer a) ≤ Weight.astray.ofCall call := by
    cases call with
    | extend f =>
      cases f with
      | waiting =>
        cases a with
        | reply | failure => exact Nat.zero_le 1
        | breakdown => exact Nat.le_refl 1
      | _ => exact Nat.le_refl _
    | _ => exact Nat.le_refl 0
  have hsum := htotal .astray
  have hnone := h.astray_eq
  exact h.quiet rfl rfl rfl hcursor (by omega) (by omega) (by omega)

-- A fetch that was broken off is lost with its operation, and its gate stays shut.
theorem collected {place : Nat} {call : Call} (h : Accounted stages s lost)
    (hended : (call.isDone || call.isAborted) = true) (hcursor : s'.cursor = s.cursor)
    (htotal : ∀ w, s'.total w + w.ofCall call = s.total w) :
    Accounted (stages ++ [⟨s, .collect place, [.collected call]⟩]) s'
      (lost + Fetch.count Fetch.inFlight call.asking?) := by
  have hsame : Fetch.count Fetch.holds call.asking? = Fetch.count Fetch.inFlight call.asking? := by
    cases hf : call.asking? with
    | none => rfl
    | some f =>
      have hfetch : call.fetch? = some f := by
        unfold Call.asking? at hf
        split at hf
        · cases hf
        · exact hf
      rcases Call.fetch?_of_ended hended hfetch with ⟨outcome, rfl⟩ | rfl <;> rfl
  have hflight : s'.inFlight + Fetch.count Fetch.inFlight call.asking? = s.inFlight := htotal _
  have hholding : s'.holding + Fetch.count Fetch.holds call.asking? = s.holding := htotal _
  have hsum := htotal .astray
  have hnone := h.astray_eq
  exact h.quiet rfl rfl rfl hcursor (by omega) (by omega) (by omega)

theorem answeredTask {place : Nat} {task : Task} {kind : Query.Kind} {a : Answer}
    (h : Accounted stages s lost) (hcursor : s'.cursor = s.cursor)
    (htotal : ∀ w, s'.total w + w.ofTask task = s.total w + w.ofTask (task.answer a)) :
    Accounted (stages ++ [⟨s, .answerTask place a, [.answered kind a]⟩]) s' lost := by
  have hflight : s'.inFlight + Fetch.count Fetch.inFlight task.fetch? =
    s.inFlight + Fetch.count Fetch.inFlight (task.answer a).fetch? := htotal _
  have hholding : s'.holding + Fetch.count Fetch.holds task.fetch? =
    s.holding + Fetch.count Fetch.holds (task.answer a).fetch? := htotal _
  rw [task.fetch?_answer, Fetch.count_answer rfl (fun _ => rfl) rfl] at hflight hholding
  have hastray : s'.total .astray = s.total .astray := htotal .astray
  exact h.quiet rfl rfl rfl hcursor (by omega) (by omega) (hastray.trans h.astray_eq)

theorem step (h : Accounted stages s lost)
    (hmove : s.move? setup move = some (s', happenings)) :
    ∃ lost, Accounted (stages ++ [⟨s, move, happenings⟩]) s' lost := by
  cases System.shifts_of_move hmove with
  | begins op hcursor htotal => exact ⟨lost, h.begun hcursor htotal⟩
  | call hcall hstep hcursor htotal => exact ⟨lost, h.call hcall hstep hcursor htotal⟩
  | answerCall _ hcursor htotal => exact ⟨lost, h.answered hcursor htotal⟩
  | collect hended hcursor htotal => exact ⟨_, h.collected hended hcursor htotal⟩
  | task htask hstep hcursor htotal => exact ⟨lost, h.task htask hstep hcursor htotal⟩
  | answerTask _ hcursor htotal => exact ⟨lost, h.answeredTask hcursor htotal⟩

end Accounted

/-! ## 4. Runs -/

theorem Run.accounted {release : Bool} (hrun : Run setup (.opened release) stages s) :
    ∃ lost, Accounted stages s lost := by
  induction hrun with
  | nil => exact ⟨0, rfl, Nat.le_refl 0, rfl⟩
  | snoc _ hmove ih =>
    obtain ⟨lost, h⟩ := ih
    exact h.step hmove

-- An advance on an open cursor without rows asks for more, and then a reply from outside opens the
-- gate and leaves the cursor as it was.
theorem Run.intruded (setup : Setup) (release : Bool) (calls : List Call) :
    ∃ stages later, Run setup ⟨{ release }, calls, []⟩ stages ⟨{ release }, later, []⟩ ∧
      intrusions stages = 1 ∧ foldedIn stages = 0 ∧ asked stages = 1 := by
  obtain ⟨stages, later, hstages, hcounts⟩ : ∃ stages later,
      System.stages? setup ⟨{ release }, calls, []⟩
        [.begin (.next (t := .string) ""), .call 0, .call 0, .call 0, .call 0, .call 0,
          .begin (.extend ⟨.partialSequence, [], none⟩), .call 0] =
        some (stages, ⟨{ release }, later, []⟩) ∧
      intrusions stages = 1 ∧ foldedIn stages = 0 ∧ asked stages = 1 :=
    ⟨_, _, rfl, rfl, rfl, rfl⟩
  exact ⟨stages, later, Run.of_stages? hstages, hcounts⟩

theorem Run.asks_again (setup : Setup) (release : Bool) (n : Nat) (calls : List Call) :
    ∃ stages s, Run setup ⟨{ release }, calls, []⟩ stages s ∧
      intrusions stages = n ∧ foldedIn stages = 0 ∧ asked stages = n + 1 := by
  induction n generalizing calls with
  | zero =>
    obtain ⟨stages, s, hstages, hcounts⟩ : ∃ stages s,
        System.stages? setup ⟨{ release }, calls, []⟩
          [.begin (.next (t := .string) ""), .call 0, .call 0, .call 0, .call 0, .call 0] =
          some (stages, s) ∧
        intrusions stages = 0 ∧ foldedIn stages = 0 ∧ asked stages = 1 :=
      ⟨_, _, rfl, rfl, rfl, rfl⟩
    exact ⟨stages, s, Run.of_stages? hstages, hcounts⟩
  | succ n ih =>
    obtain ⟨first, between, hfirst, hintrusions, hfolded, hasked⟩ :=
      intruded setup release calls
    obtain ⟨later, s, hlater, hintrusions', hfolded', hasked'⟩ := ih between
    refine ⟨first ++ later, s, hfirst.append hlater, ?_, ?_, ?_⟩
    · rw [intrusions_append]
      omega
    · rw [foldedIn_append]
      omega
    · rw [asked_append]
      omega

/-! ## 5. The theorem -/

/-- On every run there is at most one query for more rows whose outcome is not in, and one more for
every reply that was added from outside while a fetch held the gate.  For any number of such replies
there is a run on which so many queries are in flight at once. -/
theorem in_flight_bounded (setup : Setup) (release : Bool) :
    (∀ {stages : List Stage} {s : System}, Run setup (.opened release) stages s →
      asked stages ≤ foldedIn stages + 1 + intrusions stages) ∧
    ∀ n, ∃ stages s, Run setup (.opened release) stages s ∧ intrusions stages = n ∧
      foldedIn stages = 0 ∧ asked stages = n + 1 := by
  constructor
  · intro stages s hrun
    obtain ⟨lost, hasked, hholding, -⟩ := hrun.accounted
    have hflight := s.inFlight_le_holding
    have hgate := s.cursor.fetching.toNat_le
    omega
  · exact fun n => Run.asks_again setup release n []

/-- An advance asks for more, a reply from outside opens the gate, and a second advance asks before
the first query is answered. -/
theorem in_flight_bounded_twice :
    ∃ stages s, Run (.ordinary 1 { prefetch := false }) (.opened true) stages s ∧
      asked stages ≤ foldedIn stages + 1 + intrusions stages ∧
      asked stages = 2 ∧ foldedIn stages = 0 ∧ intrusions stages = 1 := by
  obtain ⟨stages, s, hstages, hcounts⟩ : ∃ stages s,
      (System.opened true).stages? (.ordinary 1 { prefetch := false })
        [.begin (.next (t := .string) ""), .call 0, .call 0, .call 0, .call 0, .call 0,
          .begin (.extend ⟨.partialSequence, [], none⟩), .call 0, .call 0, .collect 0,
          .begin (.next (t := .string) ""), .call 0, .call 0, .call 0, .call 0, .call 0] =
        some (stages, s) ∧
      asked stages = 2 ∧ foldedIn stages = 0 ∧ intrusions stages = 1 :=
    ⟨_, _, rfl, rfl, rfl, rfl⟩
  have hrun := Run.of_stages? hstages
  exact ⟨stages, s, hrun, (in_flight_bounded _ true).1 hrun, hcounts⟩

end RowStream
