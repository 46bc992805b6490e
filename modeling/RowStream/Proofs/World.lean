import Mathlib.Logic.Relation
import RowStream.Proofs.Moves

/-!
# A caller and its connection

A world is a system with one operation under way, the answers that the connection will give to the
queries for more rows, one after another, the answer that it will give to a stop query, and the
operations that have come to their results.  The caller goes on from one result to the next
operation by habit.  The order of turns is left open: a run is any chain of steps.
-/

namespace RowStream

/-- When the fetches in the background take their turns: while the caller is between two operations
or has to wait, or at any time. -/
inductive Schedule
  | betweenCalls
  | anywhere

/-- Whether a schedule lets the fetches in the background take turns. -/
def Schedule.Admits (setup : Setup) (s : System) : Schedule → Prop
  | betweenCalls => ∀ call ∈ s.calls, call.step setup s.cursor = none
  | anywhere => True

/-- A caller and its connection. -/
structure World where
  system : System
  answers : List Answer
  stop : Answer
  results : List Call := []

/-- The habit of a caller that wants one result only. -/
def Call.Suffices (_ : Call) (_ : Operation) : Prop := False

namespace World

/-- A caller with one operation on a system with no other operation under way. -/
def alone (s : System) (call : Call) (answers : List Answer) (stop : Answer) : World where
  system := { s with calls := [call] }
  answers
  stop

variable {setup : Setup} {schedule : Schedule} {habit : Call → Operation → Prop} {w w' : World}

/-- The steps of a world. -/
inductive Step (setup : Setup) (schedule : Schedule) (habit : Call → Operation → Prop) :
    World → World → Prop
  | call {w : World} {s : System} {happenings : List Happening}
    (hmove : w.system.move? setup (.call 0) = some (s, happenings)) :
    Step setup schedule habit w { w with system := s }
  | task {w : World} {s : System} {happenings : List Happening} (place : Nat)
    (hadmits : schedule.Admits setup w.system)
    (hmove : w.system.move? setup (.task place) = some (s, happenings)) :
    Step setup schedule habit w { w with system := s }
  | answerCall {w : World} {s : System} {happenings : List Happening} {call : Call} {a : Answer}
    {answers : List Answer} (hcalls : w.system.calls = [call]) (hawaits : call.awaits? = some .more)
    (hanswers : w.answers = a :: answers)
    (hmove : w.system.move? setup (.answerCall 0 a) = some (s, happenings)) :
    Step setup schedule habit w { w with system := s, answers }
  | answerTask {w : World} {s : System} {happenings : List Happening} {a : Answer}
    {answers : List Answer} (place : Nat) (hanswers : w.answers = a :: answers)
    (hmove : w.system.move? setup (.answerTask place a) = some (s, happenings)) :
    Step setup schedule habit w { w with system := s, answers }
  | stopped {w : World} {s : System} {happenings : List Happening} {call : Call}
    (hcalls : w.system.calls = [call]) (hawaits : call.awaits? = some .stop)
    (hmove : w.system.move? setup (.answerCall 0 w.stop) = some (s, happenings)) :
    Step setup schedule habit w { w with system := s }
  | again {w : World} {call : Call} {op : Operation} (hcalls : w.system.calls = [call])
    (hdone : call.isDone = true) (hhabit : habit call op) :
    Step setup schedule habit w
      { w with system := { w.system with calls := [op.begin] }, results := w.results ++ [call] }

/-- Whether the caller has got what it wants: an operation has come to its result and the caller
does not go on from it. -/
def Over (habit : Call → Operation → Prop) (w : World) : Prop :=
  ∃ call, w.system.calls = [call] ∧ call.isDone = true ∧ ∀ op, ¬ habit call op

/-- Whether somebody waits for more rows and no answer will come. -/
def Unanswered (w : World) : Prop :=
  w.answers = [] ∧ ((∃ call ∈ w.system.calls, call.awaits? = some .more) ∨
    ∃ task ∈ w.system.tasks, task.awaits? = some .more)

/-- Every run of a world comes to an end, none of them gets stuck before the caller has got what it
wants, and what it has got then is right. -/
structure Returns (setup : Setup) (schedule : Schedule) (habit : Call → Operation → Prop)
    (start : World) (right : World → Prop) : Prop where
  terminates : Acc (fun later w => Step setup schedule habit w later) start
  goesOn : ∀ w, Relation.ReflTransGen (Step setup schedule habit) start w →
    w.Over habit ∨ ∃ later, Step setup schedule habit w later
  right : ∀ w, Relation.ReflTransGen (Step setup schedule habit) start w →
    w.Over habit → right w

theorem Returns.mono {start : World} {right right' : World → Prop}
    (h : Returns setup schedule habit start right) (hright : ∀ w, right w → right' w) :
    Returns setup schedule habit start right' where
  terminates := h.terminates
  goesOn := h.goesOn
  right w hrun hover := hright w (h.right w hrun hover)

/-- The same for a world that may get stuck in a way that is foreseen. -/
structure ReturnsUnless (setup : Setup) (schedule : Schedule) (habit : Call → Operation → Prop)
    (start : World) (stuck right : World → Prop) : Prop where
  terminates : Acc (fun later w => Step setup schedule habit w later) start
  goesOn : ∀ w, Relation.ReflTransGen (Step setup schedule habit) start w →
    w.Over habit ∨ (∃ later, Step setup schedule habit w later) ∨ stuck w
  right : ∀ w, Relation.ReflTransGen (Step setup schedule habit) start w →
    w.Over habit → right w

theorem ReturnsUnless.mono {start : World} {stuck stuck' right right' : World → Prop}
    (h : ReturnsUnless setup schedule habit start stuck right)
    (hstuck : ∀ w, stuck w → stuck' w) (hright : ∀ w, right w → right' w) :
    ReturnsUnless setup schedule habit start stuck' right' where
  terminates := h.terminates
  goesOn w hrun := (h.goesOn w hrun).imp_right (Or.imp_right (hstuck w))
  right w hrun hover := hright w (h.right w hrun hover)

theorem ReturnsUnless.returns {start : World} {stuck right : World → Prop}
    (h : ReturnsUnless setup schedule habit start stuck right) (hstuck : ∀ w, ¬ stuck w) :
    Returns setup schedule habit start right where
  terminates := h.terminates
  goesOn w hrun := (h.goesOn w hrun).imp_right fun hlater => hlater.resolve_right (hstuck w)
  right := h.right

-- An invariant that goes with a decreasing number gives all three.
theorem returnsUnless_of_invariant {start : World} {stuck right : World → Prop}
    (invariant : World → Prop) (number : World → Nat) (hstart : invariant start)
    (hstep : ∀ w w', invariant w → Step setup schedule habit w w' → invariant w')
    (hless : ∀ w w', invariant w → Step setup schedule habit w w' → number w' < number w)
    (hgoesOn : ∀ w, invariant w →
      w.Over habit ∨ (∃ later, Step setup schedule habit w later) ∨ stuck w)
    (hright : ∀ w, invariant w → w.Over habit → right w) :
    ReturnsUnless setup schedule habit start stuck right := by
  -- The invariant holds in every reachable world, so all that is to be shown is shown under it.
  have hreach : ∀ w, Relation.ReflTransGen (Step setup schedule habit) start w → invariant w := by
    intro w hrun
    induction hrun with
    | refl => exact hstart
    | tail _ hlast ih => exact hstep _ _ ih hlast
  -- The induction is on a bound of the number, since the worlds that follow are not smaller in
  -- any other sense.
  have hacc : ∀ bound w, invariant w → number w < bound →
      Acc (fun later w => Step setup schedule habit w later) w := by
    intro bound
    induction bound with
    | zero => exact fun w _ hbound => absurd hbound (Nat.not_lt_zero _)
    | succ bound ih =>
      intro w hw hbound
      constructor
      intro w' hw'
      have hnumber := hless w w' hw hw'
      exact ih w' (hstep w w' hw hw') (by omega)
  exact
    { terminates := hacc _ start hstart (Nat.lt_succ_self _)
      goesOn := fun w hrun => hgoesOn w (hreach w hrun)
      right := fun w hrun => hright w (hreach w hrun) }

theorem returns_of_invariant {start : World} {right : World → Prop} (invariant : World → Prop)
    (number : World → Nat) (hstart : invariant start)
    (hstep : ∀ w w', invariant w → Step setup schedule habit w w' → invariant w')
    (hless : ∀ w w', invariant w → Step setup schedule habit w w' → number w' < number w)
    (hgoesOn : ∀ w, invariant w → w.Over habit ∨ ∃ later, Step setup schedule habit w later)
    (hright : ∀ w, invariant w → w.Over habit → right w) :
    Returns setup schedule habit start right :=
  have hunless : ReturnsUnless setup schedule habit start (fun _ => False) right :=
    returnsUnless_of_invariant invariant number hstart hstep hless
      (fun w hw => (hgoesOn w hw).imp_right .inl) hright
  hunless.returns fun _ => id

/-! ## Steps of a world with one operation under way -/

/-- The steps of a world in the terms of the activity that takes its turn. -/
inductive Turns (setup : Setup) (schedule : Schedule) (habit : Call → Operation → Prop)
    (c : Cursor) (call : Call) (tasks : List Task) (answers : List Answer) (stop : Answer)
    (results : List Call) : World → Prop
  | call {turn : Turn Call} (hstep : call.step setup c = some turn) :
    Turns setup schedule habit c call tasks answers stop results
      ⟨⟨turn.cursor, [turn.next],
        tasks ++ List.replicate (turn.events.countP Event.schedules) .scheduled⟩,
        answers, stop, results⟩
  | task {before later : List Task} {task : Task} {turn : Turn Task}
    (hadmits : schedule.Admits setup ⟨c, [call], tasks⟩) (htasks : tasks = before ++ task :: later)
    (hstep : task.step setup c = some turn) :
    Turns setup schedule habit c call tasks answers stop results
      ⟨.after turn.cursor [call] (before ++ turn.next :: later) turn.events, answers, stop, results⟩
  | answerCall {a : Answer} {rest : List Answer} (hawaits : call.awaits? = some .more)
    (hanswers : answers = a :: rest) :
    Turns setup schedule habit c call tasks answers stop results
      ⟨⟨c, [call.answer a], tasks⟩, rest, stop, results⟩
  | answerTask {before later : List Task} {task : Task} {kind : Query.Kind} {a : Answer}
    {rest : List Answer} (htasks : tasks = before ++ task :: later)
    (hawaits : task.awaits? = some kind) (hanswers : answers = a :: rest) :
    Turns setup schedule habit c call tasks answers stop results
      ⟨⟨c, [call], before ++ task.answer a :: later⟩, rest, stop, results⟩
  | stopped (hawaits : call.awaits? = some .stop) :
    Turns setup schedule habit c call tasks answers stop results
      ⟨⟨c, [call.answer stop], tasks⟩, answers, stop, results⟩
  | again {op : Operation} (hdone : call.isDone = true) (hhabit : habit call op) :
    Turns setup schedule habit c call tasks answers stop results
      ⟨⟨c, [op.begin], tasks⟩, answers, stop, results ++ [call]⟩

theorem eq_of_answerCall {c : Cursor} {call : Call} {tasks : List Task} {a : Answer} {s : System}
    {happenings : List Happening}
    (h : System.move? setup ⟨c, [call], tasks⟩ (.answerCall 0 a) = some (s, happenings)) :
    s = ⟨c, [call.answer a], tasks⟩ := by
  obtain ⟨before, call', later, kind, hcalls, hlength, -, -, rfl⟩ := System.move?_answerCall h
  rw [List.length_eq_zero_iff.mp hlength] at hcalls ⊢
  cases hcalls
  rfl

theorem turns_of_step {c : Cursor} {call : Call} {tasks : List Task} {answers : List Answer}
    {stop : Answer} {results : List Call}
    (h : Step setup schedule habit ⟨⟨c, [call], tasks⟩, answers, stop, results⟩ w') :
    Turns setup schedule habit c call tasks answers stop results w' := by
  cases h with
  | call hmove =>
    obtain ⟨before, call', later, turn, hcalls, hlength, hstep, -, rfl⟩ := System.move?_call hmove
    rw [List.length_eq_zero_iff.mp hlength] at hcalls ⊢
    cases hcalls
    rw [List.nil_append, System.after_of_step hstep]
    exact .call hstep
  | task place hadmits hmove =>
    obtain ⟨before, task, later, turn, htasks, -, hstep, -, rfl⟩ := System.move?_task hmove
    exact .task hadmits htasks hstep
  | answerCall hcalls hawaits hanswers hmove =>
    cases hcalls
    cases eq_of_answerCall hmove
    exact .answerCall hawaits hanswers
  | answerTask place hanswers hmove =>
    obtain ⟨before, task, later, kind, htasks, -, hawaits, -, rfl⟩ := System.move?_answerTask hmove
    exact .answerTask htasks hawaits hanswers
  | stopped hcalls hawaits hmove =>
    cases hcalls
    cases eq_of_answerCall hmove
    exact .stopped hawaits
  | again hcalls hdone hhabit =>
    cases hcalls
    exact .again hdone hhabit

/-! ## Ways to go on -/

section

variable {c : Cursor} {call : Call} {tasks : List Task} {answers : List Answer} {stop : Answer}
  {results : List Call}

theorem goesOn_call {turn : Turn Call} (h : call.step setup c = some turn) :
    ∃ later, Step setup schedule habit ⟨⟨c, [call], tasks⟩, answers, stop, results⟩ later := by
  have hmove : System.move? setup ⟨c, [call], tasks⟩ (.call 0) =
      some (System.heedAll ⟨turn.cursor, [turn.next], tasks⟩ turn.events) := by
    simp [System.move?, h]
  exact ⟨_, .call hmove⟩

theorem goesOn_task {task : Task} {turn : Turn Task} (hmem : task ∈ tasks)
    (hadmits : schedule.Admits setup ⟨c, [call], tasks⟩) (h : task.step setup c = some turn) :
    ∃ later, Step setup schedule habit ⟨⟨c, [call], tasks⟩, answers, stop, results⟩ later := by
  obtain ⟨place, hplace⟩ := List.getElem?_of_mem hmem
  have hmove : System.move? setup ⟨c, [call], tasks⟩ (.task place) =
      some (System.heedAll ⟨turn.cursor, [call], tasks.set place turn.next⟩ turn.events) := by
    simp [System.move?, hplace, h]
  exact ⟨_, .task place hadmits hmove⟩

theorem goesOn_answerCall (ha : answers ≠ []) (h : call.awaits? = some .more) :
    ∃ later, Step setup schedule habit ⟨⟨c, [call], tasks⟩, answers, stop, results⟩ later := by
  obtain ⟨a, rest, rfl⟩ := List.exists_cons_of_ne_nil ha
  have hmove : System.move? setup ⟨c, [call], tasks⟩ (.answerCall 0 a) =
      some (⟨c, [call.answer a], tasks⟩, [.answered .more a]) := by
    simp [System.move?, h]
  exact ⟨_, .answerCall rfl h rfl hmove⟩

theorem goesOn_answerTask {task : Task} {kind : Query.Kind} (ha : answers ≠ [])
    (hmem : task ∈ tasks) (h : task.awaits? = some kind) :
    ∃ later, Step setup schedule habit ⟨⟨c, [call], tasks⟩, answers, stop, results⟩ later := by
  obtain ⟨a, rest, rfl⟩ := List.exists_cons_of_ne_nil ha
  obtain ⟨place, hplace⟩ := List.getElem?_of_mem hmem
  have hmove : System.move? setup ⟨c, [call], tasks⟩ (.answerTask place a) =
      some (⟨c, [call], tasks.set place (task.answer a)⟩, [.answered kind a]) := by
    simp [System.move?, hplace, h]
  exact ⟨_, .answerTask place rfl hmove⟩

theorem goesOn_stopped (h : call.awaits? = some .stop) :
    ∃ later, Step setup schedule habit ⟨⟨c, [call], tasks⟩, answers, stop, results⟩ later := by
  have hmove : System.move? setup ⟨c, [call], tasks⟩ (.answerCall 0 stop) =
      some (⟨c, [call.answer stop], tasks⟩, [.answered .stop stop]) := by
    simp [System.move?, h]
  exact ⟨_, .stopped rfl h hmove⟩

end

end World
end RowStream
