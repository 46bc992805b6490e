import Mathlib.Data.List.Forall2
import RowStream.Proofs.Runs

/-!
# Closed cursors

An operation that begins on a closed cursor comes to its end without a row.  Apart from the gate it
leaves the cursor as it is, and it sends nothing to the connection.
-/

namespace RowStream

variable {setup : Setup} {s s' start : System} {stages : List Stage} {move : Move}
  {happenings : List Happening} {c : Cursor}

/-! ## 1. What happened in a run -/

/-- What happened in the stages of a run, one after another. -/
def happened (stages : List Stage) : List Happening := stages.flatMap Stage.happenings

theorem happened_concat (stages : List Stage) (stage : Stage) :
    happened (stages ++ [stage]) = happened stages ++ stage.happenings := by
  simp [happened]

theorem happened_append (stages later : List Stage) :
    happened (stages ++ later) = happened stages ++ happened later :=
  List.flatMap_append

/-- The operation that begins. -/
def Happening.begun? : Happening → Option Operation
  | began op => some op
  | _ => none

/-- The operation that the caller takes back. -/
def Happening.takenBack? : Happening → Option Call
  | collected call => some call
  | _ => none

/-- Whether a stop query goes out. -/
def Happening.stops : Happening → Bool
  | event (.sent .stop) => true
  | _ => false

/-- The answer to a stop query. -/
def Happening.stopped? : Happening → Option Answer
  | answered .stop a => some a
  | _ => none

/-- What is told when the connection is given back. -/
def Happening.released? : Happening → Option (Option Error)
  | event (.released stopError) => some stopError
  | _ => none

/-- The operations that have been begun. -/
def begun (stages : List Stage) : List Operation := (happened stages).filterMap Happening.begun?

/-- The operations that have been taken back. -/
def takenBack (stages : List Stage) : List Call :=
  (happened stages).filterMap Happening.takenBack?

/-- How many stop queries have been sent. -/
def stops (stages : List Stage) : Nat := (happened stages).countP Happening.stops

/-- The answers to stop queries. -/
def stopAnswers (stages : List Stage) : List Answer :=
  (happened stages).filterMap Happening.stopped?

/-- What has been told when the connection was given back. -/
def released (stages : List Stage) : List (Option Error) :=
  (happened stages).filterMap Happening.released?

theorem takenBack_concat (stages : List Stage) (stage : Stage) :
    takenBack (stages ++ [stage]) =
      takenBack stages ++ stage.happenings.filterMap Happening.takenBack? := by
  rw [takenBack, happened_concat, List.filterMap_append]
  rfl

theorem begun_concat (stages : List Stage) (stage : Stage) :
    begun (stages ++ [stage]) = begun stages ++ stage.happenings.filterMap Happening.begun? := by
  rw [begun, happened_concat, List.filterMap_append]
  rfl

/-- Whether something is part of closing a cursor. -/
def Happening.ofClosing (h : Happening) : Bool :=
  h.stops || h.stopped?.isSome || h.released?.isSome

/-- Whether a stage begins an operation only if no other is under way. -/
def Stage.Sequential (stage : Stage) : Prop :=
  ∀ op, stage.move = .begin op → stage.before.calls = []

instance : DecidablePred Stage.Sequential
  | ⟨s, .begin op, _⟩ =>
    decidable_of_iff (s.calls.isEmpty = true)
      ⟨fun hidle _ _ => List.isEmpty_iff.mp hidle, fun h => List.isEmpty_iff.mpr (h op rfl)⟩
  | ⟨_, .call _, _⟩ | ⟨_, .answerCall .., _⟩ | ⟨_, .collect _, _⟩ | ⟨_, .task _, _⟩
  | ⟨_, .answerTask .., _⟩ => isTrue nofun

/-! ## 2. A closed cursor stays closed -/

theorem Call.Steps.closed {call : Call} {turn : Turn Call} (h : Steps setup c call turn)
    (hclosed : c.closed = true) : turn.cursor.closed = true := by
  cases h with
  | judges _ _ hcursor => rw [hcursor, hclosed]
  | advances hstep _ _ hcursor =>
    rw [hcursor]
    rcases hstep.closed_eq with hsame | ⟨-, hmarked⟩
    · rw [hsame, hclosed]
    · exact hmarked
  | closes hstep _ _ hcursor =>
    rw [hcursor]
    cases hstep with
    | marks => rfl
    | again | tells | stops | releases => exact hclosed
  | fetches hstep _ _ hcursor => rw [hcursor, hstep.closed_eq, hclosed]

theorem Task.Steps.closed_eq {task : Task} {turn : Turn Task} (h : Steps setup c task turn) :
    turn.cursor.closed = c.closed := by
  cases h with
  | fetches hstep => exact hstep.closed_eq
  | notices | reports | tells => rfl

theorem System.closed_of_move (hmove : s.move? setup move = some (s', happenings))
    (hclosed : s.cursor.closed = true) : s'.cursor.closed = true := by
  cases move with
  | begin op => cases hmove; exact hclosed
  | call place =>
    obtain ⟨before, call, later, turn, hcalls, rfl, hstep, rfl, rfl⟩ := move?_call hmove
    exact (Call.steps_of_step hstep).closed hclosed
  | answerCall place a =>
    obtain ⟨before, call, later, kind, hcalls, rfl, hawaits, rfl, rfl⟩ := move?_answerCall hmove
    exact hclosed
  | collect place =>
    obtain ⟨before, call, later, hcalls, rfl, hended, rfl, rfl⟩ := move?_collect hmove
    exact hclosed
  | task place =>
    obtain ⟨before, task, later, turn, htasks, rfl, hstep, rfl, rfl⟩ := move?_task hmove
    exact (Task.steps_of_step hstep).closed_eq.trans hclosed
  | answerTask place a =>
    obtain ⟨before, task, later, kind, htasks, rfl, hawaits, rfl, rfl⟩ := move?_answerTask hmove
    exact hclosed

theorem Run.closed (hrun : Run setup start stages s) (hclosed : start.cursor.closed = true) :
    s.cursor.closed = true ∧ ∀ stage ∈ stages, stage.before.cursor.closed = true := by
  induction hrun with
  | nil => exact ⟨hclosed, fun _ h => absurd h List.not_mem_nil⟩
  | @snoc stages s s' move happenings _ hmove ih =>
    obtain ⟨hlast, hbefore⟩ := ih
    refine ⟨System.closed_of_move hmove hlast, fun stage hstage => ?_⟩
    rcases List.mem_append.mp hstage with hstage | hstage
    · exact hbefore stage hstage
    · rw [List.mem_singleton.mp hstage]
      exact hlast

/-! ## 3. Operations on a closed cursor -/

/-- Whether a cursor is like another one apart from the gate and from who is told of its closing. -/
structure Cursor.Keeps (c c' : Cursor) : Prop where
  rows : c'.rows = c.rows
  batches : c'.batches = c.batches
  finished : c'.finished = c.finished
  error? : c'.error? = c.error?
  profile : c'.profile = c.profile
  closed : c'.closed = c.closed

theorem Cursor.Keeps.refl (c : Cursor) : c.Keeps c := ⟨rfl, rfl, rfl, rfl, rfl, rfl⟩

namespace Operation

/-- How an operation that has begun on a closed cursor ends. -/
inductive EndsQuietly : Operation → Call → Prop
  /-- An advance finds no row and leaves its destination alone. -/
  | next {t : Target} (slot : t.Slot) : EndsQuietly (.next slot) (.next ⟨slot, .done false⟩)
  | one {t : Target} (slot : t.Slot) (e : Error) :
    EndsQuietly (.one slot) (.one (.done slot (.error e)))
  | all {t : Target} (initial : List t.Slot) (result : Except Error Unit) :
    EndsQuietly (.all initial) (.all (t := t) (.done [] result))
  | item (t : Target) (ended : Bool) (error? : Option Error) :
    EndsQuietly (.item t ended) (.item (t := t) (.done (error?.map .error)))
  | close : EndsQuietly .close (.close (.done none))
  | extend (reply : Reply) : EndsQuietly (.extend reply) (.extend (.done (.ok true)))

/-- How far an operation can have come on a closed cursor. -/
inductive Quiet : Operation → Call → Prop
  | next {t : Target} (slot : t.Slot) : Quiet (.next slot) (.next (.start slot))
  | oneLooks {t : Target} (slot : t.Slot) : Quiet (.one slot) (.one (.look slot))
  | oneAdvances {t : Target} (slot : t.Slot) : Quiet (.one slot) (.one (.advancing (.start slot)))
  | oneJudges {t : Target} (slot : t.Slot) : Quiet (.one slot) (.one (.judge slot false))
  | oneCloses {t : Target} (slot : t.Slot) (verdict : Verdict) (hfails : verdict ≠ .success) :
    Quiet (.one slot) (.one (.closing slot verdict .mark))
  | allAdvances {t : Target} (initial spare : List t.Slot) (slot : t.Slot) :
    Quiet (.all initial) (.all (.advancing [] spare (.start slot)))
  | allJudges {t : Target} (initial : List t.Slot) :
    Quiet (.all initial) (.all (t := t) (.judge []))
  | allCloses {t : Target} (initial : List t.Slot) (verdict : Verdict) :
    Quiet (.all initial) (.all (t := t) (.closing [] verdict .mark))
  | itemAdvances (t : Target) (ended : Bool) :
    Quiet (.item t ended) (.item (t := t) (.advancing (.start t.blank)))
  | itemJudges (t : Target) (ended : Bool) : Quiet (.item t ended) (.item (t := t) .judge)
  | closeMarks : Quiet .close (.close .mark)
  | extendAdds (reply : Reply) : Quiet (.extend reply) (.extend (.fold (.ok reply)))
  | extendTells (reply : Reply) : Quiet (.extend reply) (.extend (.wake (.ok true) false))
  | ended {op : Operation} {call : Call} (h : op.EndsQuietly call) : Quiet op call

theorem quiet_begin (op : Operation) : op.Quiet op.begin := by
  cases op with
  | next slot => exact .next slot
  | one slot => exact .oneLooks slot
  | all initial => cases initial <;> exact .allAdvances _ _ _
  | item t ended =>
    cases ended with
    | true => exact .ended (.item t true none)
    | false => exact .itemAdvances t false
  | close => exact .closeMarks
  | extend reply => exact .extendAdds reply

namespace Quiet

variable {op : Operation} {call : Call}

theorem wake (h : op.Quiet call) : call.wake = call := by
  cases h with
  | ended h => cases h <;> rfl
  | _ => rfl

theorem awaits? (h : op.Quiet call) : call.awaits? = none := by
  cases h with
  | ended h => cases h <;> rfl
  | _ => rfl

-- An operation that can be taken back has ended, since nothing was there to break it off.
theorem ends (h : op.Quiet call) (hended : (call.isDone || call.isAborted) = true) :
    op.EndsQuietly call := by
  cases h with
  | ended h => exact h
  | _ => cases hended

/-- A turn of an operation on a closed cursor. -/
structure Turns (c : Cursor) (op : Operation) (turn : Turn Call) : Prop where
  next : op.Quiet turn.next
  keeps : c.Keeps turn.cursor
  events : ∀ event ∈ turn.events, event = .notified

theorem step {turn : Turn Call} (h : op.Quiet call) (hclosed : c.closed = true)
    (hstep : call.step setup c = some turn) : Turns c op turn := by
  -- Most turns leave the whole cursor as it is and cause nothing.
  have still {next : Call} (hnext : op.Quiet next) : Turns c op ⟨c, next, []⟩ :=
    ⟨hnext, .refl c, fun _ hevent => absurd hevent List.not_mem_nil⟩
  have hadvance {t : Target} (slot : t.Slot) :
      (Next.start slot).step setup c = some ⟨c, ⟨slot, .done false⟩, []⟩ := by
    simp only [Next.step, Next.start, hclosed, reduceIte]
  have hclose : Close.mark.step c = some ⟨c, .done none, []⟩ := by
    simp only [Close.step, hclosed, reduceIte]
  cases h with
  | next slot =>
    simp only [Call.step, hadvance] at hstep
    cases hstep
    exact still (.ended (.next slot))
  | oneLooks slot =>
    simp only [Call.step, One.step] at hstep
    cases hstep
    refine still ?_
    cases c.isNil with
    | true => exact .oneCloses slot _ (by simp)
    | false => exact .oneAdvances slot
  | oneAdvances slot =>
    simp only [Call.step, One.step, hadvance] at hstep
    cases hstep
    exact still (.oneJudges slot)
  | oneJudges slot =>
    simp only [Call.step, One.step] at hstep
    cases hstep
    refine still (.oneCloses slot _ ?_)
    cases c.error? <;> simp
  | oneCloses slot verdict hfails =>
    simp only [Call.step, One.step, hclose] at hstep
    cases hstep
    cases verdict with
    | failure e => exact still (.ended (.one slot e))
    | noRow => exact still (.ended (.one slot .emptyResult))
    | success => exact absurd rfl hfails
  | allAdvances initial spare slot =>
    simp only [Call.step, All.step, hadvance] at hstep
    cases hstep
    exact still (.allJudges initial)
  | allJudges initial =>
    simp only [Call.step, All.step] at hstep
    cases hstep
    exact still (.allCloses initial _)
  | allCloses initial verdict =>
    simp only [Call.step, All.step, hclose] at hstep
    cases hstep
    exact still (.ended (.all initial _))
  | itemAdvances t ended =>
    simp only [Call.step, NextItem.step, hadvance] at hstep
    cases hstep
    exact still (.itemJudges t ended)
  | itemJudges t ended =>
    cases hstep
    exact still (.ended (.item t ended c.error?))
  | closeMarks =>
    simp only [Call.step, hclose] at hstep
    cases hstep
    exact still (.ended .close)
  | extendAdds reply =>
    -- The reply is ignored; only the gate is opened.
    cases hstep
    have hkept : c.accept reply = c := Cursor.accept_of_closed hclosed
    have hlow : c.openGate.runsLow = false := by
      simp [Cursor.runsLow, hclosed]
    simp only [Turn.map, hkept, hlow]
    exact ⟨.extendTells reply, ⟨rfl, rfl, rfl, rfl, rfl, rfl⟩, fun _ hevent =>
      absurd hevent List.not_mem_nil⟩
  | extendTells reply =>
    cases hstep
    exact ⟨.ended (.extend reply), .refl c, fun _ => List.mem_singleton.mp⟩
  | ended h => cases h <;> cases hstep

end Quiet
end Operation

/-! ## 4. Runs of a closed system -/

namespace System

/-- Whether the cursor is closed and all operations under way have begun after that. -/
structure Quiet (s : System) : Prop where
  closed : s.cursor.closed = true
  calls : ∀ call ∈ s.calls, ∃ op : Operation, op.Quiet call

/-- The moves of a quiet system. -/
inductive QuietMoves (s : System) (move : Move) (s' : System) (happenings : List Happening) : Prop
  | begins (op : Operation) (hcalls : s'.calls = op.begin :: s.calls)
    (hmove : move = .begin op) (hhappenings : happenings = [.began op])
  | turns {before later : List Call} {call next : Call} (hcalls : s.calls = before ++ call :: later)
    (hcalls' : s'.calls = before ++ next :: later)
    (hnext : ∀ op : Operation, op.Quiet call → op.Quiet next)
    (hkeeps : s.cursor.Keeps s'.cursor) (hhappenings : ∀ h ∈ happenings, h = .event .notified)
  | ends {before later : List Call} {call : Call} (hcalls : s.calls = before ++ call :: later)
    (hcalls' : s'.calls = before ++ later)
    (hends : ∀ op : Operation, op.Quiet call → op.EndsQuietly call)
    (hhappenings : happenings = [.collected call])
  | others (hcalls : s'.calls = s.calls) (hmove : ∀ place, move ≠ .call place)
    (hbegun : happenings.filterMap Happening.begun? = [])
    (htaken : happenings.filterMap Happening.takenBack? = [])
    (hclosing : ∀ h ∈ happenings, h.ofClosing = false)

-- The events of a turn are neither beginnings nor ends of operations.
theorem begun?_events (events : List Event) :
    (events.map Happening.event).filterMap Happening.begun? = [] ∧
      (events.map Happening.event).filterMap Happening.takenBack? = [] := by
  constructor <;> exact List.filterMap_eq_nil_iff.mpr fun h hh => by
    obtain ⟨event, -, rfl⟩ := List.mem_map.mp hh
    rfl

theorem calls_after_of_quiet {calls : List Call} {tasks : List Task} {events : List Event}
    (h : ∀ call ∈ calls, ∃ op : Operation, op.Quiet call) :
    (after c calls tasks events).calls = calls := by
  unfold after
  split
  · have hwake : ∀ call ∈ calls, call.wake = id call := fun call hmem => by
      obtain ⟨op, hquiet⟩ := h call hmem
      exact hquiet.wake
    rw [List.map_congr_left hwake, List.map_id]
  · rfl

end System

theorem Task.Steps.ofClosing {task : Task} {turn : Turn Task} (h : Steps setup c task turn) :
    ∀ event ∈ turn.events, (Happening.event event).ofClosing = false := by
  cases h with
  | fetches hstep =>
    cases hstep with
    | looksAhead outcome =>
      simp only [Turn.map, Cursor.schedule]
      split <;> simp [Happening.ofClosing, Happening.stops, Happening.stopped?, Happening.released?]
    | _ => simp [Turn.map, Happening.ofClosing, Happening.stops, Happening.stopped?,
        Happening.released?]
  | notices => exact fun _ hevent => absurd hevent List.not_mem_nil
  | reports | tells =>
    simp [Happening.ofClosing, Happening.stops, Happening.stopped?, Happening.released?]

theorem Task.awaits?_eq_more {task : Task} {kind : Query.Kind} (h : task.awaits? = some kind) :
    kind = .more := by
  cases task with
  | running f => cases f <;> cases h; rfl
  | failed | wake | done => cases h

theorem System.Quiet.moves (h : s.Quiet) (hmove : s.move? setup move = some (s', happenings)) :
    s.QuietMoves move s' happenings := by
  cases move with
  | begin op => cases hmove; exact .begins op rfl rfl rfl
  | call place =>
    obtain ⟨before, call, later, turn, hcalls, rfl, hstep, rfl, rfl⟩ := move?_call hmove
    have hmem (other : Call) (hother : other ∈ before ++ later) : other ∈ s.calls := by
      rw [hcalls]
      exact (List.mem_append.mp hother).elim (List.mem_append_left _) fun hother =>
        List.mem_append_right _ (List.mem_cons_of_mem _ hother)
    obtain ⟨op, hquiet⟩ := h.calls call (hcalls ▸ List.mem_append_cons_self)
    have hturns := hquiet.step h.closed hstep
    have hcalls' : (after turn.cursor (before ++ turn.next :: later) s.tasks turn.events).calls =
        before ++ turn.next :: later := by
      refine calls_after_of_quiet fun other hother => ?_
      simp only [List.mem_append, List.mem_cons] at hother hmem
      rcases hother with hother | rfl | hother
      · exact h.calls other (hmem other (.inl hother))
      · exact ⟨op, hturns.next⟩
      · exact h.calls other (hmem other (.inr hother))
    refine .turns hcalls hcalls' (fun op hquiet => (hquiet.step h.closed hstep).next)
      hturns.keeps fun happening hhappening => ?_
    obtain ⟨event, hevent, rfl⟩ := List.mem_map.mp hhappening
    rw [hturns.events event hevent]
  | answerCall place a =>
    obtain ⟨before, call, later, kind, hcalls, rfl, hawaits, rfl, rfl⟩ := move?_answerCall hmove
    obtain ⟨op, hquiet⟩ := h.calls call (hcalls ▸ List.mem_append_cons_self)
    rw [hquiet.awaits?] at hawaits
    cases hawaits
  | collect place =>
    obtain ⟨before, call, later, hcalls, rfl, hended, rfl, rfl⟩ := move?_collect hmove
    exact .ends hcalls rfl (fun op hquiet => hquiet.ends hended) rfl
  | task place =>
    obtain ⟨before, task, later, turn, htasks, rfl, hstep, rfl, rfl⟩ := move?_task hmove
    obtain ⟨hbegun, htaken⟩ := begun?_events turn.events
    refine .others (calls_after_of_quiet h.calls) nofun hbegun htaken fun happening hh => ?_
    obtain ⟨event, hevent, rfl⟩ := List.mem_map.mp hh
    exact (Task.steps_of_step hstep).ofClosing event hevent
  | answerTask place a =>
    obtain ⟨before, task, later, kind, htasks, rfl, hawaits, rfl, rfl⟩ := move?_answerTask hmove
    rw [Task.awaits?_eq_more hawaits]
    exact .others rfl nofun rfl rfl fun happening hh => by rw [List.mem_singleton.mp hh]; rfl

theorem System.Quiet.step (h : s.Quiet) (hmove : s.move? setup move = some (s', happenings)) :
    s'.Quiet := by
  refine ⟨closed_of_move hmove h.closed, ?_⟩
  have hold := h.calls
  cases h.moves hmove with
  | begins op hcalls =>
    rw [hcalls]
    rintro call (_ | ⟨_, hmem⟩)
    · exact ⟨op, op.quiet_begin⟩
    · exact hold call hmem
  | turns hcalls hcalls' hnext =>
    rw [hcalls] at hold
    rw [hcalls']
    simp only [List.mem_append, List.mem_cons] at hold ⊢
    rintro call (hmem | rfl | hmem)
    · exact hold call (.inl hmem)
    · obtain ⟨op, hquiet⟩ := hold _ (.inr (.inl rfl))
      exact ⟨op, hnext op hquiet⟩
    · exact hold call (.inr (.inr hmem))
  | ends hcalls hcalls' =>
    rw [hcalls] at hold
    rw [hcalls']
    simp only [List.mem_append, List.mem_cons] at hold ⊢
    exact fun call hmem => hold call (hmem.imp_right .inr)
  | others hcalls => rw [hcalls]; exact hold

namespace Run

-- Nothing is stopped or given back any more, and every operation ends without a row.
theorem quiet (hrun : Run setup start stages s) (hclosed : start.cursor.closed = true)
    (hidle : start.calls = []) :
    s.Quiet ∧ (∀ stage ∈ stages, stage.before.Quiet) ∧
      (∀ h ∈ happened stages, h.ofClosing = false) ∧
      ∀ call ∈ takenBack stages, ∃ op : Operation, op.EndsQuietly call := by
  induction hrun with
  | nil =>
    have hstart : start.Quiet := ⟨hclosed, fun call hmem => by rw [hidle] at hmem; cases hmem⟩
    exact ⟨hstart, fun _ h => absurd h List.not_mem_nil, fun _ h => absurd h List.not_mem_nil,
      fun _ h => absurd h List.not_mem_nil⟩
  | @snoc stages s s' move happenings hrun hmove ih =>
    obtain ⟨hquiet, hbefore, hclosing, htaken⟩ := ih
    refine ⟨hquiet.step hmove, ?_, ?_, ?_⟩
    · simp only [List.mem_append, List.mem_singleton]
      rintro stage (hmem | rfl)
      · exact hbefore stage hmem
      · exact hquiet
    · rw [happened_concat]
      simp only [List.mem_append]
      rintro h (hmem | hmem)
      · exact hclosing h hmem
      · cases hquiet.moves hmove with
        | begins _ _ _ hhappenings | ends _ _ _ hhappenings =>
          rw [hhappenings] at hmem
          rw [List.mem_singleton.mp hmem]
          rfl
        | turns _ _ _ _ hhappenings => rw [hhappenings h hmem]; rfl
        | others _ _ _ _ hothers => exact hothers h hmem
    · rw [takenBack_concat]
      simp only [List.mem_append]
      rintro call (hmem | hmem)
      · exact htaken call hmem
      · cases hquiet.moves hmove with
        | begins _ _ _ hhappenings => rw [hhappenings] at hmem; cases hmem
        | turns _ _ _ _ hhappenings =>
          obtain ⟨h, hh, hcall⟩ := List.mem_filterMap.mp hmem
          rw [hhappenings h hh] at hcall
          cases hcall
        | ends hcalls _ hends hhappenings =>
          rw [hhappenings] at hmem
          cases List.mem_singleton.mp hmem
          obtain ⟨op, hop⟩ := hquiet.calls _ (hcalls ▸ List.mem_append_cons_self)
          exact ⟨op, hends op hop⟩
        | others _ _ _ hnone => rw [hnone] at hmem; cases hmem

-- One after another, the operations end in the order in which they have begun.
theorem quiet_results (hrun : Run setup start stages s) (hclosed : start.cursor.closed = true)
    (hidle : start.calls = []) (hturns : ∀ stage ∈ stages, stage.Sequential) :
    ∃ ended underway, begun stages = ended ++ underway ∧ s.calls.length ≤ 1 ∧
      List.Forall₂ Operation.EndsQuietly ended (takenBack stages) ∧
      List.Forall₂ Operation.Quiet underway s.calls := by
  induction hrun with
  | nil => exact ⟨[], [], rfl, by rw [hidle]; exact Nat.zero_le 1, .nil, by rw [hidle]; exact .nil⟩
  | @snoc stages s s' move happenings hrun hmove ih =>
    simp only [List.mem_append, List.mem_singleton] at hturns
    obtain ⟨ended, underway, hbegun, hlength, hended, hunderway⟩ :=
      ih fun stage hstage => hturns stage (.inl hstage)
    have hturn : Stage.Sequential ⟨s, move, happenings⟩ := hturns _ (.inr rfl)
    have hbegun' : begun (stages ++ [⟨s, move, happenings⟩]) =
        ended ++ underway ++ happenings.filterMap Happening.begun? := by
      rw [← hbegun, begun_concat]
    have htaken' : takenBack (stages ++ [⟨s, move, happenings⟩]) =
        takenBack stages ++ happenings.filterMap Happening.takenBack? := takenBack_concat ..
    rw [hbegun', htaken']
    -- With one operation under way at most, it is the one that takes its turn or ends.
    have alone {before later : List Call} {call : Call}
        (hcalls : s.calls = before ++ call :: later) : before = [] ∧ later = [] :=
      System.alone_of_length_le hlength hcalls
    cases (hrun.quiet hclosed hidle).1.moves hmove with
    | begins op hcalls hbegins hhappenings =>
      have hnone : s.calls = [] := hturn op hbegins
      rw [hnone] at hunderway hcalls
      cases hunderway
      rw [hhappenings, hcalls]
      have hnone' : [Happening.began op].filterMap Happening.takenBack? = [] := rfl
      rw [hnone', List.append_nil, List.append_nil]
      exact ⟨ended, [op], rfl, Nat.le_refl 1, hended, .cons op.quiet_begin .nil⟩
    | turns hcalls hcalls' hnext _ hhappenings =>
      obtain ⟨rfl, rfl⟩ := alone hcalls
      rw [hcalls] at hunderway
      obtain ⟨op, rfl⟩ := List.length_eq_one_iff.mp hunderway.length_eq
      have hnone : happenings.filterMap Happening.begun? = [] ∧
          happenings.filterMap Happening.takenBack? = [] := by
        constructor <;> exact List.filterMap_eq_nil_iff.mpr fun h hh => by
          rw [hhappenings h hh]
          rfl
      rw [hnone.1, hnone.2, hcalls', List.append_nil, List.append_nil]
      exact ⟨ended, [op], rfl, Nat.le_refl 1, hended,
        .cons (hnext op (List.forall₂_cons.mp hunderway).1) .nil⟩
    | ends hcalls hcalls' hends hhappenings =>
      obtain ⟨rfl, rfl⟩ := alone hcalls
      rw [hcalls] at hunderway
      obtain ⟨op, rfl⟩ := List.length_eq_one_iff.mp hunderway.length_eq
      rw [hhappenings, hcalls']
      exact ⟨ended ++ [op], [], rfl, Nat.zero_le 1,
        List.rel_append hended (.cons (hends op (List.forall₂_cons.mp hunderway).1) .nil), .nil⟩
    | others hcalls _ hnone hnone' =>
      rw [hnone, hnone', hcalls, List.append_nil, List.append_nil]
      exact ⟨ended, underway, rfl, hlength, hended, hunderway⟩

end Run
end RowStream
