import RowStream.Proofs.Moves

/-!
# Runs and their histories

A run is a list of stages, each a state of the system and the move made in it.  The history of a
run says which replies the cursor has accepted and which rows have been handed out.
-/

namespace RowStream

/-! ## 1. Runs -/

/-- A move, with the system before it and what happens in it. -/
structure Stage where
  before : System
  move : Move
  happenings : List Happening

/-- The runs from a system, stage after stage. -/
inductive Run (setup : Setup) (start : System) : List Stage → System → Prop
  | nil : Run setup start [] start
  | snoc {stages : List Stage} {s s' : System} {move : Move} {happenings : List Happening}
    (hrun : Run setup start stages s) (hmove : s.move? setup move = some (s', happenings)) :
    Run setup start (stages ++ [⟨s, move, happenings⟩]) s'

-- Moves are added at the end of a run, while `run?` takes them from the front.
theorem System.run?_concat {setup : Setup} {start s s' : System} {moves : List Move} {move : Move}
    {first last : List Happening} (hrun : start.run? setup moves = some (s, first))
    (hmove : s.move? setup move = some (s', last)) :
    start.run? setup (moves ++ [move]) = some (s', first ++ last) := by
  induction moves generalizing start first with
  | nil =>
    cases hrun
    simp [run?, hmove]
  | cons m moves ih =>
    simp only [run?, Option.bind_eq_bind, Option.bind_eq_some_iff, Prod.exists] at hrun
    obtain ⟨s₁, happened, hm, s₂, later, hrest, h⟩ := hrun
    cases h
    simp [run?, hm, ih hrest]

/-- The stages that moves go through, if every move is possible. -/
def System.stages? (setup : Setup) (s : System) : List Move → Option (List Stage × System)
  | [] => some ([], s)
  | move :: moves => do
    let (s', happenings) ← s.move? setup move
    let (stages, last) ← s'.stages? setup moves
    return (⟨s, move, happenings⟩ :: stages, last)

namespace Run

variable {setup : Setup} {start s s' : System} {stages : List Stage}

-- Stages can be added at the front as well.
theorem cons {move : Move} {happenings : List Happening}
    (hmove : start.move? setup move = some (s, happenings)) (hrun : Run setup s stages s') :
    Run setup start (⟨start, move, happenings⟩ :: stages) s' := by
  induction hrun with
  | nil => exact snoc nil hmove
  | snoc _ hlast ih => exact snoc ih hlast

theorem append {later : List Stage} (hrun : Run setup start stages s)
    (hlater : Run setup s later s') : Run setup start (stages ++ later) s' := by
  induction hlater with
  | nil => rwa [List.append_nil]
  | snoc _ hmove ih => rw [← List.append_assoc]; exact ih.snoc hmove

theorem of_stages? {moves : List Move} (h : start.stages? setup moves = some (stages, s)) :
    Run setup start stages s := by
  induction moves generalizing start stages with
  | nil =>
    cases h
    exact nil
  | cons move moves ih =>
    simp only [System.stages?, Option.bind_eq_bind, Option.bind_eq_some_iff, Prod.exists] at h
    obtain ⟨s₁, happenings, hmove, later, last, hlater, h⟩ := h
    cases h
    exact (ih hlater).cons hmove

-- The moves of a run are possible one after another, and every possible list of moves is a run.
theorem run?_eq_some_iff {moves : List Move} {happenings : List Happening} :
    start.run? setup moves = some (s, happenings) ↔
      ∃ stages, Run setup start stages s ∧ stages.map Stage.move = moves ∧
        stages.flatMap Stage.happenings = happenings := by
  constructor
  · intro h
    induction moves generalizing start happenings with
    | nil =>
      cases h
      exact ⟨[], nil, rfl, rfl⟩
    | cons move moves ih =>
      simp only [System.run?, Option.bind_eq_bind, Option.bind_eq_some_iff, Prod.exists] at h
      obtain ⟨s₁, first, hmove, s₂, later, hrun, h⟩ := h
      cases h
      obtain ⟨stages, hstages, rfl, rfl⟩ := ih hrun
      exact ⟨_, hstages.cons hmove, rfl, rfl⟩
  · rintro ⟨stages, hrun, rfl, rfl⟩
    induction hrun with
    | nil => rfl
    | snoc hrun hmove ih =>
      have hnext := System.run?_concat ih hmove
      simpa only [List.map_append, List.flatMap_append, List.map_singleton, List.flatMap_singleton]
        using hnext

-- What holds at the start and is preserved by every stage of a kind holds at the end of a run with
-- stages of that kind.
theorem invariant (holds : List Stage → System → Prop) (kind : Stage → Prop)
    (hstart : holds [] start)
    (hstep : ∀ {stages s s' move happenings}, holds stages s →
      s.move? setup move = some (s', happenings) → kind ⟨s, move, happenings⟩ →
        holds (stages ++ [⟨s, move, happenings⟩]) s')
    (hrun : Run setup start stages s) (hkind : ∀ stage ∈ stages, kind stage) : holds stages s := by
  induction hrun with
  | nil => exact hstart
  | snoc _ hmove ih =>
    simp only [List.mem_append, List.mem_singleton] at hkind
    exact hstep (ih fun stage hstage => hkind stage (.inl hstage)) hmove (hkind _ (.inr rfl))

end Run

/-! ## 2. Errors -/

theorem Call.error?_step {setup : Setup} {c : Cursor} {call : Call} {turn : Turn Call} {e : Error}
    (h : call.step setup c = some turn) (he : c.error? = some e) : turn.cursor.error? = some e := by
  cases steps_of_step h with
  | judges _ _ hcursor => rw [hcursor, he]
  | advances hstep _ _ hcursor => rw [hcursor, hstep.error?_eq he]
  | closes hstep _ _ hcursor =>
    rw [hcursor]
    cases hstep <;> exact he
  | fetches hstep _ _ hcursor => rw [hcursor, hstep.error?_eq he]

theorem Task.error?_step {setup : Setup} {c : Cursor} {task : Task} {turn : Turn Task} {e : Error}
    (h : task.step setup c = some turn) (he : c.error? = some e) : turn.cursor.error? = some e := by
  cases steps_of_step h with
  | fetches hfetch => exact hfetch.error?_eq he
  | notices => rw [Cursor.error?_openGate, Cursor.error?_record, he, Option.some_or]
  | reports | tells => exact he

-- The first error stays, whatever happens.
theorem System.error?_of_move {setup : Setup} {s s' : System} {move : Move}
    {happenings : List Happening} {e : Error}
    (hmove : s.move? setup move = some (s', happenings)) (he : s.cursor.error? = some e) :
    s'.cursor.error? = some e := by
  cases move with
  | begin op => cases hmove; exact he
  | call place =>
    obtain ⟨before, call, later, turn, hcalls, rfl, hstep, rfl, rfl⟩ := System.move?_call hmove
    exact Call.error?_step hstep he
  | answerCall place a =>
    obtain ⟨before, call, later, kind, hcalls, rfl, hawaits, rfl, rfl⟩ :=
      System.move?_answerCall hmove
    exact he
  | collect place =>
    obtain ⟨before, call, later, hcalls, rfl, hended, rfl, rfl⟩ := System.move?_collect hmove
    exact he
  | task place =>
    obtain ⟨before, task, later, turn, htasks, rfl, hstep, rfl, rfl⟩ := System.move?_task hmove
    exact Task.error?_step hstep he
  | answerTask place a =>
    obtain ⟨before, task, later, kind, htasks, rfl, hawaits, rfl, rfl⟩ :=
      System.move?_answerTask hmove
    exact he

/-! ## 3. The history of a run -/

/-- The fetch that a task is in. -/
def Task.fetch? : Task → Option Fetch
  | running f => some f
  | _ => none

-- A task goes without its fetch once that has an outcome.
theorem Task.fetch?_ofFetch_done (outcome : Except Error Bool) :
    (ofFetch (.done outcome)).fetch? = none := by
  cases outcome <;> rfl

/-- The fetch that takes a turn in a move. -/
def System.turning? (s : System) : Move → Option Fetch
  | .call place => s.calls[place]?.bind Call.fetch?
  | .task place => s.tasks[place]?.bind Task.fetch?
  | _ => none

/-- The reply that the cursor accepts in a stage. -/
def Stage.accepted? (stage : Stage) : Option Reply :=
  (stage.before.turning? stage.move).bind (Fetch.accepts? stage.before.cursor)

/-- The replies that the cursor has accepted. -/
def accepted (stages : List Stage) : List Reply := stages.filterMap Stage.accepted?

/-- A value that an advance handed out, with its type. -/
abbrev Handed := (t : Target) × t.Slot

/-- The value that an operation handed out, when the caller takes back an advance that found a
row. -/
def Happening.handed? : Happening → Option Handed
  | collected (.next n) => if n.result? = some true then some ⟨_, n.slot⟩ else none
  | _ => none

/-- The values that have been handed out. -/
def handedOut (stages : List Stage) : List Handed :=
  stages.flatMap fun stage => stage.happenings.filterMap Happening.handed?

/-- The advance that an operation is. -/
def Call.advance? : Call → Option ((t : Target) × Next t)
  | next n => some ⟨_, n⟩
  | _ => none

/-- The advance that takes a turn in a move. -/
def System.advancing? (s : System) : Move → Option ((t : Target) × Next t)
  | .call place => s.calls[place]?.bind Call.advance?
  | _ => none

/-- The advances under way. -/
def System.advances (s : System) : List ((t : Target) × Next t) := s.calls.filterMap Call.advance?

end RowStream
