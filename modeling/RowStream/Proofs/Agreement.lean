import Mathlib
import RowStream.Proofs.Closed
import RowStream.Proofs.Conservation
import RowStream.Proofs.Yield

/-!
# The ways of reading agree

Advance after advance, all rows into a list, and rows one by one are the same advances on the same
cursor; they differ in where the values go and in what is done after the last advance.  So the same
moves take each of them to the same point, with the same values, whatever goes on in the background.
-/

namespace RowStream

variable {setup : Setup} {t : Target} {c : Cursor}

/-! ## 1. Advances into other destinations -/

namespace Next

/-- Advances at the same point, which may differ in what their destinations hold unless they have
found a row. -/
structure Alike (n n' : Next t) : Prop where
  phase : n'.phase = n.phase
  slot : n.phase = .done true → n'.slot = n.slot

theorem alike_of_phase (slot slot' : t.Slot) {phase : Phase} (h : phase ≠ .done true) :
    Alike ⟨slot, phase⟩ ⟨slot', phase⟩ :=
  ⟨rfl, fun hdone => absurd hdone h⟩

-- A row comes to the same value or the same error in every destination.
theorem alike_receive (slot slot' : t.Slot) (row : Datum) :
    (receive slot row).Alike (receive slot' row) := by
  have hresult := t.result_decode slot slot' row
  unfold receive
  cases hdecode : t.decode slot row <;> cases hdecode' : t.decode slot' row <;>
    rw [hdecode, hdecode'] at hresult <;> cases hresult
  · exact ⟨rfl, fun _ => rfl⟩
  · exact alike_of_phase _ _ nofun

/-- Turns that do the same to the cursor and leave the advances alike. -/
structure SameTurn (turn turn' : Turn (Next t)) : Prop where
  cursor : turn'.cursor = turn.cursor
  events : turn'.events = turn.events
  next : turn.next.Alike turn'.next

theorem sameTurn_look (setup : Setup) (c : Cursor) (slot slot' : t.Slot) :
    SameTurn (look setup c slot) (look setup c slot') := by
  unfold look
  split
  · exact ⟨rfl, rfl, alike_receive slot slot' _⟩
  · split
    · refine ⟨rfl, rfl, alike_of_phase slot slot' ?_⟩
      split <;> nofun
    · refine ⟨rfl, rfl, alike_of_phase slot slot' ?_⟩
      split
      · nofun
      · split
        · nofun
        · split <;> nofun

theorem Phase.ofFetch_ne (f : Fetch) : Phase.ofFetch f ≠ .done true := by
  rcases phase_ofFetch f with hf | hf | hf | ⟨e, hf⟩ <;> rw [hf] <;> nofun

theorem Phase.ofClose_ne (close : Close) : Phase.ofClose close ≠ .done true := by
  cases close <;> nofun

-- Advances that are alike take the same turns.
theorem Alike.step {n n' : Next t} (h : n.Alike n') (setup : Setup) (c : Cursor) :
    (n.step setup c = none ∧ n'.step setup c = none) ∨
      ∃ turn turn', n.step setup c = some turn ∧ n'.step setup c = some turn' ∧
        SameTurn turn turn' := by
  obtain ⟨slot, phase⟩ := n
  obtain ⟨slot', phase'⟩ := n'
  obtain rfl : phase = phase' := h.phase.symm
  cases phase with
  | enter =>
    refine .inr ⟨_, _, rfl, rfl, rfl, rfl, alike_of_phase slot slot' ?_⟩
    split <;> simp
  | look => exact .inr ⟨_, _, rfl, rfl, sameTurn_look setup c slot slot'⟩
  | recheck =>
    simp only [Next.step]
    split
    · exact .inr ⟨_, _, rfl, rfl, rfl, rfl, alike_of_phase slot slot' (by simp)⟩
    · exact .inr ⟨_, _, rfl, rfl, sameTurn_look setup c slot slot'⟩
  | refill rows => exact .inr ⟨_, _, rfl, rfl, sameTurn_look setup _ slot slot'⟩
  | failed e => exact .inr ⟨_, _, rfl, rfl, rfl, rfl, alike_of_phase slot slot' (by simp)⟩
  | fetching f =>
    cases hf : f.step setup c with
    | none => exact .inl ⟨by simp only [Next.step, hf]; rfl, by simp only [Next.step, hf]; rfl⟩
    | some turn =>
      refine .inr ⟨turn.map fun f => ⟨slot, .ofFetch f⟩, turn.map fun f => ⟨slot', .ofFetch f⟩,
        ?_, ?_, rfl, rfl, alike_of_phase slot slot' (Phase.ofFetch_ne turn.next)⟩ <;>
      · simp only [Next.step, hf]
        rfl
  | closing close =>
    cases hclose : close.step c with
    | none =>
      exact .inl ⟨by simp only [Next.step, hclose]; rfl, by simp only [Next.step, hclose]; rfl⟩
    | some turn =>
      refine .inr ⟨turn.map fun x => ⟨slot, .ofClose x⟩, turn.map fun x => ⟨slot', .ofClose x⟩,
        ?_, ?_, rfl, rfl, alike_of_phase slot slot' (Phase.ofClose_ne turn.next)⟩ <;>
      · simp only [Next.step, hclose]
        rfl
  | asleep | done => exact .inl ⟨rfl, rfl⟩

theorem Alike.awaits?_eq {n n' : Next t} (h : n.Alike n') : n'.awaits? = n.awaits? := by
  rw [awaits?, h.phase]
  rfl

theorem Alike.answer {n n' : Next t} (h : n.Alike n') (a : Answer) :
    (n.answer a).Alike (n'.answer a) := by
  obtain ⟨slot, phase⟩ := n
  obtain ⟨slot', phase'⟩ := n'
  obtain rfl : phase = phase' := h.phase.symm
  cases phase with
  | fetching | closing => exact alike_of_phase slot slot' nofun
  | _ => exact h

theorem Alike.wake {n n' : Next t} (h : n.Alike n') : n.wake.Alike n'.wake := by
  obtain ⟨slot, phase⟩ := n
  obtain ⟨slot', phase'⟩ := n'
  obtain rfl : phase = phase' := h.phase.symm
  cases phase with
  | asleep => exact alike_of_phase slot slot' nofun
  | _ => exact h

theorem Alike.result?_eq {n n' : Next t} (h : n.Alike n') : n'.result? = n.result? := by
  rw [result?, h.phase]
  rfl

theorem alike_start (slot slot' : t.Slot) : (start slot).Alike (start slot') :=
  alike_of_phase slot slot' nofun

theorem result?_wake {n : Next t} (h : n.result? = none) : n.wake.result? = none := by
  obtain ⟨slot, phase⟩ := n
  cases phase <;> first | rfl | exact h

theorem PastMark.of_answer {n : Next t} {a : Answer} (h : (n.answer a).PastMark) : n.PastMark := by
  obtain ⟨slot, phase⟩ := n
  cases phase with
  | closing close =>
    cases close with
    | waiting => trivial
    | _ => exact h
  | _ => exact h

theorem PastMark.of_wake {n : Next t} (h : n.wake.PastMark) : n.PastMark := by
  obtain ⟨slot, phase⟩ := n
  cases phase <;> exact h

end Next

/-! ## 2. Callers that go on at once -/

/-- Whether a move is a turn or an answer; the other moves are those of the caller. -/
def Move.Drives : Move → Prop
  | call _ | answerCall _ _ | task _ | answerTask _ _ => True
  | begin _ | collect _ => False

/-- The first operation of a way of reading. -/
def Way.first (initial : List t.Slot) : Way → Operation
  | next => .next t.blank
  | all => .all initial
  | items => .item t false

/-- The operation that follows a result: the next advance into a fresh destination after one that
has found a row, and the next item after a value. -/
def Way.next? (t : Target) : Way → Call → Option Operation
  | next, .next n => if n.result? = some true then some (.next t.blank) else none
  | items, .item (.done (some (.ok _))) => some (.item t false)
  | _, _ => none

namespace System

/-- What a caller does between moves: it takes back the operation under way and begins the next one,
if there is one to go on to. -/
def settle? (setup : Setup) (next? : Call → Option Operation) (s : System) (results : List Call) :
    Option (System × List Call) :=
  match s.calls with
  | [call] =>
    match next? call with
    | some op => do
      let (s, _) ← s.move? setup (.collect 0)
      let (s, _) ← s.move? setup (.begin op)
      return (s, results ++ [call])
    | none => some (s, results)
  | _ => some (s, results)

/-- The system and the results after a move and what the caller does after it. -/
def attend? (setup : Setup) (next? : Call → Option Operation) (before : System × List Call)
    (move : Move) : Option (System × List Call) := do
  let (s, _) ← before.1.move? setup move
  s.settle? setup next? before.2

/-- The system and the results after moves, if all of them are possible, for a caller that goes on
at once from each result to the next operation. -/
def drive? (setup : Setup) (next? : Call → Option Operation) (start : System × List Call)
    (moves : List Move) : Option (System × List Call) :=
  moves.foldlM (attend? setup next?) start

section

variable {next? : Call → Option Operation} {start later : System × List Call} {move : Move}

theorem drive?_cons (h : attend? setup next? start move = some later) (moves : List Move) :
    drive? setup next? start (move :: moves) = drive? setup next? later moves := by
  rw [drive?, List.foldlM_cons, h]
  rfl

theorem drive?_cons_of_none (h : attend? setup next? start move = none) (moves : List Move) :
    drive? setup next? start (move :: moves) = none := by
  rw [drive?, List.foldlM_cons, h]
  rfl

end

end System

/-- Where a way of reading has come to after moves, if all of them are possible. -/
def Way.reach? (setup : Setup) (initial : List t.Slot) (s : System) (x : Way) (moves : List Move) :
    Option (System × List Call) :=
  System.drive? setup (x.next? t) ({ s with calls := [(x.first initial).begin] }, []) moves

/-- The results of a caller and its operation under way. -/
structure Stand where
  results : List Call
  call : Call

/-- A cursor and its fetches in the background, with a caller. -/
def Stand.on (x : Stand) (c : Cursor) (tasks : List Task) : System × List Call :=
  (⟨c, [x.call], tasks⟩, x.results)

/-- What becomes of a caller that goes on. -/
def Stand.settled (next? : Call → Option Operation) (x : Stand) : Stand :=
  match next? x.call with
  | some op => ⟨x.results ++ [x.call], op.begin⟩
  | none => x

namespace Way

/-- The ways of reading, amid an advance, with the values so far. -/
def advancing (got spare : List t.Slot) (n : Next t) : Way → Stand
  | next => ⟨Call.advances got, .next n⟩
  | all => ⟨[], .all (.advancing got spare n)⟩
  | items => ⟨Call.items got, .item (.advancing n)⟩

/-- The ways of reading, right after an advance that has found no row. -/
def ending (got : List t.Slot) (slot : t.Slot) : Way → Stand
  | next => ⟨Call.advances got, .next (t := t) ⟨slot, .done false⟩⟩
  | all => ⟨[], .all (.judge got)⟩
  | items => ⟨Call.items got, .item (t := t) .judge⟩

/-- The ways of reading with their last results: all rows with the error of the cursor, if it has
one, and the error as the last item. -/
def ended (c : Cursor) (got : List t.Slot) (slot : t.Slot) : Way → Stand
  | next => ⟨Call.advances got, .next (t := t) ⟨slot, .done false⟩⟩
  | all => ⟨[], .all (.done got (⟨got, c.error?⟩ : Yield t).result)⟩
  | items => ⟨Call.items got, .item (t := t) (.done (c.error?.map .error))⟩

/-- The moves that a way of reading still has to make after its last advance. -/
def rest : Way → List Move
  | next => []
  | all => [.call 0, .call 0]
  | items => [.call 0]

end Way

/-- What the same moves do to the three ways of reading. -/
inductive Lockstep (t : Target) (reach? : Way → List Move → Option (System × List Call))
    (moves : List Move) : Prop
  /-- All of them are at the same point of an advance, with the same values so far. -/
  | advancing {c : Cursor} {tasks : List Task} {got spare : List t.Slot} (n : Way → Next t)
    (hnone : (n .next).result? = none) (hphase : ∀ x, (n x).phase = (n .next).phase)
    (hreach : ∀ x, reach? x moves = some ((x.advancing got spare (n x)).on c tasks))
  /-- There was no row, and the last steps of each of them lead to its last result. -/
  | ended {c : Cursor} {tasks : List Task} {got : List t.Slot} {slot : t.Slot}
    (hclosed : c.closed = true)
    (hreach : ∀ x, reach? x (moves ++ x.rest) = some ((x.ended c got slot).on c tasks))
  /-- None of them can make these moves. -/
  | stuck (hreach : ∀ x, reach? x moves = none)
  /-- The last advance was over before, and no other one was to follow. -/
  | past {before later : List Move} {c : Cursor} {tasks : List Task} {got : List t.Slot}
    {slot : t.Slot} (hmoves : moves = before ++ .call 0 :: later)
    (hreach : reach? .next before = some ((Way.next.ended c got slot).on c tasks))
    (hnone : reach? .next moves = none)

/-! ## 3. One move -/

namespace Way

theorem isDone_of_next? {x : Way} {call : Call} {op : Operation} (h : x.next? t call = some op) :
    call.isDone = true := by
  unfold next? at h
  split at h
  next n =>
    split at h
    next hresult => exact congrArg Option.isSome hresult
    next => cases h
  next => rfl
  next => cases h

section

variable {x : Way} {tasks : List Task} {y : Stand}

theorem settle?_on (y : Stand) (c : Cursor) (tasks : List Task) :
    (y.on c tasks).1.settle? setup (x.next? t) y.results =
      some ((y.settled (x.next? t)).on c tasks) := by
  unfold Stand.settled
  cases hnext : x.next? t y.call with
  | none => simp only [System.settle?, Stand.on, hnext]
  | some op =>
    have hdone := isDone_of_next? hnext
    simp [System.settle?, Stand.on, hnext, System.move?, hdone]

theorem attend?_of_move {move : Move} {c' : Cursor} {call : Call} {tasks' : List Task}
    {happenings : List Happening}
    (h : (y.on c tasks).1.move? setup move = some (⟨c', [call], tasks'⟩, happenings)) :
    System.attend? setup (x.next? t) (y.on c tasks) move =
      some (((⟨y.results, call⟩ : Stand).settled (x.next? t)).on c' tasks') := by
  unfold System.attend?
  rw [h]
  exact settle?_on ⟨y.results, call⟩ c' tasks'

theorem attend?_of_move_eq_none {move : Move} (h : (y.on c tasks).1.move? setup move = none) :
    System.attend? setup (x.next? t) (y.on c tasks) move = none := by
  unfold System.attend?
  rw [h]
  rfl

theorem attend?_call : System.attend? setup (x.next? t) (y.on c tasks) (.call 0) =
    (y.call.step setup c).map fun turn =>
      ((⟨y.results, turn.next⟩ : Stand).settled (x.next? t)).on turn.cursor
        (tasks ++ List.replicate (turn.events.countP Event.schedules) .scheduled) := by
  cases hstep : y.call.step setup c with
  | none => exact attend?_of_move_eq_none (by simp [System.move?, Stand.on, hstep])
  | some turn =>
    refine attend?_of_move (?_ : _ = some (_, turn.events.map Happening.event))
    rw [← System.after_of_step hstep]
    simp [System.move?, Stand.on, hstep, System.heedAll, System.foldl_heed]

-- A turn without events.
theorem attend?_call_of_quiet {c' : Cursor} {call : Call}
    (hstep : y.call.step setup c = some ⟨c', call, []⟩) :
    System.attend? setup (x.next? t) (y.on c tasks) (.call 0) =
      some (((⟨y.results, call⟩ : Stand).settled (x.next? t)).on c' tasks) := by
  rw [attend?_call, hstep, Option.map_some]
  exact congrArg (fun tasks => some (Stand.on _ c' tasks)) (List.append_nil tasks)

theorem attend?_answerCall (a : Answer) :
    System.attend? setup (x.next? t) (y.on c tasks) (.answerCall 0 a) =
      y.call.awaits?.map fun _ =>
        ((⟨y.results, y.call.answer a⟩ : Stand).settled (x.next? t)).on c tasks := by
  cases hawaits : y.call.awaits? with
  | none => exact attend?_of_move_eq_none (by simp [System.move?, Stand.on, hawaits])
  | some kind => exact attend?_of_move (by simp [System.move?, Stand.on, hawaits]; rfl)

theorem attend?_task (place : Nat) :
    System.attend? setup (x.next? t) (y.on c tasks) (.task place) =
      tasks[place]?.bind fun task => (task.step setup c).map fun turn =>
        ((⟨y.results, if turn.events.any Event.notifies then y.call.wake else y.call⟩ :
          Stand).settled (x.next? t)).on turn.cursor
          (tasks.set place turn.next ++
            List.replicate (turn.events.countP Event.schedules) .scheduled) := by
  cases htask : tasks[place]? with
  | none => exact attend?_of_move_eq_none (by simp [System.move?, Stand.on, htask])
  | some task =>
    rw [Option.bind_some]
    cases hstep : task.step setup c with
    | none => exact attend?_of_move_eq_none (by simp [System.move?, Stand.on, htask, hstep])
    | some turn =>
      refine attend?_of_move (?_ : _ = some (_, turn.events.map Happening.event))
      have hafter : System.after turn.cursor [y.call] (tasks.set place turn.next) turn.events =
          ⟨turn.cursor, [if turn.events.any Event.notifies then y.call.wake else y.call],
            tasks.set place turn.next ++
              List.replicate (turn.events.countP Event.schedules) .scheduled⟩ := by
        unfold System.after
        split <;> rfl
      rw [← hafter]
      simp [System.move?, Stand.on, htask, hstep, System.heedAll, System.foldl_heed]

theorem attend?_answerTask (place : Nat) (a : Answer) :
    System.attend? setup (x.next? t) (y.on c tasks) (.answerTask place a) =
      tasks[place]?.bind fun task => task.awaits?.map fun _ =>
        (y.settled (x.next? t)).on c (tasks.set place (task.answer a)) := by
  cases htask : tasks[place]? with
  | none => exact attend?_of_move_eq_none (by simp [System.move?, Stand.on, htask])
  | some task =>
    rw [Option.bind_some]
    cases hawaits : task.awaits? with
    | none => exact attend?_of_move_eq_none (by simp [System.move?, Stand.on, htask, hawaits])
    | some kind =>
      exact attend?_of_move (by simp [System.move?, Stand.on, htask, hawaits]; rfl)

end

/-! ## 4. One advance -/

section

variable {x : Way} {got spare : List t.Slot} {n : Next t}

/-- The destination of the next advance: all rows go into the caller's list as long as it lasts. -/
def destination (spare : List t.Slot) : Way → t.Slot
  | all => spare.headD t.blank
  | _ => t.blank

/-- The ways of reading after a turn of their advance. -/
def received (got spare : List t.Slot) (n : Next t) : Way → Stand
  | next => ⟨Call.advances got, .next n⟩
  | all => ⟨[], .all (.ofNext got spare n)⟩
  | items => ⟨Call.items got, .item (.ofNext n)⟩

theorem begin_first (x : Way) (initial : List t.Slot) :
    (⟨[], (x.first initial).begin⟩ : Stand) =
      x.advancing [] initial.tail (.start (x.destination initial)) := by
  cases x with
  | all => cases initial <;> rfl
  | next | items => rfl

theorem settled_advancing (hnone : n.result? = none) :
    (x.advancing got spare n).settled (x.next? t) = x.advancing got spare n := by
  cases x with
  | next =>
    have hnext : Way.next.next? t (.next n) = none := if_neg (by rw [hnone]; nofun)
    simp only [Stand.settled, advancing, hnext]
  | all | items => rfl

theorem settled_ending (slot : t.Slot) :
    (x.ending got slot).settled (x.next? t) = x.ending got slot := by
  cases x <;> rfl

theorem received_of_result? (hnone : n.result? = none) :
    x.received got spare n = x.advancing got spare n := by
  cases x with
  | next => rfl
  | all => simp only [received, advancing, All.ofNext, hnone]
  | items => simp only [received, advancing, NextItem.ofNext, hnone]

-- A row is the last value so far, and the next advance begins.
theorem settled_received_true (slot : t.Slot) :
    (x.received got spare ⟨slot, .done true⟩).settled (x.next? t) =
      x.advancing (got ++ [slot]) spare.tail (.start (x.destination spare)) := by
  cases x with
  | next =>
    rw [advancing, Call.advances_concat]
    rfl
  | all => cases spare <;> rfl
  | items =>
    rw [advancing, Call.items_concat]
    rfl

theorem settled_received_false (slot : t.Slot) :
    (x.received got spare ⟨slot, .done false⟩).settled (x.next? t) = x.ending got slot := by
  cases x <;> rfl

theorem step_advancing : (x.advancing got spare n).call.step setup c =
    (n.step setup c).map fun turn =>
      ⟨turn.cursor, (x.received got spare turn.next).call, turn.events⟩ := by
  cases x <;> cases hstep : n.step setup c <;>
    simp [advancing, Call.step, All.step, NextItem.step, hstep] <;> rfl

theorem awaits?_advancing : (x.advancing got spare n).call.awaits? = n.awaits? := by
  cases x <;> rfl

theorem answer_advancing (a : Answer) : (⟨(x.advancing got spare n).results,
    (x.advancing got spare n).call.answer a⟩ : Stand) = x.advancing got spare (n.answer a) := by
  cases x <;> rfl

theorem wake_advancing : (⟨(x.advancing got spare n).results,
    (x.advancing got spare n).call.wake⟩ : Stand) = x.advancing got spare n.wake := by
  cases x <;> rfl

theorem results_received (n n' : Next t) :
    (x.received got spare n').results = (x.advancing got spare n).results := by
  cases x <;> rfl

end
end Way

/-! ## 5. The same moves -/

/-- Ways of reading that stand at the same point. -/
inductive Abreast (t : Target) (c : Cursor) (stand : Way → Stand) : Prop
  | advancing (got spare : List t.Slot) (n : Way → Next t) (hnone : (n .next).result? = none)
    (halike : ∀ x, (n .next).Alike (n x)) (hpast : (n .next).PastMark → c.closed = true)
    (hstand : ∀ x, stand x = x.advancing got spare (n x))
  | ending (got : List t.Slot) (slot : t.Slot) (hclosed : c.closed = true)
    (hstand : ∀ x, stand x = x.ending got slot)

namespace Abreast

variable {c' : Cursor} {stand : Way → Stand}

theorem settled (h : Abreast t c stand) (x : Way) : (stand x).settled (x.next? t) = stand x := by
  cases h with
  | advancing got spare n hnone halike _ hstand =>
    rw [hstand, Way.settled_advancing ((halike x).result?_eq.trans hnone)]
  | ending got slot _ hstand => rw [hstand, Way.settled_ending]

theorem mono (h : Abreast t c stand) (hclosed : c.closed = true → c'.closed = true) :
    Abreast t c' stand := by
  cases h with
  | advancing got spare n hnone halike hpast hstand =>
    exact .advancing got spare n hnone halike (fun hn => hclosed (hpast hn)) hstand
  | ending got slot hc hstand => exact .ending got slot (hclosed hc) hstand

theorem wake (h : Abreast t c stand) :
    Abreast t c fun x => ⟨(stand x).results, (stand x).call.wake⟩ := by
  cases h with
  | advancing got spare n hnone halike hpast hstand =>
    refine .advancing got spare (fun x => (n x).wake) (Next.result?_wake hnone)
      (fun x => (halike x).wake) (fun hn => hpast hn.of_wake) fun x => ?_
    rw [hstand, Way.wake_advancing]
  | ending got slot hclosed hstand =>
    refine .ending got slot hclosed fun x => ?_
    rw [hstand]
    cases x <;> rfl

-- After a turn, the ways of reading may have come to a value or to the end.
theorem ofReceived (got spare : List t.Slot) (n : Way → Next t)
    (halike : ∀ x, (n .next).Alike (n x)) (hpast : (n .next).PastMark → c.closed = true) :
    Abreast t c fun x => (x.received got spare (n x)).settled (x.next? t) := by
  cases hresult : (n .next).result? with
  | none =>
    refine .advancing got spare n hresult halike hpast fun x => ?_
    have hnone := (halike x).result?_eq.trans hresult
    rw [Way.received_of_result? hnone, Way.settled_advancing hnone]
  | some more =>
    have hphase (x : Way) : n x = ⟨(n x).slot, .done more⟩ :=
      Next.eq_of_result? ((halike x).result?_eq.trans hresult)
    cases more with
    | true =>
      have hslot (x : Way) : (n x).slot = (n .next).slot :=
        (halike x).slot (congrArg Next.phase (hphase .next))
      refine .advancing (got ++ [(n .next).slot]) spare.tail
        (fun x => .start (x.destination spare)) rfl (fun x => Next.alike_start _ _)
        (fun hstart => hstart.elim) fun x => ?_
      rw [hphase x, Way.settled_received_true, hslot x]
    | false =>
      refine .ending got (n .next).slot (hpast ?_) fun x => ?_
      · rw [hphase .next]
        trivial
      · rw [hphase x, Way.settled_received_false]
        cases x <;> rfl

-- All of them take the same turn, unless they have come to the end: there, only those that go on
-- after the last advance take one.
theorem turn (h : Abreast t c stand) (setup : Setup) :
    (∀ x, (stand x).call.step setup c = none) ∨
      (∃ (c' : Cursor) (events : List Event) (stand' : Way → Stand), Abreast t c' stand' ∧
        ∀ x, ∃ turn, (stand x).call.step setup c = some turn ∧ turn.cursor = c' ∧
          turn.events = events ∧
          (⟨(stand x).results, turn.next⟩ : Stand).settled (x.next? t) = stand' x) ∨
      ∃ (got : List t.Slot) (slot : t.Slot), c.closed = true ∧
        ∀ x, stand x = x.ending got slot := by
  cases h with
  | ending got slot hclosed hstand => exact .inr (.inr ⟨got, slot, hclosed, hstand⟩)
  | advancing got spare n hnone halike hpast hstand =>
    cases hstep : (n .next).step setup c with
    | none =>
      refine .inl fun x => ?_
      rcases (halike x).step setup c with ⟨-, hnone'⟩ | ⟨turn, -, hsome, -⟩
      · rw [hstand, Way.step_advancing, hnone']
        rfl
      · rw [hstep] at hsome
        cases hsome
    | some turn =>
      have hturns (x : Way) :
          ∃ turn', (n x).step setup c = some turn' ∧ Next.SameTurn turn turn' := by
        rcases (halike x).step setup c with ⟨hnone', -⟩ | ⟨_, turn', hsome, hturn', hsame⟩
        · rw [hstep] at hnone'
          cases hnone'
        · rw [hstep] at hsome
          cases hsome
          exact ⟨turn', hturn', hsame⟩
      choose turns hturn hsame using hturns
      have hfirst : turns .next = turn := Option.some.inj ((hturn .next).symm.trans hstep)
      have hpast' : (turns .next).next.PastMark → turn.cursor.closed = true := by
        rw [hfirst]
        exact (Next.steps_of_step hstep).closed_of_pastMark (s := ⟨c, [], []⟩) hpast
      have halike' (x : Way) : (turns .next).next.Alike (turns x).next := by
        rw [hfirst]
        exact (hsame x).next
      refine .inr (.inl ⟨turn.cursor, turn.events, _,
        ofReceived got spare (fun x => (turns x).next) halike' hpast', fun x => ?_⟩)
      refine ⟨⟨(turns x).cursor, (x.received got spare (turns x).next).call, (turns x).events⟩,
        ?_, (hsame x).cursor, (hsame x).events, ?_⟩
      · rw [hstand, Way.step_advancing, hturn]
        rfl
      · rw [hstand, ← Way.results_received (n x) (turns x).next]

theorem answer (h : Abreast t c stand) (a : Answer) :
    (∀ x, (stand x).call.awaits? = none) ∨
      (∀ x, (stand x).call.awaits? ≠ none) ∧
        Abreast t c fun x => ⟨(stand x).results, (stand x).call.answer a⟩ := by
  cases h with
  | ending got slot hclosed hstand =>
    refine .inl fun x => ?_
    rw [hstand]
    cases x <;> rfl
  | advancing got spare n hnone halike hpast hstand =>
    have hawaits (x : Way) : (stand x).call.awaits? = (n .next).awaits? := by
      rw [hstand, Way.awaits?_advancing, (halike x).awaits?_eq]
    by_cases hnext : (n .next).awaits? = none
    · exact .inl fun x => (hawaits x).trans hnext
    · refine .inr ⟨fun x => (hawaits x).trans_ne hnext, ?_⟩
      refine .advancing got spare (fun x => (n x).answer a) (Next.result?_answer _ _ hnone)
        (fun x => (halike x).answer a) (fun hn => hpast hn.of_answer) fun x => ?_
      rw [hstand, Way.answer_advancing]

-- One move takes all of them to the next point, or none of them anywhere.
theorem attend (h : Abreast t c stand) (setup : Setup) (tasks : List Task) {move : Move}
    (hdrives : move.Drives) :
    (∀ x, System.attend? setup (x.next? t) ((stand x).on c tasks) move = none) ∨
      (∃ (c' : Cursor) (tasks' : List Task) (stand' : Way → Stand), Abreast t c' stand' ∧
        ∀ x, System.attend? setup (x.next? t) ((stand x).on c tasks) move =
          some ((stand' x).on c' tasks')) ∨
      (move = .call 0 ∧ ∃ (got : List t.Slot) (slot : t.Slot), c.closed = true ∧
        ∀ x, stand x = x.ending got slot) := by
  cases move with
  | begin | collect => exact hdrives.elim
  | call place =>
    cases place with
    | succ place => exact .inl fun x => Way.attend?_of_move_eq_none rfl
    | zero =>
      rcases h.turn setup with hnone | ⟨c', events, stand', hnext, hturns⟩ | hend
      · exact .inl fun x => by rw [Way.attend?_call, hnone x]; rfl
      · refine .inr (.inl ⟨c', tasks ++ List.replicate (events.countP Event.schedules) .scheduled,
          stand', hnext, fun x => ?_⟩)
        obtain ⟨turn, hstep, rfl, rfl, hsettled⟩ := hturns x
        rw [Way.attend?_call, hstep, Option.map_some, hsettled]
      · exact .inr (.inr ⟨rfl, hend⟩)
  | answerCall place a =>
    cases place with
    | succ place => exact .inl fun x => Way.attend?_of_move_eq_none rfl
    | zero =>
      rcases h.answer a with hnone | ⟨hsome, hnext⟩
      · exact .inl fun x => by rw [Way.attend?_answerCall, hnone x]; rfl
      · refine .inr (.inl ⟨c, tasks, _, hnext, fun x => ?_⟩)
        obtain ⟨kind, hkind⟩ := Option.ne_none_iff_exists'.mp (hsome x)
        rw [Way.attend?_answerCall, hkind, Option.map_some, hnext.settled x]
  | task place =>
    cases htask : tasks[place]? with
    | none => exact .inl fun x => by rw [Way.attend?_task, htask]; rfl
    | some task =>
      cases hstep : task.step setup c with
      | none => exact .inl fun x => by rw [Way.attend?_task, htask, Option.bind_some, hstep]; rfl
      | some turn =>
        have hkept : c.closed = true → turn.cursor.closed = true :=
          (Task.steps_of_step hstep).closed_eq.trans
        have hnext : Abreast t turn.cursor fun x =>
            ⟨(stand x).results, if turn.events.any Event.notifies then (stand x).call.wake
              else (stand x).call⟩ := by
          split
          · exact (h.mono hkept).wake
          · exact h.mono hkept
        refine .inr (.inl ⟨turn.cursor, tasks.set place turn.next ++
          List.replicate (turn.events.countP Event.schedules) .scheduled, _, hnext, fun x => ?_⟩)
        rw [Way.attend?_task, htask, Option.bind_some, hstep, Option.map_some, hnext.settled x]
  | answerTask place a =>
    cases htask : tasks[place]? with
    | none => exact .inl fun x => by rw [Way.attend?_answerTask, htask]; rfl
    | some task =>
      cases hawaits : task.awaits? with
      | none =>
        exact .inl fun x => by rw [Way.attend?_answerTask, htask, Option.bind_some, hawaits]; rfl
      | some kind =>
        refine .inr (.inl ⟨c, tasks.set place (task.answer a), stand, h, fun x => ?_⟩)
        rw [Way.attend?_answerTask, htask, Option.bind_some, hawaits, Option.map_some,
          h.settled x]

-- The last steps after the last advance: whether there is an error, and that the cursor is closed.
theorem drive?_ending (setup : Setup) (hclosed : c.closed = true) (tasks : List Task)
    (got : List t.Slot) (slot : t.Slot) (x : Way) :
    System.drive? setup (x.next? t) ((x.ending got slot).on c tasks) x.rest =
      some ((x.ended c got slot).on c tasks) := by
  cases x with
  | next => rfl
  | items =>
    have hjudge : System.attend? setup (Way.items.next? t) ((Way.items.ending got slot).on c tasks)
        (.call 0) = some ((Way.items.ended c got slot).on c tasks) := by
      rw [Way.attend?_call_of_quiet rfl]
      cases herror : c.error? <;> simp only [Way.ended, herror] <;> rfl
    exact System.drive?_cons hjudge []
  | all =>
    obtain ⟨verdict, hjudges, hverdict⟩ : ∃ verdict : Verdict,
        Call.step setup c (.all (.judge got)) =
          some ⟨c, .all (.closing got verdict .mark), []⟩ ∧
        verdict.result none = (⟨got, c.error?⟩ : Yield t).result := by
      refine ⟨_, rfl, ?_⟩
      simp only [Yield.result]
      cases c.error? <;> rfl
    have hcloses : Call.step setup c (.all (.closing got verdict .mark)) =
        some ⟨c, .all (.done got (verdict.result none)), []⟩ := by
      simp only [Call.step, All.step, Close.step, hclosed, reduceIte]
      rfl
    have hjudge : System.attend? setup (Way.all.next? t) ((Way.all.ending got slot).on c tasks)
        (.call 0) = some ((⟨[], .all (.closing got verdict .mark)⟩ : Stand).on c tasks) :=
      Way.attend?_call_of_quiet hjudges
    have hclose : System.attend? setup (Way.all.next? t)
        ((⟨[], .all (.closing got verdict .mark)⟩ : Stand).on c tasks) (.call 0) =
        some ((Way.all.ended c got slot).on c tasks) := by
      rw [Way.attend?_call_of_quiet hcloses, hverdict]
      rfl
    exact (System.drive?_cons hjudge [.call 0]).trans (System.drive?_cons hclose [])

-- The induction is on the moves: as long as the last advance is not over, each of them leaves the
-- ways of reading abreast.
theorem lockstep (h : Abreast t c stand) (setup : Setup) (tasks : List Task) {moves : List Move}
    (hdrives : ∀ move ∈ moves, move.Drives) :
    Lockstep t (fun x => System.drive? setup (x.next? t) ((stand x).on c tasks)) moves := by
  induction moves generalizing c tasks stand with
  | nil =>
    cases h with
    | advancing got spare n hnone halike _ hstand =>
      have hreach (x : Way) : System.drive? setup (x.next? t) ((stand x).on c tasks) [] =
          some ((x.advancing got spare (n x)).on c tasks) := by
        rw [hstand]
        rfl
      exact .advancing n hnone (fun x => (halike x).phase) hreach
    | ending got slot hclosed hstand =>
      have hreach (x : Way) : System.drive? setup (x.next? t) ((stand x).on c tasks) x.rest =
          some ((x.ended c got slot).on c tasks) := by
        rw [hstand]
        exact drive?_ending setup hclosed tasks got slot x
      exact .ended hclosed hreach
  | cons move moves ih =>
    obtain ⟨hmove, hmoves⟩ := List.forall_mem_cons.mp hdrives
    rcases h.attend setup tasks hmove with hnone | ⟨c', tasks', stand', hnext, hsome⟩ |
      ⟨rfl, got, slot, hclosed, hstand⟩
    · exact .stuck fun x => System.drive?_cons_of_none (hnone x) moves
    · have hcons (x : Way) := System.drive?_cons (hsome x)
      cases ih hnext tasks' hmoves with
      | advancing n hnone hphase hreach =>
        exact .advancing n hnone hphase fun x => (hcons x moves).trans (hreach x)
      | ended hclosed hreach =>
        exact .ended hclosed fun x => (hcons x (moves ++ x.rest)).trans (hreach x)
      | stuck hreach => exact .stuck fun x => (hcons x moves).trans (hreach x)
      | @past before later _ _ _ _ hsplit hreach hnone =>
        exact .past (congrArg (move :: ·) hsplit) ((hcons .next before).trans hreach)
          ((hcons .next moves).trans hnone)
    · have hreach : System.drive? setup (Way.next.next? t) ((stand .next).on c tasks) [] =
          some ((Way.next.ended c got slot).on c tasks) := by
        rw [hstand]
        rfl
      have hnone : System.attend? setup (Way.next.next? t) ((stand .next).on c tasks) (.call 0) =
          none := by
        rw [hstand, Way.attend?_call]
        rfl
      exact .past (List.nil_append _).symm hreach (System.drive?_cons_of_none hnone moves)

end Abreast

/-! ## 6. The theorem -/

/-- The three ways of reading a cursor agree.  The same moves, whatever goes on in the background,
take them to the same point of the same advance, with the same values and the same cursor; after the
last advance all rows have just these values, whatever the caller's list was, and the error of the
cursor, if it has one, and the rows one by one end with that error as an item.

Without fetches in the background, and with nothing going on to begin with, as is so between
operations (`Run.gate_of_idle`), each of them comes to an end whatever the schedule.  What they
bring is what the cursor yields.  Once the rows have ended there is no item. -/
theorem ways_agree (setup : Setup) (s : System) (initial : List t.Slot) :
    (∀ moves : List Move, (∀ move ∈ moves, move.Drives) →
      Lockstep t (Way.reach? setup initial s) moves) ∧
    (∀ (supply : Supply) (stop : Answer) (schedule : Schedule) (x : Way),
      setup.options.prefetch = false → s.tasks = [] → s.cursor.fetching = false →
      (s.cursor.closed = false → s.cursor.Live → supply.Ends) → stop ≠ .breakdown →
        World.Returns setup schedule (x.habit t)
          (World.alone s (x.first initial).begin (supply.map .ofOutcome) stop) fun w =>
            w.system.cursor.closed = true ∧
            w.system.cursor.error? = (s.cursor.yield setup t supply).error? ∧
            ∃ call, w.system.calls = [call] ∧
              x.Brings (s.cursor.yield setup t supply) w.results call) ∧
    (Operation.item t true).begin = .item (t := t) (.done none) := by
  refine ⟨fun moves hdrives => ?_, ?_, rfl⟩
  · have habreast : Abreast t s.cursor fun x => ⟨[], (x.first initial).begin⟩ :=
      .advancing [] initial.tail (fun x => .start (x.destination initial)) rfl
        (fun x => Next.alike_start _ _) (fun hpast => hpast.elim) fun x => x.begin_first initial
    exact habreast.lockstep setup s.tasks hdrives
  · intro supply stop schedule x hprefetch htasks hgate hends hstop
    obtain ⟨stream, r, rfl, hs, hspends⟩ := Cursor.spends_yield (t := t) hprefetch hgate hends
    have hspending : World.Spending stream r (s.cursor.yield stream.setup t supply) s.cursor
        supply x [] (x.first initial).begin := by
      cases x with
      | next => exact .next hspends
      | all => exact .ofStart initial hspends
      | items => exact .item hspends rfl
    have hworld : (World.alone s (x.first initial).begin (supply.map .ofOutcome) stop).Spends
        stream r (s.cursor.yield stream.setup t supply) x supply :=
      ⟨⟨_, rfl, hspending⟩, htasks, rfl, hstop⟩
    exact hworld.returns hs

/-- A row that does not fit, after one that does, and a longer list that is read into. -/
theorem ways_agree_longer_list :
    Lockstep .string
      (Way.reach? (t := .string) (.ordinary 1 { prefetch := false }) ["x", "y", "z"]
        { cursor := Cursor.accept {} ⟨.partialSequence, ["[\"a\"]"], none⟩ })
      [.call 0, .call 0] ∧
    ∃ e, ∀ x : Way, World.Returns (.ordinary 1 { prefetch := false }) .anywhere (x.habit .string)
      (World.alone { cursor := Cursor.accept {} ⟨.partialSequence, ["[\"a\"]"], none⟩ }
        (x.first (t := .string) ["x", "y", "z"]).begin [.reply ⟨.sequence, ["1"], none⟩]
        (.reply ⟨.sequence, [], none⟩)) fun w =>
      w.system.cursor.closed = true ∧ w.system.cursor.error? = some e ∧
        ∃ call, w.system.calls = [call] ∧
          x.Brings (⟨["a"], some e⟩ : Yield .string) w.results call := by
  obtain ⟨e, hyield⟩ : ∃ e, Cursor.yield (.ordinary 1 { prefetch := false }) .string
      (Cursor.accept {} ⟨.partialSequence, ["[\"a\"]"], none⟩)
      [.ok ⟨.sequence, ["1"], none⟩] = ⟨["a"], some e⟩ := ⟨_, by cbv⟩
  obtain ⟨hlockstep, hreturns, -⟩ := ways_agree (t := .string) (.ordinary 1 { prefetch := false })
    { cursor := Cursor.accept {} ⟨.partialSequence, ["[\"a\"]"], none⟩ } ["x", "y", "z"]
  refine ⟨hlockstep _ ?_, e, fun x => ?_⟩
  · simp only [List.forall_mem_cons]
    exact ⟨trivial, trivial, List.forall_mem_nil _⟩
  · have h := hreturns [.ok ⟨.sequence, ["1"], none⟩] (.reply ⟨.sequence, [], none⟩) .anywhere x rfl
      rfl rfl (fun _ _ => .inl rfl) (fun hbreakdown => by cases hbreakdown)
    rw [hyield] at h
    exact h

end RowStream
