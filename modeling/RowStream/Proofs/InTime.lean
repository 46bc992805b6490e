import RowStream.Proofs.Cues
import RowStream.Proofs.ReadAhead

/-!
# Fetching ahead in time

After a cue a fetch is under way until the next reply comes in.  Whether there is a cue before the
stock runs out depends on the texts that the last reply left: an advance passes from two batches to
none if the batch before the last one has no rows, and a reply may leave no batch at all.  Neither
is noticed; with all other texts somebody fetches by the time that the stock is down to one batch.
-/

namespace RowStream

variable {setup : Setup} {c c' : Cursor} {s s' start : System} {stages : List Stage} {move : Move}
  {happenings : List Happening} {t : Target}

/-! ## 1. The texts that a reply leaves -/

/-- The texts that are queued after a reply that is added. -/
def Stage.stock? (stage : Stage) : Option (List String) :=
  stage.accepted?.map fun reply => stage.before.cursor.batches.toList ++ reply.texts

/-- The texts that were queued after the last reply that was added. -/
def stock (stages : List Stage) : List String := lastSaid Stage.stock? [] stages

/-- Whether no row is taken of the texts while one of them is left: there is none, or the one before
the last has no rows. -/
def Setup.PassesOne (setup : Setup) (texts : List String) : Prop :=
  texts = [] ∨ ∃ before text last, texts = before ++ [text, last] ∧ setup.rows text = .ok []

theorem stock_concat (stages : List Stage) (stage : Stage) :
    stock (stages ++ [stage]) = stage.stock?.getD (stock stages) := lastSaid_concat ..

theorem stock_concat_of_still (stages : List Stage) {stage : Stage} (h : stage.accepted? = none) :
    stock (stages ++ [stage]) = stock stages := by
  rw [stock_concat, Stage.stock?, h]
  rfl

theorem Setup.not_passesOne_singleton (setup : Setup) (text : String) :
    ¬ setup.PassesOne [text] := by
  rintro (hnone | ⟨before, first, last, htexts, -⟩)
  · cases hnone
  · have hlength := congrArg List.length htexts
    rw [List.length_append] at hlength
    exact absurd hlength (by simp)

theorem Setup.not_passesOne_of_rows {before : List String} {text last : String} {row : Datum}
    {rows : List Datum} (hread : setup.rows text = .ok (row :: rows)) :
    ¬ setup.PassesOne (before ++ [text, last]) := by
  rintro (hnone | ⟨before', text', last', htexts, hempty⟩)
  · cases (List.append_eq_nil_iff.mp hnone).2
  · obtain ⟨-, hsame⟩ := List.append_inj' htexts rfl
    cases hsame
    cases hread.symm.trans hempty

/-! ## 2. Before a cue -/

/-- Whether an advance has taken a batch off the queue and neither queued its rows nor recorded that
it cannot be read. -/
def Next.Phase.unpacks : Phase → Bool
  | .refill _ | .failed _ => true
  | _ => false

/-- How a cursor and the one advance on it may stand to the texts that the last reply left, if the
stock has not been found down to one batch since. -/
inductive Cursor.Uncued (setup : Setup) (texts : List String) (c : Cursor)
    (reading? : Option ((t : Target) × Next t)) : Prop
  | plenty {read : List String} (htexts : texts = read ++ c.batches.toList)
    (hsize : 1 < c.batches.size)
  /-- The batch before the last one has been taken off the queue. -/
  | unpacks {before : List String} {text last : String} {rows : List Datum} {t : Target}
    {slot : t.Slot} (htexts : texts = before ++ [text, last]) (hleft : c.batches.toList = [last])
    (hread : setup.rows text = .ok rows) (hempty : c.rows.toList = [])
    (hreading : reading? = some ⟨t, ⟨slot, .refill rows⟩⟩)
  | fails {t : Target} {slot : t.Slot} {e : Error}
    (hreading : reading? = some ⟨t, ⟨slot, .failed e⟩⟩)
  | passed (hempty : c.batches.toList = []) (hpasses : setup.PassesOne texts)

-- A reply is followed by a look at all that is queued.
theorem Cursor.cued_or_uncued_of_reply (setup : Setup) (c : Cursor)
    (reading? : Option ((t : Target) × Next t)) :
    (c.batches.toList.length == 1) = true ∧ ¬ setup.PassesOne c.batches.toList ∨
      (c.batches.toList.length == 1) = false ∧
        c.Uncued setup c.batches.toList reading? := by
  cases htexts : c.batches.toList with
  | nil => exact .inr ⟨rfl, .passed htexts (.inl rfl)⟩
  | cons text rest =>
    cases rest with
    | nil => exact .inl ⟨rfl, setup.not_passesOne_singleton text⟩
    | cons second rest =>
      have hsplit : text :: second :: rest = [] ++ c.batches.toList := htexts.symm
      refine .inr ⟨rfl, .plenty hsplit ?_⟩
      rw [Queue.size_eq_length, htexts]
      exact Nat.succ_lt_succ (Nat.succ_pos _)

namespace Cursor.Uncued

variable {texts : List String} {reading? reading'? : Option ((t : Target) × Next t)}

-- The rows at hand and the advance matter only while a batch is in hand.
theorem congr (h : c.Uncued setup texts reading?) (hbatches : c'.batches.toList = c.batches.toList)
    (hkept : ∀ {t : Target} {n : Next t}, reading? = some ⟨t, n⟩ → n.phase.unpacks = true →
      c'.rows.toList = c.rows.toList ∧ reading'? = some ⟨t, n⟩) :
    c'.Uncued setup texts reading'? := by
  cases h with
  | plenty htexts hsize =>
    rw [Queue.size_eq_length] at hsize
    exact .plenty (htexts.trans (congrArg _ hbatches.symm))
      (by rwa [Queue.size_eq_length, hbatches])
  | unpacks htexts hleft hread hempty hreading =>
    obtain ⟨hrows, hreading'⟩ := hkept hreading rfl
    exact .unpacks htexts (hbatches.trans hleft) hread (hrows.trans hempty) hreading'
  | fails hreading => exact .fails (hkept hreading rfl).2
  | passed hempty hpasses => exact .passed (hbatches.trans hempty) hpasses

theorem of_idle (h : c.Uncued setup texts reading?)
    (hbatches : c'.batches.toList = c.batches.toList)
    (hidle : ∀ {t : Target} {n : Next t}, reading? = some ⟨t, n⟩ → n.phase.unpacks = false) :
    c'.Uncued setup texts reading'? :=
  h.congr hbatches fun hreading hunpacks => by cases (hidle hreading).symm.trans hunpacks

theorem passesOne (h : c.Uncued setup texts reading?) (hsize : c.batches.size ≤ 1)
    (hidle : ∀ {t : Target} {n : Next t}, reading? = some ⟨t, n⟩ → n.phase.unpacks = false) :
    c.batches.toList = [] ∧ setup.PassesOne texts := by
  cases h with
  | plenty _ hplenty => omega
  | unpacks _ _ _ _ hreading => cases hidle hreading
  | fails hreading => cases hidle hreading
  | passed hempty hpasses => exact ⟨hempty, hpasses⟩

-- With one batch left, the rows that an advance sees are those of the batch before it.
theorem of_sight {slot : t.Slot} {phase : Next.Phase} {sight : Cursor}
    (h : c.Uncued setup texts (some ⟨t, ⟨slot, phase⟩⟩)) (hsight : phase.sight? c = some sight) :
    (∃ read, texts = read ++ sight.batches.toList ∧ 1 < sight.batches.size) ∨
      sight.batches.size ≤ 1 ∧
        (setup.PassesOne texts ↔ (sight.batches.size = 1 → sight.rows.toList = [])) := by
  obtain ⟨hrows, hbatches, -⟩ := Next.sight?_account (n := ⟨slot, phase⟩) hsight
  rw [hbatches, Queue.size_eq_length]
  cases h with
  | plenty htexts hsize =>
    rw [Queue.size_eq_length] at hsize
    exact .inl ⟨_, htexts, hsize⟩
  | @unpacks before text last rows t slot htexts hleft hread hempty hreading =>
    cases hreading
    have hsees : sight.rows.toList = rows := by rw [hrows, hempty]; rfl
    rw [hleft, hsees, htexts]
    refine .inr ⟨Nat.le_refl 1, fun hpasses _ => ?_, fun hnone => ?_⟩
    · cases rows with
      | nil => rfl
      | cons row rows => exact absurd hpasses (Setup.not_passesOne_of_rows hread)
    · exact .inr ⟨before, text, last, rfl, hnone rfl ▸ hread⟩
  | fails hreading =>
    cases hreading
    cases hsight
  | passed hempty hpasses =>
    rw [hempty]
    exact .inr ⟨Nat.zero_le 1, fun _ => nofun, fun _ => hpasses⟩

end Cursor.Uncued

section

variable {texts : List String} {reading'? : Option ((t : Target) × Next t)} {slot : t.Slot}
  {sight : Cursor} {turn : Turn (Next t)}

-- A look that takes no row with one batch left leaves none if there was one at most.
theorem Next.Looks.empties (h : Looks setup sight slot turn) (hsize : sight.batches.size ≤ 1)
    (hquiet : sight.batches.size = 1 → sight.rows.toList = []) :
    turn.cursor.batches.toList = [] := by
  rw [Queue.size_eq_length] at hsize hquiet
  cases h with
  | @row row rows hpop =>
    rw [Queue.toList_of_pop?_eq_some hpop] at hquiet
    have hnot : sight.batches.toList.length ≠ 1 := fun hone => List.cons_ne_nil _ _ (hquiet hone)
    exact List.length_eq_zero_iff.mp (show sight.batches.toList.length = 0 by omega)
  | batch _ hpop | badBatch _ hpop =>
    rw [Queue.toList_of_pop?_eq_some hpop, List.length_cons] at hsize
    exact List.length_eq_zero_iff.mp (by dsimp only; omega)
  | error _ hempty | finished _ hempty | closed _ hempty | fetch _ hempty => exact hempty

theorem Next.Looks.uncued_of_plenty {read : List String} (h : Looks setup sight slot turn)
    (htexts : texts = read ++ sight.batches.toList) (hsize : 1 < sight.batches.size)
    (hnext : turn.next.result? = none → reading'? = some ⟨t, turn.next⟩) :
    turn.cursor.Uncued setup texts reading'? := by
  have hnot : sight.batches.toList ≠ [] := fun hempty => by
    rw [Queue.size_eq_length, hempty] at hsize
    cases hsize
  cases h with
  | row => exact .plenty htexts hsize
  | @batch text batches rows hempty hpop hread =>
    rw [Queue.toList_of_pop?_eq_some hpop] at htexts
    by_cases hleft : 1 < batches.size
    · exact .plenty (htexts.trans (List.append_cons ..)) hleft
    · rw [Queue.size_eq_length, Queue.toList_of_pop?_eq_some hpop, List.length_cons] at hsize
      rw [Queue.size_eq_length] at hleft
      obtain ⟨last, hlast⟩ := List.length_eq_one_iff.mp (show batches.toList.length = 1 by omega)
      rw [hlast] at htexts
      exact .unpacks htexts hlast hread hempty (hnext rfl)
  | badBatch => exact .fails (hnext rfl)
  | error _ hempty | finished _ hempty | closed _ hempty | fetch _ hempty =>
    exact absurd hempty hnot

end

theorem Next.Steps.uncued {texts : List String} {reading'? : Option ((t : Target) × Next t)}
    {n : Next t} {turn : Turn (Next t)} (h : Steps setup c n turn)
    (huncued : c.Uncued setup texts (some ⟨t, n⟩))
    (hquiet : c.cue? (n.fetch?.bind (Fetch.accepts? c)) (n.takesRow c) = none)
    (hopen : turn.cursor.canContinue = true)
    (hnext : turn.next.result? = none → reading'? = some ⟨t, turn.next⟩) :
    turn.cursor.Uncued setup texts reading'? := by
  have hidle (hphase : n.phase.unpacks = false) {t' : Target} {n' : Next t'}
      (hreading : (some ⟨t, n⟩ : Option ((t : Target) × Next t)) = some ⟨t', n'⟩) :
      n'.phase.unpacks = false := by
    cases hreading
    exact hphase
  obtain ⟨hstill, hnone⟩ := Cursor.of_cue?_eq_none hquiet
  cases h with
  | enters | ends | sleeps => exact huncued.of_idle rfl (hidle rfl)
  | @looks slot phase sight turn hsight hlooks =>
    obtain ⟨-, hbatches, -⟩ := sight?_account (n := ⟨slot, phase⟩) hsight
    rw [← hbatches, takesRow_of_sight (n := ⟨slot, phase⟩) hsight] at hnone
    have hrows (hone : sight.batches.size = 1) : sight.rows.toList = [] := by
      have hempty := hnone hone
      rw [Bool.not_eq_false', Queue.isEmpty, Queue.size_eq_length] at hempty
      exact List.length_eq_zero_iff.mp (eq_of_beq hempty)
    rcases huncued.of_sight hsight with ⟨read, htexts, hsize⟩ | ⟨hsize, hpasses⟩
    · exact hlooks.uncued_of_plenty htexts hsize hnext
    · exact .passed (hlooks.empties hsize hrows) (hpasses.mpr hrows)
  | @fetches slot f turn hstep =>
    refine huncued.of_idle ?_ (hidle rfl)
    rw [Turn.map, hstep.toList_batches, show f.accepts? c = none from hstill]
    exact List.append_nil _
  | records slot e =>
    cases (c.not_canContinue_record e).symm.trans hopen
  | @closes slot close turn hstep =>
    refine huncued.of_idle ?_ (hidle rfl)
    cases hstep <;> rfl

theorem Call.Works.uncued {texts : List String} {call : Call} {turn : Turn Call}
    (h : Works setup c call turn) (huncued : c.Uncued setup texts call.reading?)
    (hquiet : c.cue? (call.fetch?.bind (Fetch.accepts? c)) (call.takesRow c) = none)
    (hopen : turn.cursor.canContinue = true) :
    turn.cursor.Uncued setup texts turn.next.reading? := by
  have hidle (hnone : call.reading? = none) {t : Target} {n : Next t}
      (hreading : call.reading? = some ⟨t, n⟩) : n.phase.unpacks = false := by
    cases hnone.symm.trans hreading
  cases h with
  | advances hreading hstep hfetch hnextFetch hnext hcursor hevents =>
    rw [takesRow, hreading, hfetch] at hquiet
    rw [hreading] at huncued
    rw [hcursor] at hopen ⊢
    exact hstep.uncued huncued hquiet hopen hnext
  | @closes x inner hreading hstep hfetch hnextFetch hcursor hevents =>
    refine huncued.of_idle ?_ (hidle hreading)
    rw [hcursor]
    cases hstep <;> rfl
  | @adds f inner hreading hstep hfetch hnextFetch hcursor hevents =>
    obtain ⟨hstill, -⟩ := Cursor.of_cue?_eq_none hquiet
    rw [hfetch] at hstill
    refine huncued.of_idle ?_ (hidle hreading)
    rw [hcursor, hstep.toList_batches, show f.accepts? c = none from hstill]
    exact List.append_nil _
  | judges hreading hfetch hnextFetch hcursor hevents =>
    exact huncued.of_idle (by rw [hcursor]) (hidle hreading)

-- A row that is taken with one batch left is one of the batch before it.
theorem Cursor.Uncued.not_passesOne {texts : List String} {call : Call}
    (h : c.Uncued setup texts call.reading?) (hsize : c.batches.size = 1)
    (htakes : call.takesRow c = true) : ¬ setup.PassesOne texts := by
  unfold Call.takesRow at htakes
  split at htakes
  next t n hreading =>
    rw [hreading] at h
    cases hsight : n.phase.sight? c with
    | none =>
      rw [Next.takesRow, hsight] at htakes
      cases htakes
    | some sight =>
      obtain ⟨-, hbatches, -⟩ := Next.sight?_account hsight
      rw [Next.takesRow_of_sight hsight] at htakes
      rw [← hbatches] at hsize
      rcases h.of_sight hsight with ⟨read, -, hplenty⟩ | ⟨-, hpasses⟩
      · omega
      · intro hpassed
        rw [Queue.isEmpty, Queue.size_eq_length, hpasses.mp hpassed hsize] at htakes
        cases htakes
  next => cases htakes

/-! ## 3. Runs one operation after another -/

theorem Call.reading?_wake_of_reading? {call : Call} {n : Next t}
    (h : call.reading? = some ⟨t, n⟩) : call.wake.reading? = some ⟨t, n.wake⟩ := by
  cases call with
  | next n => cases h; rfl
  | one o => cases o <;> cases h; rfl
  | all a => cases a <;> cases h; rfl
  | item i => cases i <;> cases h; rfl
  | close | extend => cases h

theorem Call.not_unpacks_of_ended {call : Call} {n : Next t}
    (hended : (call.isDone || call.isAborted) = true) (h : call.reading? = some ⟨t, n⟩) :
    n.phase.unpacks = false := by
  have hlast (hn : n.result?.isSome = true ∨ n.isAborted = true) : n.phase.unpacks = false := by
    obtain ⟨slot, phase⟩ := n
    cases phase <;> first | rfl | rcases hn with hn | hn <;> cases hn
  cases call with
  | next n => cases h; exact hlast (Bool.or_eq_true _ _ ▸ hended)
  | one o => cases o <;> cases h; exact hlast (.inr hended)
  | all a => cases a <;> cases h; exact hlast (.inr hended)
  | item i => cases i <;> cases h; exact hlast (.inr hended)
  | close | extend => cases h

theorem Fetch.step_of_accepts (setup : Setup) {f : Fetch} {reply : Reply}
    (h : f.accepts? c = some reply) :
    ∃ turn, f.step setup c = some turn := by
  cases f with
  | fold outcome => cases outcome <;> exact ⟨_, rfl⟩
  | _ => cases (accepts?_of_brings?_eq_none rfl).symm.trans h

theorem Task.Steps.toList_batches {task : Task} {turn : Turn Task} (h : Steps setup c task turn) :
    turn.cursor.batches.toList =
      c.batches.toList ++ ((task.fetch?.bind (Fetch.accepts? c)).map Reply.texts).getD [] := by
  cases h with
  | fetches hstep => exact hstep.toList_batches
  | notices =>
    rw [Task.fetch?, Option.bind_some, Fetch.accepts?_of_brings?_eq_none rfl]
    exact (List.append_nil _).symm
  | reports | tells => exact (List.append_nil _).symm

namespace System

/-- The advance that the operation under way is in. -/
def advance? (s : System) : Option ((t : Target) × Next t) := s.calls.head?.bind Call.reading?

/-- How a system stands to the texts that the last reply left before a cue. -/
def Uncued (setup : Setup) (texts : List String) (s : System) : Prop :=
  s.cursor.Uncued setup texts s.advance?

variable {texts : List String}

-- Whoever wakes stays in an advance that has a batch in hand.
theorem Uncued.after {calls : List Call} {tasks : List Task}
    (h : Uncued setup texts ⟨c, calls, tasks⟩) (tasks' : List Task) (events : List Event) :
    Uncued setup texts (after c calls tasks' events) := by
  refine h.congr rfl fun {t n} hreading hunpacks => ⟨rfl, ?_⟩
  have hawake : n.wake = n := by
    obtain ⟨slot, phase⟩ := n
    cases phase <;> first | rfl | cases hunpacks
  obtain ⟨call, hcall, hreading⟩ := Option.bind_eq_some_iff.mp hreading
  unfold System.after advance?
  dsimp only
  split
  · rw [List.head?_map, show calls.head? = some call from hcall]
    exact (Call.reading?_wake_of_reading? hreading).trans (by rw [hawake])
  · rw [show calls.head? = some call from hcall]
    exact hreading

theorem Uncued.step (h : s.Uncued setup texts) (hlength : s.calls.length ≤ 1)
    (hturn : (Stage.mk s move happenings).Sequential)
    (hmove : s.move? setup move = some (s', happenings))
    (hquiet : (Stage.mk s move happenings).cue? = none) (hopen : s'.cursor.canContinue = true) :
    s'.Uncued setup texts := by
  unfold Uncued at h
  cases move with
  | begin op =>
    cases hmove
    have hnone : s.calls = [] := hturn op rfl
    rw [advance?, hnone] at h
    exact h.of_idle rfl nofun
  | call place =>
    obtain ⟨before, call, later, turn, hcalls, rfl, hstep, rfl, rfl⟩ := move?_call hmove
    obtain ⟨rfl, rfl⟩ := alone_of_length_le hlength hcalls
    rw [Stage.cue?_call (getElem?_of_split hcalls)] at hquiet
    rw [advance?, hcalls] at h
    have hnext : Uncued setup texts ⟨turn.cursor, [turn.next], s.tasks⟩ :=
      (Call.works_of_step hstep).uncued h hquiet hopen
    exact hnext.after ..
  | answerCall place a =>
    obtain ⟨before, call, later, kind, hcalls, rfl, hawaits, rfl, rfl⟩ := move?_answerCall hmove
    obtain ⟨rfl, rfl⟩ := alone_of_length_le hlength hcalls
    rw [advance?, hcalls] at h
    refine h.of_idle rfl fun {t n} hreading => ?_
    rw [Call.awaits?_of_reading? hreading] at hawaits
    obtain ⟨slot, phase⟩ := n
    cases phase <;> first | rfl | cases hawaits
  | collect place =>
    obtain ⟨before, call, later, hcalls, rfl, hended, rfl, rfl⟩ := move?_collect hmove
    obtain ⟨rfl, rfl⟩ := alone_of_length_le hlength hcalls
    rw [advance?, hcalls] at h
    exact h.of_idle rfl fun hreading => Call.not_unpacks_of_ended hended hreading
  | task place =>
    obtain ⟨before, task, later, turn, htasks, rfl, hstep, rfl, rfl⟩ := move?_task hmove
    rw [Stage.cue?_task (getElem?_of_split htasks)] at hquiet
    obtain ⟨hstill, -⟩ := Cursor.of_cue?_eq_none hquiet
    have hsteps := Task.steps_of_step hstep
    have hbatches : turn.cursor.batches.toList = s.cursor.batches.toList := by
      rw [hsteps.toList_batches, hstill]
      exact List.append_nil _
    have hnext : Uncued setup texts ⟨turn.cursor, s.calls, s.tasks⟩ :=
      h.congr hbatches fun hreading _ => ⟨by rw [hsteps.adds.1], hreading⟩
    exact hnext.after ..
  | answerTask place a =>
    obtain ⟨before, task, later, kind, htasks, rfl, hawaits, rfl, rfl⟩ := move?_answerTask hmove
    exact h

theorem toList_batches_of_accepted (hmove : s.move? setup move = some (s', happenings))
    {reply : Reply} (haccepted : (Stage.mk s move happenings).accepted? = some reply) :
    s'.cursor.batches.toList = s.cursor.batches.toList ++ reply.texts := by
  cases move with
  | call place =>
    obtain ⟨before, call, later, turn, hcalls, rfl, hstep, rfl, rfl⟩ := move?_call hmove
    rw [Stage.accepted?_call (getElem?_of_split hcalls)] at haccepted
    obtain ⟨f, hf, haccepts⟩ := Option.bind_eq_some_iff.mp haccepted
    obtain ⟨inner, hinner⟩ := Fetch.step_of_accepts setup haccepts
    obtain ⟨next, hnext⟩ := Call.step_of_fetch? hf hinner
    cases hstep.symm.trans hnext
    rw [cursor_after, (Fetch.steps_of_step hinner).toList_batches, haccepts]
    rfl
  | task place =>
    obtain ⟨before, task, later, turn, htasks, rfl, hstep, rfl, rfl⟩ := move?_task hmove
    rw [Stage.accepted?_task (getElem?_of_split htasks)] at haccepted
    rw [cursor_after, (Task.steps_of_step hstep).toList_batches, haccepted]
    rfl
  | begin | answerCall | collect | answerTask => cases haccepted

theorem Uncued.not_passesOne (h : s.Uncued setup texts) (hlength : s.calls.length ≤ 1)
    (hone : s.cursor.batches.size = 1) (htakes : (Stage.mk s move happenings).takesRow = true) :
    ¬ setup.PassesOne texts := by
  cases move with
  | call place =>
    change (s.calls[place]?.map (Call.takesRow s.cursor)).getD false = true at htakes
    cases hcall : s.calls[place]? with
    | none =>
      rw [hcall] at htakes
      cases htakes
    | some call =>
      rw [hcall] at htakes
      obtain ⟨before, later, hcalls⟩ := List.append_of_mem (List.mem_of_getElem? hcall)
      obtain ⟨rfl, rfl⟩ := alone_of_length_le hlength hcalls
      rw [Uncued, advance?, hcalls] at h
      exact Cursor.Uncued.not_passesOne h hone htakes
  | _ => cases htakes

end System

/-- The stock has been found down to one batch just if the texts that the last reply left make sure
of it; otherwise advances pass from two batches to none, or are about to. -/
theorem Run.cued_or_uncued {release : Bool} (hrun : Run setup (.opened release) stages s)
    (hturns : ∀ stage ∈ stages, stage.Sequential) (hopen : s.cursor.canContinue = true) :
    cued stages = true ∧ ¬ setup.PassesOne (stock stages) ∨
      cued stages = false ∧ s.Uncued setup (stock stages) := by
  induction hrun with
  | nil => exact .inr ⟨rfl, .passed Queue.toList_empty (.inl rfl)⟩
  | @snoc stages s s' move happenings hrun hmove ih =>
    simp only [List.mem_append, List.mem_singleton] at hturns
    have hbefore : ∀ stage ∈ stages, stage.Sequential := fun stage hstage =>
      hturns stage (.inl hstage)
    have hturn := hturns _ (.inr rfl)
    have hlength := (hrun.tally rfl hbefore).1
    rw [cued_concat]
    cases haccepted : (Stage.mk s move happenings).accepted? with
    | some reply =>
      have hcue : (Stage.mk s move happenings).cue? =
          some (s.cursor.batches.size + reply.texts.length == 1) := by
        rw [Stage.cue?, haccepted]
        rfl
      have hbatches := System.toList_batches_of_accepted hmove haccepted
      have hstock : stock (stages ++ [⟨s, move, happenings⟩]) = s'.cursor.batches.toList := by
        rw [stock_concat, Stage.stock?, haccepted, hbatches]
        rfl
      have hsize : s'.cursor.batches.toList.length =
          s.cursor.batches.size + reply.texts.length := by
        rw [hbatches, List.length_append, Queue.size_eq_length]
      rw [hcue, hstock, ← hsize]
      exact Cursor.cued_or_uncued_of_reply setup s'.cursor s'.advance?
    | none =>
      have hstill := System.canContinue_of_move hmove haccepted hopen
      rw [stock_concat_of_still stages haccepted]
      cases hcue : (Stage.mk s move happenings).cue? with
      | none =>
        refine (ih hbefore hstill).imp_right fun h => ?_
        exact ⟨h.1, h.2.step hlength hturn hmove hcue hopen⟩
      | some found =>
        obtain ⟨rfl, htakes, hone⟩ := Stage.takes_of_cue? haccepted hcue
        refine .inl ⟨rfl, ?_⟩
        rcases ih hbefore hstill with ⟨-, hpasses⟩ | ⟨-, huncued⟩
        · exact hpasses
        · exact huncued.not_passesOne hlength hone htakes

/-! ## 4. Fetches in the background -/

namespace System

/-- Whether a fetch in the background is under way. -/
def FetchesAhead (s : System) : Prop :=
  ∃ task ∈ s.tasks, ∃ f, task.fetch? = some f ∧ f.underWay = true

/-- Whether an advance has just found a row and the cursor can continue, with no batch left and no
fetch in the background that has yet to end. -/
structure Lapses (s : System) (row : Datum) : Prop where
  found : s.calls = [.next (⟨row, .done true⟩ : Next .datum)]
  opened : s.cursor.canContinue = true
  empty : s.cursor.batches.size = 0
  idle : ∀ task ∈ s.tasks, task.isDone = true

theorem fetchesAhead_of_underWay (hdone : ∀ call ∈ s.calls, call.isDone = true)
    (hunbroken : ∀ call ∈ s.calls, call.fetch? ≠ some .aborted) (h : 0 < s.underWay) :
    s.FetchesAhead := by
  by_contra hnone
  have hcalls : (s.calls.map fun call => Fetch.count Fetch.underWay call.fetch?).sum = 0 := by
    refine List.sum_eq_zero fun n hn => ?_
    obtain ⟨call, hmem, rfl⟩ := List.mem_map.mp hn
    cases hf : call.fetch? with
    | none => rfl
    | some f =>
      have hended : (call.isDone || call.isAborted) = true := by rw [hdone call hmem, Bool.true_or]
      obtain ⟨outcome, rfl⟩ := Call.done_of_ended hended (hunbroken call hmem) hf
      rfl
  have htasks : (s.tasks.map fun task => Fetch.count Fetch.underWay task.fetch?).sum = 0 := by
    refine List.sum_eq_zero fun n hn => ?_
    obtain ⟨task, hmem, rfl⟩ := List.mem_map.mp hn
    cases hf : task.fetch? with
    | none => rfl
    | some f =>
      show f.underWay.toNat = 0
      rw [Bool.eq_false_iff.mpr fun hunder => hnone ⟨task, hmem, f, hf, hunder⟩]
      rfl
  rw [underWay, counting, hcalls, htasks] at h
  cases h

theorem Calm.not_fetchesAhead (h : s.Calm) : ¬ s.FetchesAhead := by
  rintro ⟨task, hmem, f, hf, hunder⟩
  obtain ⟨before, later, htasks⟩ := List.append_of_mem hmem
  rw [Calm, counting_task htasks, hf] at h
  have hone : Fetch.count Fetch.underWay (some f) = 1 := by
    show f.underWay.toNat = 1
    rw [hunder]
    rfl
  omega

end System

theorem Run.cued_or_passesOne {release : Bool} (hrun : Run setup (.opened release) stages s)
    (hturns : ∀ stage ∈ stages, stage.Sequential) (hdone : ∀ call ∈ s.calls, call.isDone = true)
    (hopen : s.cursor.canContinue = true) (hsize : s.cursor.batches.size ≤ 1) :
    cued stages = true ∧ ¬ setup.PassesOne (stock stages) ∨
      cued stages = false ∧ s.cursor.batches.size = 0 ∧ setup.PassesOne (stock stages) := by
  refine (hrun.cued_or_uncued hturns hopen).imp_right fun huncued => ?_
  have hidle {t : Target} {n : Next t} (hreading : s.advance? = some ⟨t, n⟩) :
      n.phase.unpacks = false := by
    obtain ⟨call, hcall, hreading⟩ := Option.bind_eq_some_iff.mp hreading
    have hended : (call.isDone || call.isAborted) = true := by
      rw [hdone call (List.mem_of_head? hcall), Bool.true_or]
    exact Call.not_unpacks_of_ended hended hreading
  obtain ⟨hempty, hpasses⟩ := huncued.2.passesOne hsize hidle
  refine ⟨huncued.1, ?_, hpasses⟩
  rw [Queue.size_eq_length, hempty]
  rfl

/-! ## 5. Runs that pass over one batch -/

namespace Trail

variable {text last : String} {row second : Datum} {rows : List Datum}

-- The last batch is gone when its first row is taken, so the stock is not low.
theorem of_last_batch {sight : Cursor} {n : Next .datum} {rest : Queue String}
    (hstep : n.step setup c = some (Next.look setup sight n.slot)) (hfetch : n.fetch? = none)
    (hempty : sight.rows.toList = []) (hpop : sight.batches.pop? = some (text, rest))
    (hrest : rest.toList = []) (hread : setup.rows text = .ok (row :: rows)) (tasks : List Task) :
    ∃ left, left.toList = rows ∧ Trail setup ⟨c, [.next n], tasks⟩
      ⟨{ sight with rows := left, batches := rest },
        [.next (⟨row, .done true⟩ : Next .datum)], tasks⟩ [] 0 0 := by
  let spent : Cursor := { sight with batches := rest }
  let full : Cursor := { spent with rows := spent.rows.pushAll (row :: rows) }
  have hrows : full.rows.toList = row :: rows := by
    rw [Queue.toList_pushAll, hempty, List.nil_append]
  obtain ⟨left, hrow, hleft⟩ := Queue.pop?_of_toList_eq_cons hrows
  have hbatch : Trail setup ⟨c, [.next n], tasks⟩
      ⟨spent, [.next (⟨n.slot, .refill (row :: rows)⟩ : Next .datum)], tasks⟩ [] 0 0 :=
    of_batch hstep hfetch hempty hpop hread tasks
  have hrefill : (⟨n.slot, .refill (row :: rows)⟩ : Next .datum).step setup spent =
      some (Next.look setup full n.slot) := rfl
  have hlow : full.runsLow = false := by
    refine Cursor.not_runsLow_of_size ?_
    rw [Queue.size_eq_length, hrest]
    rfl
  exact ⟨left, hleft, hbatch.append (of_quiet_row hrefill rfl hrow hlow tasks)⟩

/-- The first reply brings one batch, and a fetch is scheduled for the next. -/
theorem first_batch (release : Bool) (hprefetch : setup.options.prefetch = true) (text : String) :
    Trail setup (.opened release)
      ⟨{ batches := Queue.empty.pushAll [text], release }, [], [.scheduled]⟩
      [.extend ⟨.partialSequence, [text], none⟩] 0 0 := by
  let reply : Reply := ⟨.partialSequence, [text], none⟩
  let c : Cursor := { batches := Queue.empty.pushAll [text], release }
  have hfold : (Call.extend (.fold (.ok reply))).step setup { release } =
      some ⟨c, .extend (.wake (.ok true) c.runsLow), []⟩ := rfl
  have hlow : c.runsLow = true := by
    rw [Cursor.runsLow, Queue.size_eq_length, Queue.toList_pushAll, Queue.toList_empty]
    rfl
  rw [hlow] at hfold
  have hwake : (Call.extend (.wake (.ok true) true)).step setup c =
      some ⟨c, .extend (.ahead (.ok true)), [.notified]⟩ := rfl
  have hahead : (Call.extend (.ahead (.ok true))).step setup c =
      some ⟨c, .extend (.done (.ok true)), [.scheduled]⟩ := by
    simp [Call.step, Fetch.step, Cursor.schedule, hprefetch, Turn.map, c]
  have hadd : Trail setup ⟨{ release }, [.extend (.fold (.ok reply))], []⟩
      ⟨c, [.extend (.wake (.ok true) true)], []⟩ [] 0 0 := by
    refine (of_move (System.move?_of_call hfold [])).congr rfl ?_ (ite_self 0)
    exact ite_self 0
  exact ((((of_begin { release } (.extend reply) []).append hadd).append
    (of_call hwake rfl rfl)).append (of_call hahead rfl rfl)).append (of_collect rfl)

-- The batch before the last one has no rows.
theorem of_empty_batch (release : Bool) (hempty : setup.rows text = .ok [])
    (hread : setup.rows last = .ok (row :: rows)) : ∃ s, Trail setup (.opened release) s
      [.extend ⟨.partialSequence, [text, last], none⟩, .next (t := .datum) Datum.null] 0 0 ∧
        s.Lapses row := by
  have htexts : (Queue.empty.pushAll [text, last]).toList = [text, last] := by
    rw [Queue.toList_pushAll, Queue.toList_empty, List.nil_append]
  obtain ⟨one, hfirst, hone⟩ := Queue.pop?_of_toList_eq_cons htexts
  obtain ⟨none, hlast, hnone⟩ := Queue.pop?_of_toList_eq_cons hone
  let both : Cursor := { batches := Queue.empty.pushAll [text, last], release }
  let low : Cursor := { batches := one, release }
  have hreply : Trail setup (.opened release) ⟨both, [], []⟩
      [.extend ⟨.partialSequence, [text, last], Option.none⟩] 0 0 :=
    first_reply setup release Nat.one_lt_two
  have hlook : (⟨Datum.null, .look⟩ : Next .datum).step setup both =
      some (Next.look setup both Datum.null) := rfl
  have hbatch : Trail setup ⟨both, [.next (⟨Datum.null, .look⟩ : Next .datum)], []⟩
      ⟨low, [.next (⟨Datum.null, .refill []⟩ : Next .datum)], []⟩ [] 0 0 :=
    of_batch hlook rfl Queue.toList_empty hfirst hempty []
  have hrefill : (⟨Datum.null, .refill []⟩ : Next .datum).step setup low =
      some (Next.look setup { low with rows := low.rows.pushAll [] } Datum.null) := rfl
  obtain ⟨left, -, hlastBatch⟩ := of_last_batch hrefill rfl Queue.toList_empty hlast hnone hread []
  have hall := ((hreply.append (enter (c := both) rfl [])).append hbatch).append hlastBatch
  refine ⟨_, hall, rfl, rfl, ?_, nofun⟩
  rw [Queue.size_eq_length]
  exact congrArg List.length hnone

-- The first reply brings one batch, and the fetch that it cues brings none while rows of the batch
-- are at hand.
theorem of_empty_reply (release : Bool) (hprefetch : setup.options.prefetch = true)
    (hread : setup.rows text = .ok (row :: second :: rows)) : ∃ s, Trail setup (.opened release) s
      [.extend ⟨.partialSequence, [text], none⟩, .next (t := .datum) Datum.null,
        .next (t := .datum) Datum.null] 0 0 ∧ s.Lapses second := by
  have htexts : (Queue.empty.pushAll [text]).toList = [text] := by
    rw [Queue.toList_pushAll, Queue.toList_empty, List.nil_append]
  obtain ⟨none, hpop, hnone⟩ := Queue.pop?_of_toList_eq_cons htexts
  let low : Cursor := { batches := Queue.empty.pushAll [text], release }
  have hlook : (⟨Datum.null, .look⟩ : Next .datum).step setup low =
      some (Next.look setup low Datum.null) := rfl
  obtain ⟨rest, hrest, hfirst⟩ :=
    of_last_batch hlook rfl Queue.toList_empty hpop hnone hread [.scheduled]
  obtain ⟨left, hsecond, -⟩ := Queue.pop?_of_toList_eq_cons hrest
  let behind : Cursor := { rows := rest, batches := none, release }
  have hsize : behind.batches.size = 0 := by
    rw [Queue.size_eq_length]
    exact congrArg List.length hnone
  have hlow : behind.runsLow = false := Cursor.not_runsLow_of_size (by rw [hsize]; rfl)
  have hreply : Trail setup (.opened release) ⟨low, [], [.scheduled]⟩
      [.extend ⟨.partialSequence, [text], Option.none⟩] 0 0 := first_batch release hprefetch text
  have hfetch : Trail setup ⟨behind, [], [.scheduled]⟩ ⟨behind, [], [.done]⟩ [] 0 0 := by
    refine Trail.congr (fetch setup behind ⟨.partialSequence, [], Option.none⟩ rfl rfl hlow [] [])
      rfl ?_ ?_
    · rw [Cursor.stocked, hsize]
      rfl
    · rw [Cursor.stocked, hsize]
      rfl
  have hagain : (⟨Datum.null, .look⟩ : Next .datum).step setup behind =
      some (Next.look setup behind Datum.null) := rfl
  have htakes : Trail setup ⟨behind, [.next (⟨Datum.null, .look⟩ : Next .datum)], [.done]⟩
      ⟨{ behind with rows := left }, [.next (⟨second, .done true⟩ : Next .datum)], [.done]⟩
      [] 0 0 :=
    of_quiet_row hagain rfl hsecond hlow [.done]
  have hall := (((((hreply.append (enter (c := low) rfl [.scheduled])).append hfirst).append
    (of_collect rfl)).append hfetch).append (enter (c := behind) rfl [.done])).append htakes
  refine ⟨_, hall, rfl, rfl, hsize, fun task hmem => ?_⟩
  cases List.mem_singleton.mp hmem
  rfl

end Trail

/-! ## 6. The theorem -/

/-- On every run, as long as the cursor can continue: if a look at the stock has found one batch
since the last reply, somebody fetches, and if none has, nobody does in the background, unless
another fetch was under way when that reply came in.

Where one operation follows another, the texts that the last reply left decide.  When the operations
have ended and one batch at most is left, a fetch in the background is under way unless the texts
pass over one batch; if they do, no batch is left, and no fetch was begun for the next one.

There are texts that do, with a batch without rows before the last one and with a reply that brings
no batch: an advance finds a row, and there is neither a batch left nor a fetch under way. -/
theorem fetched_ahead_in_time (setup : Setup) (release : Bool)
    (hprefetch : setup.options.prefetch = true) :
    (∀ {stages : List Stage} {s : System}, Run setup (.opened release) stages s →
      s.cursor.canContinue = true →
      ((∀ stage ∈ stages, ¬ stage.BreaksCall) → cued stages = true → 0 < s.underWay) ∧
      (cued stages = false → cameAlone stages = true → ¬ s.FetchesAhead)) ∧
    (∀ {stages : List Stage} {s : System}, Run setup (.opened release) stages s →
      (∀ stage ∈ stages, stage.Sequential) → (∀ call ∈ s.calls, call.isDone = true) →
      s.cursor.canContinue = true → s.cursor.batches.size ≤ 1 →
      ((∀ stage ∈ stages, ¬ stage.BreaksCall) → ¬ setup.PassesOne (stock stages) →
        s.FetchesAhead) ∧
      (setup.PassesOne (stock stages) → s.cursor.batches.size = 0 ∧
        (cameAlone stages = true → ¬ s.FetchesAhead))) ∧
    (∀ text last row rows, setup.rows text = .ok [] → setup.rows last = .ok (row :: rows) →
      ∃ stages s, Run setup (.opened release) stages s ∧
        begun stages = [.extend ⟨.partialSequence, [text, last], none⟩,
          .next (t := .datum) Datum.null] ∧ s.Lapses row) ∧
    (∀ text first second rows, setup.rows text = .ok (first :: second :: rows) →
      ∃ stages s, Run setup (.opened release) stages s ∧
        begun stages = [.extend ⟨.partialSequence, [text], none⟩, .next (t := .datum) Datum.null,
          .next (t := .datum) Datum.null] ∧ s.Lapses second) := by
  refine ⟨fun hrun hopen => ⟨fun hkept => hrun.underWay_of_cued hprefetch hkept hopen,
    fun hcued halone => (hrun.calm hprefetch hcued halone).not_fetchesAhead⟩, ?_, ?_, ?_⟩
  · intro stages s hrun hturns hdone hopen hsize
    rcases hrun.cued_or_passesOne hturns hdone hopen hsize with
      ⟨hcued, hpasses⟩ | ⟨hcued, hempty, hpasses⟩
    · refine ⟨fun hkept _ => ?_, fun hpassed => absurd hpassed hpasses⟩
      exact System.fetchesAhead_of_underWay hdone (hrun.attended hkept).unbroken
        (hrun.underWay_of_cued hprefetch hkept hopen hcued)
    · exact ⟨fun _ hpassed => absurd hpasses hpassed, fun _ =>
        ⟨hempty, fun halone => (hrun.calm hprefetch hcued halone).not_fetchesAhead⟩⟩
  · intro text last row rows hempty hread
    obtain ⟨s, ⟨stages, hrun, hbegun, -⟩, hlapses⟩ := Trail.of_empty_batch release hempty hread
    exact ⟨stages, s, hrun, hbegun, hlapses⟩
  · intro text first second rows hread
    obtain ⟨s, ⟨stages, hrun, hbegun, -⟩, hlapses⟩ := Trail.of_empty_reply release hprefetch hread
    exact ⟨stages, s, hrun, hbegun, hlapses⟩

/-- A first reply with an empty batch and a batch of one row: the first advance finds the row, and
nothing is queued and no fetch under way when it has. -/
theorem fetched_ahead_in_time_empty_batch :
    ∃ stages s row, Run (.ordinary 1 {}) (.opened false) stages s ∧
      begun stages = [.extend ⟨.partialSequence, ["[]", "1"], none⟩,
        .next (t := .datum) Datum.null] ∧ s.Lapses row := by
  have hempty : (Setup.ordinary 1 {}).rows "[]" = .ok [] := by cbv
  have hread : (Setup.ordinary 1 {}).rows "1" = .ok [.number (.natural 1)] := by cbv
  obtain ⟨-, -, hpasses, -⟩ := fetched_ahead_in_time (.ordinary 1 {}) false rfl
  obtain ⟨stages, s, hrun⟩ := hpasses _ _ _ _ hempty hread
  exact ⟨stages, s, _, hrun⟩

end RowStream
