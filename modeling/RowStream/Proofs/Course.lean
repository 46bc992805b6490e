import RowStream.Proofs.Advance

/-!
# The course of a stream

What the connection has still to give, up to the outcome that ends the stream, and how it comes
together with the state of a cursor: the fetch that holds the gate, if there is one, brings the
first outcome, and the texts in the queue are followed by those of the outcomes to come.
-/

namespace RowStream

/-! ## 1. Outcomes to come -/

/-- The outcomes of the queries for more rows, one after another. -/
abbrev Supply := List (Except Error Reply)

namespace Supply

/-- The texts up to the outcome that ends the stream. -/
def texts : Supply → List String
  | [] => []
  | .ok reply :: later => reply.texts ++ if reply.isLast then [] else texts later
  | .error _ :: _ => []

/-- The error of the outcome that ends the stream. -/
def error? : Supply → Option Error
  | [] => none
  | .ok reply :: later => if reply.isLast then reply.error? else error? later
  | .error e :: _ => some e

/-- Whether one of the outcomes ends the stream. -/
def Ends : Supply → Prop
  | [] => False
  | .ok reply :: later => reply.isLast = true ∨ Ends later
  | .error _ :: _ => True

end Supply

/-- The answer that an outcome is. -/
def Answer.ofOutcome : Except Error Reply → Answer
  | .ok r => .reply r
  | .error e => .failure e

/-! ## 2. The gate and its holders -/

namespace Fetch

/-- The outcome that a fetch is about to take in. -/
def outcome? : Fetch → Option (Except Error Reply)
  | fold outcome => some outcome
  | _ => none

/-- The fetch itself, if it holds the gate. -/
def held (f : Fetch) : List Fetch := if f.holds then [f] else []

theorem held_of_holds {f : Fetch} (h : f.holds = true) : f.held = [f] := if_pos h

theorem held_of_not_holds {f : Fetch} (h : f.holds = false) : f.held = [] :=
  if_neg (Bool.eq_false_iff.mp h)

end Fetch

/-- The fetch of an advance, if it holds the gate. -/
def Next.held {t : Target} (n : Next t) : List Fetch := (n.fetch?.map Fetch.held).getD []

/-- The fetch of a task, if it holds the gate. -/
def Task.held : Task → List Fetch
  | running f => f.held
  | _ => []

theorem Next.held_ofFetch {t : Target} (slot : t.Slot) (f : Fetch) :
    (⟨slot, .ofFetch f⟩ : Next t).held = f.held := by
  rw [held, fetch?_ofFetch]
  cases f <;> rfl

theorem Task.held_ofFetch (f : Fetch) : (ofFetch f).held = f.held := by
  cases f with
  | done outcome => cases outcome <;> rfl
  | _ => rfl

theorem Task.flatMap_held_scheduled (k : Nat) :
    (List.replicate k Task.scheduled).flatMap Task.held = [] :=
  List.flatMap_eq_nil_iff.mpr fun task htask => by rw [List.eq_of_mem_replicate htask]; rfl

/-- The outcomes that the holders of the gate are about to take in. -/
def Supply.brought (held : List Fetch) : Supply := held.filterMap Fetch.outcome?

/-! ## 3. The state of a stream -/

namespace Cursor

/-- Whether the stream has not ended as far as the cursor knows. -/
def Live (c : Cursor) : Prop := c.finished = false ∧ c.error? = none

instance (c : Cursor) : Decidable c.Live := inferInstanceAs (Decidable (_ ∧ _))

theorem live_congr {c c' : Cursor} (hfinished : c'.finished = c.finished)
    (herror : c'.error? = c.error?) : c'.Live ↔ c.Live := by
  rw [Live, Live, hfinished, herror]

theorem live_of_canContinue {c : Cursor} (h : c.canContinue = true) : c.closed = false ∧ c.Live :=
  canContinue_eq_true_iff.mp h

-- A reply that is added says whether the stream goes on, and one that carries an error is the last.
theorem live_accept_iff {c : Cursor} {reply : Reply} (hopen : c.closed = false) (hlive : c.Live) :
    (c.accept reply).Live ↔ reply.isLast = false := by
  have herror : (c.accept reply).error? = reply.error? := by
    rw [error?_accept hopen, hlive.2, Option.none_or]
  rw [Live, finished_accept hopen, herror]
  refine and_iff_left_of_imp fun hmore => ?_
  cases hreply : reply.error? with
  | none => rfl
  | some e => rw [Reply.isLast_of_error hreply] at hmore; cases hmore

theorem not_live_record (c : Cursor) (e : Error) : ¬ (c.record e).Live := fun h => by
  have hsome := h.2
  rw [error?_record] at hsome
  cases hc : c.error? <;> rw [hc] at hsome <;> cases hsome

/-- The queued texts and those of the outcomes to come. -/
def outlook (c : Cursor) (coming : Supply) : List String :=
  c.batches.toList ++ if c.Live then Supply.texts coming else []

end Cursor

/-- A cursor, the holders of its gate and the outcomes to come fit together.  The stream ends with
an error or without; it may be cut short instead if nobody looks so far ahead. -/
structure Course (final : Option Error) (short : Prop) (c : Cursor) (held : List Fetch)
    (supply : Supply) : Prop where
  gate : held.length = if c.fetching then 1 else 0
  unbroken : Fetch.aborted ∉ held
  closed_of_live : c.Live → c.closed = false
  error?_of_live : c.Live → Supply.error? (Supply.brought held ++ supply) = final
  ends_of_live : c.Live → Supply.Ends (Supply.brought held ++ supply) ∨ short
  error?_of_over : ¬ c.Live → c.error? = final
  held_of_over : ¬ c.Live → ∀ f ∈ held, f = .check

namespace Course

variable {setup : Setup} {final : Option Error} {short : Prop} {c : Cursor} {held : List Fetch}
  {supply : Supply}

theorem live_of_mem {f : Fetch} (h : Course final short c held supply) (hf : f ∈ held)
    (hcheck : f ≠ .check) : c.Live :=
  Classical.byContradiction fun hover => hcheck (h.held_of_over hover f hf)

-- Who holds the gate holds it alone.
theorem alone {f : Fetch} {before later : List Fetch}
    (h : Course final short c (before ++ f.held ++ later) supply) (hf : f.holds = true) :
    before = [] ∧ later = [] ∧ c.fetching = true := by
  have hgate := h.gate
  rw [Fetch.held_of_holds hf] at hgate
  simp only [List.length_append, List.length_singleton] at hgate
  split at hgate
  next hfetching =>
    refine ⟨List.length_eq_zero_iff.mp ?_, List.length_eq_zero_iff.mp ?_, hfetching⟩ <;> omega
  next => omega

-- Nobody holds an open gate.
theorem held_of_open (h : Course final short c held supply) (hgate : c.fetching = false) :
    held = [] := by
  have hlength := h.gate
  rw [hgate] at hlength
  exact List.length_eq_zero_iff.mp hlength

-- What a cursor knows of its stream, and its gate, are all that its course depends on.
theorem congr {c' : Cursor} (h : Course final short c held supply)
    (hfetching : c'.fetching = c.fetching) (hfinished : c'.finished = c.finished)
    (herror : c'.error? = c.error?) (hclosed : c.Live → c'.closed = c.closed) :
    Course final short c' held supply := by
  have hlive : c'.Live ↔ c.Live := Cursor.live_congr hfinished herror
  exact
    { gate := by rw [hfetching]; exact h.gate
      unbroken := h.unbroken
      closed_of_live := fun hl => by
        rw [hclosed (hlive.mp hl)]
        exact h.closed_of_live (hlive.mp hl)
      error?_of_live := fun hl => h.error?_of_live (hlive.mp hl)
      ends_of_live := fun hl => h.ends_of_live (hlive.mp hl)
      error?_of_over := fun hl => by
        rw [herror]
        exact h.error?_of_over (mt hlive.mpr hl)
      held_of_over := fun hl => h.held_of_over (mt hlive.mpr hl) }

/-! ## 4. Fetches -/

-- A holder that goes on holding the gate without a turn of the stream.
theorem swap {f f' : Fetch} (h : Course final short c [f] supply) (hlive : c.Live)
    (hbroken : f' ≠ .aborted) (hbrings : f'.outcome? = f.outcome?) :
    Course final short c [f'] supply := by
  have hbrought : Supply.brought [f'] = Supply.brought [f] := by
    simp only [Supply.brought, List.filterMap_cons, hbrings]
  exact
    { gate := h.gate
      unbroken := fun hf => hbroken (List.mem_singleton.mp hf).symm
      closed_of_live := h.closed_of_live
      error?_of_live := by rw [hbrought]; exact h.error?_of_live
      ends_of_live := by rw [hbrought]; exact h.ends_of_live
      error?_of_over := h.error?_of_over
      held_of_over := fun hover => absurd hlive hover }

-- The stream after a reply that its only holder has taken in.
theorem adds {reply : Reply} (h : Course final short c [.fold (.ok reply)] supply) :
    Course final short (c.accept reply).openGate [] supply := by
  have hlive : c.Live := h.live_of_mem (List.mem_singleton_self _) nofun
  have hclosed := h.closed_of_live hlive
  have herror? := h.error?_of_live hlive
  have hends := h.ends_of_live hlive
  have hlive' : (c.accept reply).openGate.Live ↔ reply.isLast = false :=
    Cursor.live_accept_iff hclosed hlive
  have herror : (c.accept reply).openGate.error? = reply.error? := by
    rw [Cursor.error?_openGate, Cursor.error?_accept hclosed, hlive.2, Option.none_or]
  -- The reply is the first outcome that the stream has still to give.
  have hbrought : Supply.brought [.fold (.ok reply)] ++ supply = .ok reply :: supply := rfl
  rw [hbrought] at herror? hends
  cases hlast : reply.isLast with
  | true =>
    have hover : ¬ (c.accept reply).openGate.Live := by
      rw [hlive', hlast]
      nofun
    rw [Supply.error?, if_pos hlast] at herror?
    exact
      { gate := rfl
        unbroken := List.not_mem_nil
        closed_of_live := fun hl => absurd hl hover
        error?_of_live := fun hl => absurd hl hover
        ends_of_live := fun hl => absurd hl hover
        error?_of_over := fun _ => herror.trans herror?
        held_of_over := fun _ _ hf => absurd hf List.not_mem_nil }
  | false =>
    have hgoesOn : (c.accept reply).openGate.Live := hlive'.mpr hlast
    rw [Supply.error?, hlast] at herror?
    exact
      { gate := rfl
        unbroken := List.not_mem_nil
        closed_of_live := fun _ => Cursor.closed_accept.trans hclosed
        error?_of_live := fun _ => herror?
        ends_of_live := fun _ => hends.imp_left fun hend => by
          rw [Supply.Ends, hlast] at hend
          exact hend.resolve_left nofun
        error?_of_over := fun hover => absurd hgoesOn hover
        held_of_over := fun hover => absurd hgoesOn hover }

-- The stream after an error that its only holder has taken in.
theorem fails {e : Error} (h : Course final short c [.fold (.error e)] supply) :
    Course final short (c.record e).openGate [] supply := by
  have hlive : c.Live := h.live_of_mem (List.mem_singleton_self _) nofun
  have herror? : some e = final := h.error?_of_live hlive
  have herror : (c.record e).openGate.error? = some e := by
    rw [Cursor.error?_openGate, Cursor.error?_record, hlive.2, Option.none_or]
  have hover : ¬ (c.record e).openGate.Live := Cursor.not_live_record c e
  exact
    { gate := rfl
      unbroken := List.not_mem_nil
      closed_of_live := fun hl => absurd hl hover
      error?_of_live := fun hl => absurd hl hover
      ends_of_live := fun hl => absurd hl hover
      error?_of_over := fun _ => herror.trans herror?
      held_of_over := fun _ _ hf => absurd hf List.not_mem_nil }

-- The course after a turn of the fetch that holds the gate.
theorem step_of_holds {f : Fetch} {turn : Turn Fetch} (h : Course final short c [f] supply)
    (hf : f.holds = true) (hstep : Fetch.Steps setup c f turn) :
    Course final short turn.cursor turn.next.held supply := by
  cases hstep with
  | refused | passed | tells | looksAhead => cases hf
  | goesOn hopen =>
    exact h.swap (Cursor.live_of_canContinue hopen).2 nofun rfl
  | turnsBack hopen =>
    exact
      { gate := rfl
        unbroken := List.not_mem_nil
        closed_of_live := h.closed_of_live
        error?_of_live := h.error?_of_live
        ends_of_live := h.ends_of_live
        error?_of_over := h.error?_of_over
        held_of_over := fun _ _ hf => absurd hf List.not_mem_nil }
  | asks => exact h.swap (h.live_of_mem (List.mem_singleton_self _) nofun) nofun rfl
  | adds reply => exact h.adds
  | fails e => exact h.fails

-- The course after a turn of any fetch.
theorem step {f : Fetch} {turn : Turn Fetch} {before later : List Fetch}
    (h : Course final short c (before ++ f.held ++ later) supply)
    (hstep : Fetch.Steps setup c f turn) :
    Course final short turn.cursor (before ++ turn.next.held ++ later) supply := by
  cases hf : f.holds with
  | true =>
    obtain ⟨rfl, rfl, -⟩ := h.alone hf
    rw [Fetch.held_of_holds hf] at h
    rw [List.nil_append, List.append_nil]
    exact h.step_of_holds hf hstep
  | false =>
    rw [Fetch.held_of_not_holds hf, List.append_nil] at h
    cases hstep with
    | passed hgate =>
      -- The gate was open, so nobody held it and the fetch holds it alone now.
      obtain ⟨rfl, rfl⟩ := List.append_eq_nil_iff.mp (h.held_of_open hgate)
      exact
        { gate := rfl
          unbroken := nofun
          closed_of_live := h.closed_of_live
          error?_of_live := h.error?_of_live
          ends_of_live := h.ends_of_live
          error?_of_over := h.error?_of_over
          held_of_over := fun _ f hf => List.mem_singleton.mp hf }
    | refused | looksAhead =>
      rw [Fetch.held_of_not_holds rfl, List.append_nil]
      exact h
    | tells outcome low =>
      have hheld : Fetch.held (if low then .ahead outcome else .done outcome) = [] := by
        cases low <;> rfl
      rw [hheld, List.append_nil]
      exact h
    | goesOn | turnsBack | asks | adds | fails => cases hf

/-! ## 5. The outlook -/

theorem outlook_of_over {coming : Supply} (h : ¬ c.Live) : c.outlook coming = c.batches.toList := by
  rw [Cursor.outlook, if_neg h, List.append_nil]

theorem outlook_of_live {coming : Supply} (h : c.Live) :
    c.outlook coming = c.batches.toList ++ Supply.texts coming := by
  rw [Cursor.outlook, if_pos h]

-- A turn of a fetch brings no outcome of its own.
theorem brought_next {f : Fetch} {turn : Turn Fetch} (hstep : Fetch.Steps setup c f turn) :
    Supply.brought turn.next.held = [] := by
  cases hstep with
  | tells outcome low => cases low <;> rfl
  | _ => rfl

theorem outlook_adds {reply : Reply} (h : Course final short c [.fold (.ok reply)] supply) :
    (c.accept reply).openGate.outlook supply = c.outlook (.ok reply :: supply) := by
  have hlive : c.Live := h.live_of_mem (List.mem_singleton_self _) nofun
  have hclosed := h.closed_of_live hlive
  have hbatches : (c.accept reply).openGate.batches.toList = c.batches.toList ++ reply.texts :=
    Cursor.toList_batches_accept hclosed
  have hlive' : (c.accept reply).openGate.Live ↔ reply.isLast = false :=
    Cursor.live_accept_iff hclosed hlive
  rw [outlook_of_live hlive, Supply.texts, Cursor.outlook, hbatches, List.append_assoc]
  cases hlast : reply.isLast with
  | true => rw [if_neg (by rw [hlive', hlast]; nofun), if_pos rfl]
  | false =>
    rw [if_pos (hlive'.mpr hlast)]
    rfl

theorem outlook_fails {e : Error} (h : Course final short c [.fold (.error e)] supply) :
    (c.record e).openGate.outlook supply = c.outlook (.error e :: supply) := by
  have hlive : c.Live := h.live_of_mem (List.mem_singleton_self _) nofun
  have hover : ¬ (c.record e).openGate.Live := Cursor.not_live_record c e
  rw [outlook_of_over hover, outlook_of_live hlive]
  exact (List.append_nil _).symm

-- After a turn of a fetch no other outcomes are on their way than before.
theorem mem_brought_step {f : Fetch} {turn : Turn Fetch} {before later : List Fetch}
    {outcome : Except Error Reply} (hstep : Fetch.Steps setup c f turn)
    (h : outcome ∈ Supply.brought (before ++ turn.next.held ++ later)) :
    outcome ∈ Supply.brought (before ++ f.held ++ later) := by
  have hnext := brought_next hstep
  unfold Supply.brought at h hnext ⊢
  rw [List.filterMap_append, List.filterMap_append, hnext, List.append_nil] at h
  rw [List.filterMap_append, List.filterMap_append]
  exact List.mem_append.mpr ((List.mem_append.mp h).imp_left (List.mem_append_left _))

-- A turn of a fetch moves texts from the outcomes to come to the queue.
theorem outlook_step {f : Fetch} {turn : Turn Fetch} {before later : List Fetch}
    (h : Course final short c (before ++ f.held ++ later) supply)
    (hstep : Fetch.Steps setup c f turn) :
    turn.cursor.outlook (Supply.brought (before ++ turn.next.held ++ later) ++ supply) =
      c.outlook (Supply.brought (before ++ f.held ++ later) ++ supply) := by
  have hnext := brought_next hstep
  have hsplit (f : Fetch) : Supply.brought (before ++ f.held ++ later) =
      Supply.brought before ++ Supply.brought f.held ++ Supply.brought later := by
    rw [Supply.brought, List.filterMap_append, List.filterMap_append]
    rfl
  rw [hsplit, hsplit, hnext]
  cases hf : f.holds with
  | true =>
    obtain ⟨rfl, rfl, -⟩ := h.alone hf
    rw [Fetch.held_of_holds hf] at h ⊢
    cases hstep with
    | adds reply => exact h.outlook_adds
    | fails e => exact h.outlook_fails
    | _ => rfl
  | false =>
    rw [Fetch.held_of_not_holds hf]
    cases hstep with
    | adds | fails => cases hf
    | _ => rfl

-- Once the stream has ended nothing is added to it.
theorem unchanged_of_over {f : Fetch} {turn : Turn Fetch} {before later : List Fetch}
    (h : Course final short c (before ++ f.held ++ later) supply) (hover : ¬ c.Live)
    (hstep : Fetch.Steps setup c f turn) :
    turn.cursor.finished = c.finished ∧ turn.cursor.error? = c.error? ∧
      turn.cursor.batches = c.batches := by
  have hmem (hf : f.holds = true) : f ∈ before ++ f.held ++ later := by
    rw [Fetch.held_of_holds hf]
    exact List.mem_append_left _ (List.mem_append_right _ (List.mem_singleton_self f))
  cases hstep with
  | adds reply => exact absurd (h.live_of_mem (hmem rfl) nofun) hover
  | fails e => exact absurd (h.live_of_mem (hmem rfl) nofun) hover
  | _ => exact ⟨rfl, rfl, rfl⟩

/-! ## 6. Answers -/

-- An answer is on its way from the supply to the holder of the gate.
theorem answer {outcome : Except Error Reply} {before later : List Fetch}
    (h : Course final short c (before ++ Fetch.held .waiting ++ later) (outcome :: supply)) :
    Course final short c (before ++ Fetch.held (.fold outcome) ++ later) supply ∧
      Supply.brought (before ++ Fetch.held (.fold outcome) ++ later) ++ supply =
        Supply.brought (before ++ Fetch.held .waiting ++ later) ++ outcome :: supply := by
  obtain ⟨rfl, rfl, -⟩ := h.alone rfl
  have hlive : c.Live := h.live_of_mem (List.mem_singleton_self _) nofun
  refine ⟨?_, rfl⟩
  exact
    { gate := h.gate
      unbroken := fun hf => nomatch List.mem_singleton.mp hf
      closed_of_live := h.closed_of_live
      error?_of_live := h.error?_of_live
      ends_of_live := h.ends_of_live
      error?_of_over := h.error?_of_over
      held_of_over := fun hover => absurd hlive hover }

-- Whoever waits will get an answer, unless the stream is cut short.
theorem short_of_waiting (h : Course final short c held []) (hmem : Fetch.waiting ∈ held) :
    short := by
  have hgate := h.gate
  have hlive := h.live_of_mem hmem nofun
  -- The one who waits is the only holder, and the stream has not ended.
  have hlength : held.length = 1 := by
    have hpos := List.length_pos_of_mem hmem
    split at hgate <;> omega
  obtain ⟨f, rfl⟩ := List.length_eq_one_iff.mp hlength
  cases List.mem_singleton.mp hmem
  exact (h.ends_of_live hlive).resolve_left id

-- A cursor has no error but the one that ends its stream.
theorem error? (h : Course final short c held supply) : c.error? = none ∨ c.error? = final := by
  by_cases hlive : c.Live
  · exact .inl hlive.2
  · exact .inr (h.error?_of_over hlive)

/-! ## 7. Tasks -/

variable {before later : List Task}

-- The course after a turn of a task, while no operation holds the gate.
theorem task {task : Task} {turn : Turn Task}
    (h : Course final short c ((before ++ task :: later).flatMap Task.held) supply)
    (hstep : Task.Steps setup c task turn) (k : Nat) :
    Course final short turn.cursor
      ((before ++ turn.next :: later ++ List.replicate k Task.scheduled).flatMap Task.held)
      supply := by
  rw [List.flatMap_append, List.flatMap_cons, ← List.append_assoc] at h
  rw [List.flatMap_append, Task.flatMap_held_scheduled, List.append_nil, List.flatMap_append,
    List.flatMap_cons, ← List.append_assoc]
  cases hstep with
  | @fetches f turn hfetch =>
    show Course final short turn.cursor (_ ++ (Task.ofFetch turn.next).held ++ _) supply
    rw [Task.held_ofFetch]
    exact h.step hfetch
  | notices =>
    exact absurd (List.mem_append_left _ (List.mem_append_right _ List.mem_cons_self)) h.unbroken
  | reports | tells => exact h

theorem answerTask {task : Task} {kind : Query.Kind} {outcome : Except Error Reply}
    (h : Course final short c ((before ++ task :: later).flatMap Task.held) (outcome :: supply))
    (hawaits : task.awaits? = some kind) :
    Course final short c
      ((before ++ task.answer (.ofOutcome outcome) :: later).flatMap Task.held) supply := by
  rw [List.flatMap_append, List.flatMap_cons, ← List.append_assoc] at h ⊢
  cases task with
  | running f =>
    cases f with
    | waiting =>
      have hanswer : Task.answer (.ofOutcome outcome) (.running .waiting) =
          .running (.fold outcome) := by
        cases outcome <;> rfl
      rw [hanswer]
      exact h.answer.1
    | _ => cases hawaits
  | failed | wake | done => cases hawaits

end Course
end RowStream
