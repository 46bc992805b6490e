import RowStream.Proofs.Following
import RowStream.Proofs.Sticky

/-!
# Drawing on a stream

An advance that draws on a stream follows it until it meets an entry without a value.  From then on
it records the error of that entry, unless the cursor has one already, and closes the cursor,
whatever is added in the meantime.  On a cursor that is read alone, nobody else can have recorded an
error while there were entries ahead.
-/

namespace RowStream

/-- What a reader knows of the errors of the cursor: whether it reads the cursor alone, and the
error that the cursor had at first. -/
structure Reader where
  lone : Prop
  first? : Option Error

/-- A reader that knows nothing of the errors of the cursor. -/
def Reader.unaware : Reader := ⟨False, none⟩

/-! ## 1. Advances that have met an entry without a value -/

namespace Next

variable {t : Target}

/-- An advance that has met an entry without a value and has still to record its error, or closes
the cursor, or has done so.  The cursor has that error then, or the one of the stream; a reader
alone knows which. -/
inductive Quits (s : Stream) (r : Reader) (c : Cursor) (n : Next t) (tasks : List Task)
    (supply : Supply) (e : Error) : Prop
  | fails (hphase : n.phase = .failed e) (hopen : c.closed = false)
    (hcourse : Course s.final s.short c (tasks.flatMap Task.held) supply)
    (hlone : r.lone → c.error? = r.first?)
  | closes {close : Close} {kept : Error} (hphase : n.phase = .closing close) (hgoes : close.Goes)
    (hclosed : close = .mark ∨ c.closed = true) (herror : c.error? = some kept)
    (hkept : kept = e ∨ s.final = some kept)
    (hlone : r.lone → some kept = r.first?.or (some e))
  | ended {kept : Error} (hphase : n.phase = .done false) (hclosed : c.closed = true)
    (herror : c.error? = some kept) (hkept : kept = e ∨ s.final = some kept)
    (hlone : r.lone → some kept = r.first?.or (some e))

variable {setup : Setup} {s : Stream} {r : Reader} {c : Cursor} {n : Next t}
  {tasks before later : List Task} {supply : Supply} {entries : List Entry} {e : Error}

namespace Quits

theorem wake (h : n.Quits s r c tasks supply e) : n.wake = n := by
  obtain ⟨slot, phase⟩ := n
  cases h with
  | fails hphase | closes hphase | ended hphase => cases hphase; rfl

theorem turn {turn : Turn (Next t)} (h : n.Quits s r c tasks supply e)
    (hstep : n.step setup c = some turn) : turn.next.Quits s r turn.cursor tasks supply e := by
  obtain ⟨slot, phase⟩ := n
  cases h with
  | fails hphase hopen hcourse hlone =>
    cases hphase
    cases hstep
    -- The first error stays.
    have herror : (c.record e).error? = c.error?.or (some e) := Cursor.error?_record
    obtain ⟨kept, hsome⟩ : ∃ kept, c.error?.or (some e) = some kept := by
      cases c.error? <;> exact ⟨_, rfl⟩
    refine .closes rfl trivial (.inl rfl) (herror.trans hsome) ?_ fun halone => ?_
    · rcases hcourse.error? with hnone | hfinal
      · rw [hnone] at hsome
        exact .inl (Option.some.inj hsome).symm
      · rw [hfinal] at hsome
        cases hlast : s.final with
        | none => rw [hlast] at hsome; exact .inl (Option.some.inj hsome).symm
        | some last => rw [hlast] at hsome; exact .inr hsome
    · rw [← hsome, hlone halone]
  | @closes close kept hphase hgoes hclosed herror hkept hlone =>
    cases hphase
    obtain ⟨turn, hclose, rfl⟩ := Option.map_eq_some_iff.mp hstep
    cases Close.steps_of_step hclose with
    | again hagain => exact .ended rfl hagain herror hkept hlone
    | marks => exact .closes rfl trivial (.inr rfl) herror hkept hlone
    | tells finished =>
      have hmarked := hclosed.resolve_left nofun
      cases finished <;> exact .closes rfl trivial (.inr hmarked) herror hkept hlone
    | stops => exact .closes rfl trivial (.inr (hclosed.resolve_left nofun)) herror hkept hlone
    | releases => exact .ended rfl (hclosed.resolve_left nofun) herror hkept hlone
  | ended hphase =>
    cases hphase
    cases hstep

theorem task {task : Task} {turn : Turn Task}
    (h : n.Quits s r c (before ++ task :: later) supply e) (hshared : ¬ r.lone)
    (hstep : Task.Steps setup c task turn) (k : Nat) :
    n.Quits s r turn.cursor (before ++ turn.next :: later ++ List.replicate k .scheduled) supply
      e := by
  have hclosed : turn.cursor.closed = c.closed := by
    cases hstep with
    | fetches hfetch => exact hfetch.closed_eq
    | notices | reports | tells => rfl
  have hkeeps {kept : Error} (herror : c.error? = some kept) : turn.cursor.error? = some kept := by
    cases hstep with
    | fetches hfetch => exact hfetch.error?_eq herror
    | notices => rw [Cursor.error?_openGate, Cursor.error?_record, herror, Option.some_or]
    | reports | tells => exact herror
  cases h with
  | fails hphase hopen hcourse =>
    exact .fails hphase (hclosed.trans hopen) (hcourse.task hstep k) fun h => absurd h hshared
  | closes hphase hgoes hmarked herror hkept hlone =>
    exact .closes hphase hgoes (hmarked.imp_right hclosed.trans) (hkeeps herror) hkept hlone
  | ended hphase hended herror hkept hlone =>
    exact .ended hphase (hclosed.trans hended) (hkeeps herror) hkept hlone

theorem scheduled (h : n.Quits s r c tasks supply e) (k : Nat) :
    n.Quits s r c (tasks ++ List.replicate k .scheduled) supply e := by
  cases h with
  | fails hphase hopen hcourse hlone =>
    refine .fails hphase hopen ?_ hlone
    rw [List.flatMap_append, Task.flatMap_held_scheduled, List.append_nil]
    exact hcourse
  | closes hphase hgoes hmarked herror hkept hlone =>
    exact .closes hphase hgoes hmarked herror hkept hlone
  | ended hphase hended herror hkept hlone => exact .ended hphase hended herror hkept hlone

theorem answerTask {task : Task} {kind : Query.Kind} {outcome : Except Error Reply}
    (h : n.Quits s r c (before ++ task :: later) (outcome :: supply) e)
    (hawaits : task.awaits? = some kind) :
    n.Quits s r c (before ++ task.answer (.ofOutcome outcome) :: later) supply e := by
  cases h with
  | fails hphase hopen hcourse hlone =>
    exact .fails hphase hopen (hcourse.answerTask hawaits) hlone
  | closes hphase hgoes hmarked herror hkept hlone =>
    exact .closes hphase hgoes hmarked herror hkept hlone
  | ended hphase hended herror hkept hlone => exact .ended hphase hended herror hkept hlone

theorem eq_stop_of_awaits? {kind : Query.Kind} (h : n.Quits s r c tasks supply e)
    (hawaits : n.awaits? = some kind) : kind = .stop := by
  obtain ⟨slot, phase⟩ := n
  cases h with
  | fails hphase | ended hphase =>
    cases hphase
    cases hawaits
  | closes hphase =>
    cases hphase
    exact Close.eq_stop_of_awaits? hawaits

theorem stopped {a : Answer} (h : n.Quits s r c tasks supply e) (ha : a ≠ .breakdown) :
    (n.answer a).Quits s r c tasks supply e := by
  obtain ⟨slot, phase⟩ := n
  cases h with
  | fails hphase hopen hcourse hlone =>
    cases hphase
    exact .fails rfl hopen hcourse hlone
  | @closes close kept hphase hgoes hmarked herror hkept hlone =>
    cases hphase
    refine .closes rfl (hgoes.answer ha) (hmarked.imp_left fun hmark => ?_) herror hkept hlone
    rw [hmark]
    rfl
  | ended hphase hended herror hkept hlone =>
    cases hphase
    exact .ended rfl hended herror hkept hlone

theorem goesOn (h : n.Quits s r c tasks supply e) (hstep : n.step setup c = none) :
    n.phase = .done false ∨ n.awaits? = some .stop := by
  obtain ⟨slot, phase⟩ := n
  cases h with
  | fails hphase =>
    cases hphase
    cases hstep
  | closes hphase hgoes =>
    cases hphase
    exact .inr (hgoes.goesOn (Option.map_eq_none_iff.mp hstep))
  | ended hphase => exact .inl hphase

end Quits

/-! ## 2. Advances of a reader alone -/

/-- If an advance reads a cursor alone, the cursor has the error that it had at first, or nothing is
left but what the advance has in hand. -/
def Lone (r : Reader) (c : Cursor) (n : Next t) (entries : List Entry) : Prop :=
  r.lone → c.error? = r.first? ∨ ∃ hand, n.Hands hand ∧ hand.map .ok = entries

-- An error that a fetch of the advance itself brings ends the stream, and the advance asks for more
-- only when nothing is queued.
theorem Follows.ahead_of_error {slot : t.Slot} {f : Fetch} {turn : Turn Fetch}
    (h : (⟨slot, .fetching f⟩ : Next t).Follows s c tasks supply entries)
    (hbetween : s.schedule = .betweenCalls) (hstep : Fetch.Steps s.setup c f turn)
    (hnew : turn.cursor.error? ≠ c.error?) (coming : Supply) :
    (⟨slot, .ofFetch turn.next⟩ : Next t).ahead s.setup turn.cursor
      (turn.cursor.outlook coming) = [] := by
  have hover : ¬ turn.cursor.Live := fun hlive => by
    cases hbefore : c.error? with
    | none => exact hnew (hlive.2.trans hbefore.symm)
    | some e =>
      have hnone : some e = none := (hstep.error?_eq hbefore).symm.trans hlive.2
      cases hnone
  have hdrained : turn.cursor.Drained := by
    cases hstep with
    | adds reply =>
      obtain ⟨hopen, hdrained⟩ := h.fits
      obtain ⟨hrows, hbatches⟩ := hdrained hbetween
      have herror : (c.accept reply).openGate.error? = c.error?.or reply.error? :=
        Cursor.error?_accept hopen
      cases hreply : reply.error? with
      | none =>
        rw [hreply, Option.or_none] at herror
        exact absurd herror hnew
      | some e =>
        refine ⟨?_, ?_⟩
        · rw [Cursor.rows_openGate, Cursor.rows_accept, hrows]
        · rw [Cursor.batches_openGate, Cursor.toList_batches_accept hopen, hbatches,
            Reply.texts_of_error hreply]
          rfl
    | fails e => exact h.fits.2 hbetween
    | _ => exact absurd rfl hnew
  rw [ahead, Course.outlook_of_over hover, hdrained.1, hdrained.2, unpacked_ofFetch]
  rfl

theorem Follows.lone_turn {turn : Turn (Next t)} (h : n.Follows s c tasks supply entries)
    (hbetween : s.schedule = .betweenCalls) (hstep : n.step s.setup c = some turn)
    (hnext : turn.next.Follows s turn.cursor tasks supply entries)
    (hlone : c.error? = r.first? ∨ ∃ hand, n.Hands hand ∧ hand.map .ok = entries) :
    turn.cursor.error? = r.first? ∨ ∃ hand, turn.next.Hands hand ∧ hand.map .ok = entries := by
  obtain ⟨hand, hhands, hentries⟩ := hnext.account
  rcases hlone with hfirst | ⟨none, hnone, hleft⟩
  · by_cases hsame : turn.cursor.error? = c.error?
    · exact .inl (hsame.trans hfirst)
    · refine .inr ⟨hand, hhands, ?_⟩
      cases steps_of_step hstep with
      | enters | ends | sleeps => exact absurd rfl hsame
      | looks slot hsight hlooks =>
        exact absurd (hlooks.unchanged.2.2.1.trans (sight?_unchanged hsight).2.2.1) hsame
      | records slot e =>
        refine absurd ?_ hsame
        rw [Cursor.error?_record, h.fits.2.1, Option.some_or]
      | closes slot hclose => cases hclose <;> exact absurd rfl hsame
      | @fetches slot f turn hfetch =>
        rw [Turn.map, h.ahead_of_error hbetween hfetch hsame, List.append_nil] at hentries
        exact hentries
  · -- Nothing was left before the turn, so nothing is left after it.
    rw [eq_nil_of_hands_of_step hstep hnone] at hleft
    rw [← hleft] at hentries ⊢
    exact .inr ⟨hand, hhands, (List.append_eq_nil_iff.mp hentries).1⟩

/-! ## 3. Advances that follow a stream or have met such an entry -/

/-- An advance that draws on a stream, with the entries that have not been handed out. -/
inductive Draws (s : Stream) (r : Reader) (c : Cursor) (n : Next t) (tasks : List Task)
    (supply : Supply) (entries : List Entry) : Prop
  | follows (h : n.Follows s c tasks supply entries) (hlone : n.Lone r c entries)
  | quits {e : Error} (hfails : t.FailsAt entries e) (h : n.Quits s r c tasks supply e)

-- An advance that has just met an entry without a value.
theorem Fallen.draws (h : n.Fallen s c tasks supply entries)
    (hlone : r.lone → c.error? = r.first?) : n.Draws s r c tasks supply entries := by
  obtain ⟨e, hfails, hphase⟩ := h.meets
  refine .quits hfails (.fails hphase h.opened ?_ hlone)
  have hheld : n.held = [] := by rw [held, fetch?, hphase]; rfl
  have hcourse := h.course
  rw [holders, hheld, List.nil_append] at hcourse
  exact hcourse

namespace Draws

theorem turn {turn : Turn (Next t)} (h : n.Draws s r c tasks supply entries)
    (hbetween : r.lone → s.schedule = .betweenCalls) (hstep : n.step s.setup c = some turn) :
    turn.next.Draws s r turn.cursor tasks supply entries := by
  cases h with
  | follows h hlone =>
    rcases h.turn hstep with hnext | ⟨hfallen, hsame⟩
    · exact .follows hnext fun halone =>
        h.lone_turn (hbetween halone) hstep hnext (hlone halone)
    · refine hfallen.draws fun halone => hsame.trans ?_
      refine (hlone halone).resolve_right ?_
      -- There was an entry left, the one without a value.
      rintro ⟨hand, hhands, hleft⟩
      obtain ⟨e, ⟨entry, rest, hentries, -⟩, -⟩ := hfallen.meets
      rw [eq_nil_of_hands_of_step hstep hhands, hentries] at hleft
      cases hleft
  | quits hfails h => exact .quits hfails (h.turn hstep)

theorem scheduled (h : n.Draws s r c tasks supply entries) (k : Nat) :
    n.Draws s r c (tasks ++ List.replicate k .scheduled) supply entries := by
  cases h with
  | follows h hlone => exact .follows (h.scheduled k) hlone
  | quits hfails h => exact .quits hfails (h.scheduled k)

theorem task {task : Task} {turn : Turn Task}
    (h : n.Draws s r c (before ++ task :: later) supply entries) (hshared : ¬ r.lone)
    (hadmits : s.schedule = .betweenCalls → n.asks → n.step s.setup c = none)
    (hstep : Task.Steps s.setup c task turn) :
    (if turn.events.any Event.notifies then n.wake else n).Draws s r turn.cursor
      (before ++ turn.next :: later ++
        List.replicate (turn.events.countP Event.schedules) .scheduled) supply entries := by
  cases h with
  | follows h hlone => exact .follows (h.task hadmits hstep) fun h => absurd h hshared
  | quits hfails h =>
    rw [h.wake, ite_self]
    exact .quits hfails (h.task hshared hstep _)

theorem answerTask {task : Task} {kind : Query.Kind} {outcome : Except Error Reply}
    (h : n.Draws s r c (before ++ task :: later) (outcome :: supply) entries)
    (hawaits : task.awaits? = some kind) :
    n.Draws s r c (before ++ task.answer (.ofOutcome outcome) :: later) supply entries := by
  cases h with
  | follows h hlone => exact .follows (h.answerTask hawaits) hlone
  | quits hfails h => exact .quits hfails (h.answerTask hawaits)

-- An answer puts no row in the hand of an advance.
theorem hands_answer {a : Answer} {hand : List Datum} (h : n.Hands hand) :
    (n.answer a).Hands hand := by
  obtain ⟨slot, phase⟩ := n
  cases phase <;> exact h

theorem answer {outcome : Except Error Reply}
    (h : n.Draws s r c tasks (outcome :: supply) entries) (hawaits : n.awaits? = some .more) :
    (n.answer (.ofOutcome outcome)).Draws s r c tasks supply entries := by
  cases h with
  | follows h hlone =>
    exact .follows (h.answer hawaits) fun halone => (hlone halone).imp_right
      fun ⟨hand, hhands, hleft⟩ => ⟨hand, hands_answer hhands, hleft⟩
  | quits hfails h => cases h.eq_stop_of_awaits? hawaits

theorem stopped {a : Answer} (h : n.Draws s r c tasks supply entries)
    (hawaits : n.awaits? = some .stop) (ha : a ≠ .breakdown) :
    (n.answer a).Draws s r c tasks supply entries := by
  cases h with
  | follows h hlone =>
    exact .follows (h.stopped hawaits ha) fun halone => (hlone halone).imp_right
      fun ⟨hand, hhands, hleft⟩ => ⟨hand, hands_answer hhands, hleft⟩
  | quits hfails h => exact .quits hfails (h.stopped ha)

-- An advance that has not begun draws the same into another destination.
theorem restart {slot : t.Slot} (slot' : t.Slot)
    (h : (start slot).Draws s r c tasks supply entries) :
    (start slot').Draws s r c tasks supply entries := by
  cases h with
  | follows h hlone => exact .follows (h.restart slot') hlone
  | quits _ h =>
    cases h with
    | fails hphase | closes hphase | ended hphase => cases hphase

-- The advance after one that has handed out a row.
theorem again {slot : t.Slot} (slot' : t.Slot)
    (h : (⟨slot, .done true⟩ : Next t).Draws s r c tasks supply entries) :
    ∃ row left, entries = .ok row :: left ∧ t.value? row = some slot ∧
      (start slot').Draws s r c tasks supply left := by
  cases h with
  | follows h hlone =>
    obtain ⟨row, left, hentries, hvalue, hnext⟩ := h.again slot'
    refine ⟨row, left, hentries, hvalue, .follows hnext fun halone => ?_⟩
    refine (hlone halone).imp_right ?_
    rintro ⟨_, ⟨first, rfl, -⟩, hleft⟩
    rw [hentries] at hleft
    exact ⟨[], rfl, (List.cons.inj hleft).2⟩
  | quits _ h =>
    cases h with
    | fails hphase | closes hphase | ended hphase => cases hphase

theorem goesOn (h : n.Draws s r c tasks supply entries) (hstep : n.step s.setup c = none) :
    (∃ more, n.phase = .done more) ∨ n.awaits? = some .stop ∨
      (n.Follows s c tasks supply entries ∧ (n.phase = .asleep ∨
        (n.awaits? = some .more ∧ .waiting ∈ n.holders tasks))) := by
  cases h with
  | follows h =>
    rcases h.goesOn hstep with hdone | hawaits | hasleep | hwaits
    · exact .inl hdone
    · exact .inr (.inl hawaits)
    · exact .inr (.inr ⟨h, .inl hasleep⟩)
    · exact .inr (.inr ⟨h, .inr hwaits⟩)
  | quits _ h =>
    rcases h.goesOn hstep with hdone | hawaits
    · exact .inl ⟨false, hdone⟩
    · exact .inr (.inl hawaits)

end Draws

/-- What is left of a stream when there is no row: the error that ends it or none, and entries only
if the end was found while some were being added; or an entry without a value. -/
inductive LeftOver (s : Stream) (r : Reader) (t : Target) (c : Cursor) (entries : List Entry) : Prop
  | nothing (herror : c.error? = s.final) (hnone : s.calm → entries = [])
  | failure {e kept : Error} (hfails : t.FailsAt entries e) (herror : c.error? = some kept)
    (hkept : kept = e ∨ s.final = some kept) (hlone : r.lone → some kept = r.first?.or (some e))

theorem Draws.ended {slot : t.Slot}
    (h : (⟨slot, .done false⟩ : Next t).Draws s r c tasks supply entries) :
    c.closed = true ∧ LeftOver s r t c entries := by
  cases h with
  | follows h =>
    obtain ⟨hclosed, herror, hnone⟩ := h.ended
    exact ⟨hclosed, .nothing herror hnone⟩
  | quits hfails h =>
    cases h with
    | fails hphase | closes hphase => cases hphase
    | ended _ hclosed herror hkept hlone =>
      exact ⟨hclosed, .failure hfails herror hkept hlone⟩

end Next
end RowStream
