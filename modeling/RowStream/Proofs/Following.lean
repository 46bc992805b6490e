import RowStream.Proofs.Course
import RowStream.Proofs.Entries
import RowStream.Proofs.World

/-!
# Following a stream

An advance follows the stream that it reads: the row that it has in hand, the entries ahead of it
and those of the outcomes to come are together the entries that have not been handed out, and the
point that the advance has reached says what it has found out about the cursor.  Each turn of the
advance preserves this unless it meets an entry without a value; each turn of a task and each answer
preserves it.
-/

namespace RowStream

/-- A stream as it is seen where it is read. -/
structure Stream where
  setup : Setup
  schedule : Schedule
  rows : List Datum
  /-- The error that ends the stream. -/
  final : Option Error
  /-- Whether the answers may be used up before the stream has ended. -/
  short : Prop
  /-- Whether the queues are empty when the end is found. -/
  calm : Prop

/-- Whether both queues are empty. -/
def Cursor.Drained (c : Cursor) : Prop := c.rows.toList = [] ∧ c.batches.toList = []

namespace Next

variable {t : Target}

/-- What an advance has found out about the cursor at the point that it has reached. -/
def Fits (s : Stream) (c : Cursor) (n : Next t) : Prop :=
  match n.phase with
  | .enter | .look | .recheck | .refill _ | .asleep | .done true => c.closed = false
  | .fetching .claim | .fetching .check | .fetching .send | .fetching .waiting
  | .fetching (.fold _) => c.closed = false ∧ (s.schedule = .betweenCalls → c.Drained)
  | .fetching (.wake (.ok _) _) | .fetching (.ahead (.ok _)) => c.closed = false
  | .fetching (.wake (.error e) _) | .fetching (.ahead (.error e)) | .failed e =>
    c.closed = false ∧ c.error? = some e ∧ (s.calm → c.Drained)
  | .closing .mark => c.closed = false ∧ ¬ c.Live ∧ (s.calm → c.Drained)
  | .closing (.wake ..) | .closing (.stop _) | .closing (.waiting _) | .closing (.release ..)
  | .done false => c.closed = true ∧ ¬ c.Live ∧ (s.calm → c.Drained)
  | .fetching (.done _) | .fetching .aborted | .closing (.done _) | .closing .aborted => False

/-- The fetches of an advance and of the tasks beside it that hold the gate. -/
def holders (n : Next t) (tasks : List Task) : List Fetch := n.held ++ tasks.flatMap Task.held

/-- The outcomes that are on their way beside an advance and those that are still to come. -/
def coming (n : Next t) (tasks : List Task) (supply : Supply) : Supply :=
  Supply.brought (n.holders tasks) ++ supply

/-- An advance that follows a stream, with the entries that have not been handed out. -/
structure Follows (s : Stream) (c : Cursor) (n : Next t) (tasks : List Task) (supply : Supply)
    (entries : List Entry) : Prop where
  course : Course s.final s.short c (n.holders tasks) supply
  account : ∃ hand, n.Hands hand ∧
    hand.map .ok ++ n.ahead s.setup c (c.outlook (n.coming tasks supply)) = entries
  quiet : s.calm → s.schedule = .betweenCalls ∨ ∀ e, .error e ∉ n.coming tasks supply
  fits : n.Fits s c
  awake : n.phase = .asleep →
    c.fetching = true ∨ ∃ outcome low, .running (.wake outcome low) ∈ tasks

variable {s : Stream} {c c' : Cursor} {n n' : Next t} {tasks : List Task} {supply : Supply}
  {entries : List Entry}

/-! ## 1. Turns of an advance -/

-- A turn that leaves the stream and its gate as they are.
theorem Follows.alike (h : n.Follows s c tasks supply entries)
    (hnone : ∀ hand, n.Hands hand → hand = [])
    (hheld : n'.held = n.held) (hfetching : c'.fetching = c.fetching)
    (hfinished : c'.finished = c.finished) (herror : c'.error? = c.error?)
    (hclosed : c.Live → c'.closed = c.closed)
    (haccount : ∀ later, ∃ hand, n'.Hands hand ∧
      hand.map .ok ++ n'.ahead s.setup c' (c'.batches.toList ++ later) =
        n.ahead s.setup c (c.batches.toList ++ later))
    (hfits : n'.Fits s c') (hawake : n'.phase = .asleep → c.fetching = true) :
    n'.Follows s c' tasks supply entries := by
  have hholders : n'.holders tasks = n.holders tasks := congrArg (· ++ _) hheld
  have hcoming : n'.coming tasks supply = n.coming tasks supply :=
    congrArg (Supply.brought · ++ supply) hholders
  have hlive : c'.Live ↔ c.Live := Cursor.live_congr hfinished herror
  exact
    { course := by
        rw [hholders]
        exact h.course.congr hfetching hfinished herror hclosed
      account := by
        obtain ⟨hand, hhands, hentries⟩ := h.account
        obtain ⟨hand', hhands', hmoved⟩ :=
          haccount (if c.Live then Supply.texts (n.coming tasks supply) else [])
        refine ⟨hand', hhands', ?_⟩
        rw [hnone hand hhands] at hentries
        rw [← hentries, hcoming, Cursor.outlook, Cursor.outlook]
        simp only [hlive]
        exact hmoved
      quiet := by rw [hcoming]; exact h.quiet
      fits := hfits
      awake := fun hasleep => .inl (hfetching.trans (hawake hasleep)) }

-- Nothing moves if the queues stay as they are.
theorem ahead_alike (hhands : n'.Hands []) (hrows : c'.rows = c.rows)
    (hbatches : c'.batches = c.batches) (hunpacked : n'.unpacked = n.unpacked) :
    ∀ later, ∃ hand, n'.Hands hand ∧
      hand.map .ok ++ n'.ahead s.setup c' (c'.batches.toList ++ later) =
        n.ahead s.setup c (c.batches.toList ++ later) := by
  intro later
  refine ⟨[], hhands, ?_⟩
  rw [ahead, ahead, hrows, hbatches, hunpacked]
  rfl

theorem Looks.held_eq_nil {setup : Setup} {slot : t.Slot} {turn : Turn (Next t)}
    (h : Looks setup c slot turn) : turn.next.held = [] ∧ turn.next.phase ≠ .asleep := by
  cases h with
  | row hpop =>
    unfold receive
    split <;> exact ⟨rfl, nofun⟩
  | _ => exact ⟨rfl, nofun⟩

theorem Fits.closed_of_sight? {sight : Cursor} (h : n.Fits s c)
    (hsight : n.phase.sight? c = some sight) : c.closed = false := by
  obtain ⟨slot, phase⟩ := n
  cases phase with
  | look | recheck | refill => exact h
  | _ => cases hsight

theorem eq_nil_of_hands_of_sight? {sight : Cursor} {hand : List Datum}
    (hsight : n.phase.sight? c = some sight) (h : n.Hands hand) : hand = [] := by
  obtain ⟨slot, phase⟩ := n
  cases phase with
  | done more => cases hsight
  | _ => exact h

-- An advance that takes a turn has no row in hand.
theorem eq_nil_of_hands_of_step {setup : Setup} {turn : Turn (Next t)} {hand : List Datum}
    (hstep : n.step setup c = some turn) (h : n.Hands hand) : hand = [] := by
  obtain ⟨slot, phase⟩ := n
  cases phase with
  | done more => cases hstep
  | _ => exact h

-- A turn in which the advance looks for a row.
theorem Follows.looks {sight : Cursor} {turn : Turn (Next t)}
    (h : n.Follows s c tasks supply entries) (hsight : n.phase.sight? c = some sight)
    (hlooks : Looks s.setup sight n.slot turn) (hfront : ¬ sight.FrontFails s.setup t) :
    turn.next.Follows s turn.cursor tasks supply entries := by
  have hfetch := (sight?_account hsight).2.2
  obtain ⟨hfetching, hfinished, herror, hclosed⟩ := sight?_unchanged hsight
  obtain ⟨hfetching', hfinished', herror', hclosed'⟩ := hlooks.unchanged
  obtain ⟨hheld', hawake'⟩ := hlooks.held_eq_nil
  have hopen : c.closed = false := h.fits.closed_of_sight? hsight
  have hheld : n.held = [] := by rw [held, hfetch]; rfl
  refine h.alike (fun _ => eq_nil_of_hands_of_sight? hsight) (hheld'.trans hheld.symm)
    (hfetching'.trans hfetching) (hfinished'.trans hfinished) (herror'.trans herror)
    (fun _ => hclosed'.trans hclosed) (hlooks.ahead hsight hfront) ?_ (fun h => absurd h hawake')
  have hsighted : sight.closed = false := hclosed.trans hopen
  cases hlooks with
  | row hpop =>
    obtain ⟨value, hvalue⟩ := value?_of_front hfront hpop
    rw [receive_of_value? hvalue]
    exact hsighted
  | batch => exact hsighted
  | badBatch hempty hpop hread =>
    exact absurd hread (rows_ne_error_of_front hfront hempty hpop _)
  | error hempty hnone he => exact ⟨hsighted, he, fun _ => ⟨hempty, hnone⟩⟩
  | finished hempty hnone he hend =>
    refine ⟨hsighted, fun hlive => ?_, fun _ => ⟨hempty, hnone⟩⟩
    rw [Cursor.Live, hend] at hlive
    cases hlive.1
  | closed hempty hnone he hend hclosed => rw [hsighted] at hclosed; cases hclosed
  | fetch hempty hnone hcontinue => exact ⟨hsighted, fun _ => ⟨hempty, hnone⟩⟩

/-- An advance that has met an entry without a value, the first one of these, on a cursor that is
still open. -/
structure Fallen (s : Stream) (c : Cursor) (n : Next t) (tasks : List Task) (supply : Supply)
    (entries : List Entry) : Prop where
  course : Course s.final s.short c (n.holders tasks) supply
  meets : n.Meets entries
  opened : c.closed = false

-- A turn in which it finds that what is at the front cannot be decoded.
theorem Follows.falls {sight : Cursor} {turn : Turn (Next t)}
    (h : n.Follows s c tasks supply entries) (hsight : n.phase.sight? c = some sight)
    (hlooks : Looks s.setup sight n.slot turn) (hfront : sight.FrontFails s.setup t) :
    turn.next.Fallen s turn.cursor tasks supply entries := by
  have hfetch := (sight?_account hsight).2.2
  obtain ⟨hfetching, hfinished, herror, hclosed⟩ := sight?_unchanged hsight
  obtain ⟨hfetching', hfinished', herror', hclosed'⟩ := hlooks.unchanged
  have hholders : turn.next.holders tasks = n.holders tasks := by
    rw [holders, holders, hlooks.held_eq_nil.1, held, hfetch]
    rfl
  refine ⟨?_, ?_, (hclosed'.trans hclosed).trans (h.fits.closed_of_sight? hsight)⟩
  · rw [hholders]
    exact h.course.congr (hfetching'.trans hfetching) (hfinished'.trans hfinished)
      (herror'.trans herror) fun _ => hclosed'.trans hclosed
  · obtain ⟨hand, hhands, hentries⟩ := h.account
    rw [eq_nil_of_hands_of_sight? hsight hhands] at hentries
    rw [← hentries]
    exact hlooks.meets hsight hfront _

theorem holders_ofFetch (slot : t.Slot) (f : Fetch) (tasks : List Task) :
    (⟨slot, .ofFetch f⟩ : Next t).holders tasks = f.held ++ tasks.flatMap Task.held := by
  rw [holders, held_ofFetch]

-- After its fetch an advance goes on with what it has learnt.
theorem fits_ofFetch_done {slot : t.Slot} {outcome : Except Error Bool}
    (h : (⟨slot, .fetching (.ahead outcome)⟩ : Next t).Fits s c) :
    (⟨slot, .ofFetch (.done outcome)⟩ : Next t).Fits s c := by
  rcases outcome with e | _ | _ <;> exact h

theorem Follows.fits_fetches {slot : t.Slot} {f : Fetch} {turn : Turn Fetch}
    (h : (⟨slot, .fetching f⟩ : Next t).Follows s c tasks supply entries)
    (hstep : Fetch.Steps s.setup c f turn) :
    (⟨slot, .ofFetch turn.next⟩ : Next t).Fits s turn.cursor := by
  have hfits := h.fits
  cases hstep with
  | refused | turnsBack => exact hfits.1
  | passed | goesOn | asks => exact hfits
  | adds reply => exact Cursor.closed_accept.trans hfits.1
  | fails e =>
    -- The error is the one that ends the stream; a calm stream has none of its own to tell or is
    -- read while nothing is added.
    have hlive : c.Live := h.course.live_of_mem List.mem_cons_self nofun
    refine ⟨hfits.1, ?_, fun hcalm => ?_⟩
    · rw [Cursor.error?_openGate, Cursor.error?_record, hlive.2, Option.none_or]
    · rcases h.quiet hcalm with hbetween | hsuccess
      · exact hfits.2 hbetween
      · exact absurd List.mem_cons_self (hsuccess e)
  | tells outcome low =>
    have hahead : (⟨slot, .fetching (.ahead outcome)⟩ : Next t).Fits s c := by
      cases outcome <;> exact hfits
    cases low with
    | true => exact hahead
    | false => exact fits_ofFetch_done hahead
  | looksAhead outcome => exact fits_ofFetch_done hfits

-- A turn of the fetch of an advance.
theorem Follows.fetches {slot : t.Slot} {f : Fetch} {turn : Turn Fetch}
    (h : (⟨slot, .fetching f⟩ : Next t).Follows s c tasks supply entries)
    (hstep : Fetch.Steps s.setup c f turn) :
    (⟨slot, .ofFetch turn.next⟩ : Next t).Follows s turn.cursor tasks supply entries := by
  have hcourse : Course s.final s.short c ([] ++ f.held ++ tasks.flatMap Task.held) supply :=
    h.course
  have houtlook := hcourse.outlook_step hstep
  have hholders := holders_ofFetch slot turn.next tasks
  have hcoming : (⟨slot, .ofFetch turn.next⟩ : Next t).coming tasks supply =
      Supply.brought ([] ++ turn.next.held ++ tasks.flatMap Task.held) ++ supply := by
    rw [coming, hholders]
    rfl
  exact
    { course := by
        rw [hholders]
        exact hcourse.step hstep
      account := by
        obtain ⟨hand, rfl, hentries⟩ := h.account
        refine ⟨[], hands_ofFetch slot turn.next, ?_⟩
        rw [hcoming, houtlook, ahead, hstep.rows_eq, unpacked_ofFetch]
        exact hentries
      quiet := fun hcalm => (h.quiet hcalm).imp_right fun hsuccess e he => by
        rw [hcoming] at he
        exact hsuccess e (List.mem_append.mpr ((List.mem_append.mp he).imp_left
          (Course.mem_brought_step hstep)))
      fits := h.fits_fetches hstep
      awake := fun hasleep => by
        rcases phase_ofFetch turn.next with hf | hf | hf | ⟨e, hf⟩ <;>
          rw [hf] at hasleep <;> cases hasleep }

-- A turn of the closing of a cursor.
theorem Follows.closes {slot : t.Slot} {close : Close} {turn : Turn Close}
    (h : (⟨slot, .closing close⟩ : Next t).Follows s c tasks supply entries)
    (hstep : Close.Steps c close turn) :
    (⟨slot, .ofClose turn.next⟩ : Next t).Follows s turn.cursor tasks supply entries := by
  have hfits := h.fits
  have hheld : (⟨slot, .ofClose turn.next⟩ : Next t).held = [] := by cases turn.next <;> rfl
  have hover : ¬ c.Live := by
    cases hstep <;> exact hfits.2.1
  have hsame : turn.cursor.fetching = c.fetching ∧ turn.cursor.finished = c.finished ∧
      turn.cursor.error? = c.error? ∧ turn.cursor.rows = c.rows ∧
      turn.cursor.batches = c.batches := by
    cases hstep <;> exact ⟨rfl, rfl, rfl, rfl, rfl⟩
  obtain ⟨hfetching, hfinished, herror, hrows, hbatches⟩ := hsame
  refine h.alike (fun _ hhands => hhands) hheld hfetching hfinished herror
    (fun hlive => absurd hlive hover)
    (ahead_alike (hands_ofClose slot turn.next) hrows hbatches (unpacked_ofClose slot turn.next))
    ?_ ?_
  · cases hstep with
    | again hclosed => rw [hfits.1] at hclosed; cases hclosed
    | marks => exact ⟨rfl, hfits.2⟩
    | tells finished r => cases finished <;> exact hfits
    | stops | releases => exact hfits
  · intro hasleep
    rcases hnext : turn.next <;> rw [hnext] at hasleep <;> cases hasleep

-- A turn of an advance.
theorem Follows.turn {turn : Turn (Next t)} (h : n.Follows s c tasks supply entries)
    (hstep : n.step s.setup c = some turn) :
    turn.next.Follows s turn.cursor tasks supply entries ∨
      (turn.next.Fallen s turn.cursor tasks supply entries ∧
        turn.cursor.error? = c.error?) := by
  cases steps_of_step hstep with
  | enters slot hopen =>
    exact .inl (h.alike (fun _ hhands => hhands) rfl rfl rfl rfl (fun _ => rfl)
      (ahead_alike rfl rfl rfl rfl) hopen nofun)
  | ends slot hclosed =>
    have hopen : c.closed = false := h.fits
    rw [hclosed] at hopen
    cases hopen
  | @looks slot phase sight turn hsight hlooks =>
    by_cases hfront : sight.FrontFails s.setup t
    · exact .inr ⟨h.falls hsight hlooks hfront,
        hlooks.unchanged.2.2.1.trans (sight?_unchanged hsight).2.2.1⟩
    · exact .inl (h.looks hsight hlooks hfront)
  | sleeps slot hgate herror hopen =>
    exact .inl (h.alike (fun _ hhands => hhands) rfl rfl rfl rfl (fun _ => rfl)
      (ahead_alike rfl rfl rfl rfl) hopen fun _ => hgate)
  | fetches slot hfetch => exact .inl (h.fetches hfetch)
  | records slot e =>
    obtain ⟨hopen, he, hdrained⟩ := h.fits
    have herror : (c.record e).error? = c.error? := by
      rw [Cursor.error?_record, he, Option.some_or]
    refine .inl (h.alike (fun _ hhands => hhands) rfl rfl rfl herror (fun _ => rfl)
      (ahead_alike rfl rfl rfl rfl) ⟨hopen, fun hlive => ?_, hdrained⟩ nofun)
    rw [Cursor.Live, herror, he] at hlive
    cases hlive.2
  | closes slot hclose => exact .inl (h.closes hclose)

/-! ## 2. Turns of tasks -/

variable {before later : List Task}

theorem holders_split (n : Next t) (task : Task) :
    n.holders (before ++ task :: later) =
      (n.held ++ before.flatMap Task.held) ++ task.held ++ later.flatMap Task.held := by
  simp only [holders, List.flatMap_append, List.flatMap_cons, List.append_assoc]

-- What is not replaced stays.
theorem mem_replace {α : Type} {before later : List α} {x y z : α} (hne : z ≠ x)
    (h : z ∈ before ++ x :: later) : z ∈ before ++ y :: later := by
  simp only [List.mem_append, List.mem_cons] at h ⊢
  exact h.imp_right fun hrest => .inr (hrest.resolve_left hne)

/-- Whether an advance is about to ask for rows, or has asked and not taken in the outcome. -/
def asks (n : Next t) : Prop :=
  match n.phase with
  | .fetching f => f = .claim ∨ f.holds = true
  | _ => False

-- What an advance has found out stays true when the cursor goes on in these ways.
theorem Fits.mono (h : n.Fits s c) (hclosed : c'.closed = c.closed)
    (herror : ∀ e, c.error? = some e → c'.error? = some e)
    (hover : ¬ c.Live → ¬ c'.Live ∧ (c.Drained → c'.Drained))
    (hasks : s.schedule = .betweenCalls → n.asks → c.Drained → c'.Drained) : n.Fits s c' := by
  obtain ⟨slot, phase⟩ := n
  have hreports (e : Error) (h : c.closed = false ∧ c.error? = some e ∧ (s.calm → c.Drained)) :
      c'.closed = false ∧ c'.error? = some e ∧ (s.calm → c'.Drained) := by
    have hends : ¬ c.Live := fun hlive => by
      rw [Cursor.Live, h.2.1] at hlive
      cases hlive.2
    exact ⟨hclosed.trans h.1, herror e h.2.1, fun hcalm => (hover hends).2 (h.2.2 hcalm)⟩
  -- What is known at the end does not depend on whether the cursor is closed yet.
  have hends (closed : Bool) (h : c.closed = closed ∧ ¬ c.Live ∧ (s.calm → c.Drained)) :
      c'.closed = closed ∧ ¬ c'.Live ∧ (s.calm → c'.Drained) :=
    ⟨hclosed.trans h.1, (hover h.2.1).1, fun hcalm => (hover h.2.1).2 (h.2.2 hcalm)⟩
  cases phase with
  | enter | look | recheck | refill | asleep => exact hclosed.trans h
  | failed e => exact hreports e h
  | fetching f =>
    cases f with
    | claim =>
      exact ⟨hclosed.trans h.1, fun hbetween => hasks hbetween (.inl rfl) (h.2 hbetween)⟩
    | check | send | waiting | fold =>
      exact ⟨hclosed.trans h.1, fun hbetween => hasks hbetween (.inr rfl) (h.2 hbetween)⟩
    | wake outcome low | ahead outcome =>
      cases outcome with
      | ok issued => exact hclosed.trans h
      | error e => exact hreports e h
    | done | aborted => exact h
  | closing close =>
    cases close with
    | mark => exact hends false h
    | wake | stop | waiting | release => exact hends true h
    | done | aborted => exact h
  | done more =>
    cases more with
    | true => exact hclosed.trans h
    | false => exact hends true h

theorem phase_wake (n : Next t) : n.wake.phase ≠ .asleep := by
  obtain ⟨slot, phase⟩ := n
  cases phase <;> nofun

-- Waking an advance does not change what it reads.
theorem Follows.wake (h : n.Follows s c tasks supply entries) :
    n.wake.Follows s c tasks supply entries := by
  obtain ⟨slot, phase⟩ := n
  cases phase with
  | asleep =>
    exact h.alike (fun _ hhands => hhands) rfl rfl rfl rfl (fun _ => rfl)
      (ahead_alike rfl rfl rfl rfl) h.fits nofun
  | _ => exact h

-- Tasks that hold the gate no more and no less than others.
theorem Follows.retask {tasks' : List Task} (h : n.Follows s c tasks supply entries)
    (hheld : tasks'.flatMap Task.held = tasks.flatMap Task.held)
    (hawake : n.phase = .asleep →
      c.fetching = true ∨ ∃ outcome low, .running (.wake outcome low) ∈ tasks') :
    n.Follows s c tasks' supply entries := by
  have hholders : n.holders tasks' = n.holders tasks := congrArg (n.held ++ ·) hheld
  have hcoming : n.coming tasks' supply = n.coming tasks supply :=
    congrArg (Supply.brought · ++ supply) hholders
  exact
    { course := by rw [hholders]; exact h.course
      account := by rw [hcoming]; exact h.account
      quiet := by rw [hcoming]; exact h.quiet
      fits := h.fits
      awake := hawake }

theorem Follows.scheduled (h : n.Follows s c tasks supply entries) (k : Nat) :
    n.Follows s c (tasks ++ List.replicate k .scheduled) supply entries := by
  refine h.retask ?_ fun hasleep => (h.awake hasleep).imp_right ?_
  · rw [List.flatMap_append, Task.flatMap_held_scheduled, List.append_nil]
  · rintro ⟨outcome, low, hmem⟩
    exact ⟨outcome, low, List.mem_append_left _ hmem⟩

-- Between the caller's turns nothing is added to the queues while the advance asks for rows.
theorem not_holds_of_asks {f : Fetch} (hasks : n.asks) (hwaits : n.step s.setup c = none)
    (hfits : n.Fits s c)
    (hcourse : Course s.final s.short c (n.held ++ before.flatMap Task.held ++ f.held ++
      later.flatMap Task.held) supply) : f.holds = false := by
  obtain ⟨slot, phase⟩ := n
  cases phase with
  | fetching own =>
    have hholds : own.holds = true := by
      cases own with
      | claim =>
        simp only [step, Fetch.step, Option.map_eq_none_iff] at hwaits
        split at hwaits <;> cases hwaits
      | _ =>
        cases hasks with
        | inl hclaim => cases hclaim
        | inr hholds => exact hholds
    -- The advance holds the gate itself, so no task does.
    have hown : Course s.final s.short c ([] ++ own.held ++ (before.flatMap Task.held ++ f.held ++
        later.flatMap Task.held)) supply := by
      simp only [List.append_assoc] at hcourse ⊢
      exact hcourse
    have hrest := (hown.alone hholds).2.1
    simp only [List.append_eq_nil_iff] at hrest
    cases hf : f.holds with
    | false => rfl
    | true => rw [Fetch.held_of_holds hf] at hrest; cases hrest.1.2
  | _ => exact hasks.elim

-- A turn of a fetch in the background, as long as it does not tell of its end.
theorem Follows.fetchTask {f : Fetch} {turn : Turn Fetch}
    (h : n.Follows s c (before ++ .running f :: later) supply entries)
    (hadmits : s.schedule = .betweenCalls → n.asks → n.step s.setup c = none)
    (hstep : Fetch.Steps s.setup c f turn) (hquiet : ∀ outcome low, f ≠ .wake outcome low) :
    n.Follows s turn.cursor (before ++ .ofFetch turn.next :: later) supply entries := by
  have hholders : n.holders (before ++ .running f :: later) = _ := holders_split n (.running f)
  have hcourse := h.course
  rw [hholders] at hcourse
  have hholders' : n.holders (before ++ .ofFetch turn.next :: later) = _ :=
    holders_split n (.ofFetch turn.next)
  rw [Task.held_ofFetch] at hholders'
  have houtlook : turn.cursor.outlook (n.coming (before ++ .ofFetch turn.next :: later) supply) =
      c.outlook (n.coming (before ++ .running f :: later) supply) := by
    rw [coming, coming, hholders, hholders']
    exact hcourse.outlook_step hstep
  exact
    { course := by
        rw [hholders']
        exact hcourse.step hstep
      account := by rw [houtlook, ahead, hstep.rows_eq]; exact h.account
      quiet := fun hcalm => (h.quiet hcalm).imp_right fun hsuccess e he => by
        apply hsuccess e
        rw [coming, hholders'] at he
        rw [coming, hholders]
        exact List.mem_append.mpr ((List.mem_append.mp he).imp_left (Course.mem_brought_step hstep))
      fits := by
        apply h.fits.mono hstep.closed_eq (fun e he => hstep.error?_eq he)
        · intro hover
          obtain ⟨hfinished, herror, hbatches⟩ := hcourse.unchanged_of_over hover hstep
          constructor
          · rw [Cursor.Live, hfinished, herror]
            exact hover
          · rw [Cursor.Drained, Cursor.Drained, hbatches, hstep.rows_eq]
            exact id
        -- While the advance asks, a task that adds something would have to hold the gate too.
        · intro hbetween hasks hdrained
          have hholds := not_holds_of_asks hasks (hadmits hbetween hasks) h.fits hcourse
          rw [Cursor.Drained, hstep.rows_eq]
          cases hstep with
          | adds | fails => cases hholds
          | _ => exact hdrained
      awake := fun hasleep => by
        cases hstep with
        | refused hgate => exact .inl hgate
        | passed hgate => exact .inl rfl
        | goesOn | asks => exact .inl (hcourse.alone rfl).2.2
        -- These leave the gate and are about to tell.
        | turnsBack | adds | fails =>
          exact .inr ⟨_, _, List.mem_append_right _ List.mem_cons_self⟩
        | tells outcome low => exact absurd rfl (hquiet outcome low)
        | looksAhead outcome =>
          refine (h.awake hasleep).imp_right ?_
          rintro ⟨told, low, hmem⟩
          exact ⟨told, low, mem_replace (fun htold => by cases htold) hmem⟩ }

-- A turn of a task.
theorem Follows.task {task : Task} {turn : Turn Task}
    (h : n.Follows s c (before ++ task :: later) supply entries)
    (hadmits : s.schedule = .betweenCalls → n.asks → n.step s.setup c = none)
    (hstep : Task.Steps s.setup c task turn) :
    (if turn.events.any Event.notifies then n.wake else n).Follows s turn.cursor
      (before ++ turn.next :: later ++
        List.replicate (turn.events.countP Event.schedules) .scheduled) supply entries := by
  have htold {task task' : Task} (h : n.Follows s c (before ++ task :: later) supply entries)
      (hheld : task'.held = task.held) :
      n.wake.Follows s c (before ++ task' :: later) supply entries := by
    refine h.wake.retask ?_ fun hasleep => absurd hasleep n.phase_wake
    simp only [List.flatMap_append, List.flatMap_cons, hheld]
  apply Follows.scheduled
  cases hstep with
  | @fetches f turn hstep =>
    -- A fetch that tells of its end wakes the advance; all other turns leave it as it is.
    by_cases hwakes : ∃ outcome low, f = .wake outcome low
    · obtain ⟨outcome, low, rfl⟩ := hwakes
      cases hstep with
      | tells =>
        apply htold h
        cases low with
        | true => rfl
        | false => exact Task.held_ofFetch (.done outcome)
    · have hquiet : ∀ outcome low, f ≠ .wake outcome low :=
        fun outcome low hf => hwakes ⟨outcome, low, hf⟩
      have hnotifies : turn.events.any Event.notifies = false := by
        cases hstep with
        | tells outcome low => exact absurd rfl (hquiet outcome low)
        | looksAhead outcome =>
          simp only [Cursor.schedule]
          split <;> rfl
        | _ => rfl
      rw [Turn.map, hnotifies]
      exact h.fetchTask hadmits hstep hquiet
  | notices =>
    have hmem : Fetch.aborted ∈ n.holders (before ++ .running .aborted :: later) := by
      rw [holders_split]
      exact List.mem_append_left _ (List.mem_append_right _ List.mem_cons_self)
    exact absurd hmem h.course.unbroken
  | reports e =>
    refine h.retask ?_ fun hasleep => (h.awake hasleep).imp_right ?_
    · simp only [List.flatMap_append, List.flatMap_cons]
      rfl
    · rintro ⟨told, low, hmem⟩
      exact ⟨told, low, mem_replace (fun htold => by cases htold) hmem⟩
  | tells => exact htold h rfl

/-! ## 3. Answers -/

theorem Follows.of_answer {tasks' : List Task} {outcome : Except Error Reply}
    {before later : List Fetch} (h : n.Follows s c tasks (outcome :: supply) entries)
    (hholders : n.holders tasks = before ++ Fetch.held .waiting ++ later)
    (hholders' : n'.holders tasks' = before ++ Fetch.held (.fold outcome) ++ later)
    (hhands : ∀ hand, n.Hands hand → n'.Hands hand) (hunpacked : n'.unpacked = n.unpacked)
    (hfits : n'.Fits s c)
    (hawake : n'.phase = .asleep →
      c.fetching = true ∨ ∃ outcome low, .running (.wake outcome low) ∈ tasks') :
    n'.Follows s c tasks' supply entries := by
  have hcourse := h.course
  rw [hholders] at hcourse
  obtain ⟨hcourse', hbrought⟩ := hcourse.answer
  have hcoming : n'.coming tasks' supply = n.coming tasks (outcome :: supply) := by
    rw [coming, coming, hholders, hholders']
    exact hbrought
  exact
    { course := by rw [hholders']; exact hcourse'
      account := by
        obtain ⟨hand, hhand, hentries⟩ := h.account
        exact ⟨hand, hhands hand hhand, by rw [hcoming, ahead, hunpacked]; exact hentries⟩
      quiet := by rw [hcoming]; exact h.quiet
      fits := hfits
      awake := hawake }

-- The answer to the query of a task.
theorem Follows.answerTask {task : Task} {kind : Query.Kind} {outcome : Except Error Reply}
    (h : n.Follows s c (before ++ task :: later) (outcome :: supply) entries)
    (hawaits : task.awaits? = some kind) :
    n.Follows s c (before ++ task.answer (.ofOutcome outcome) :: later) supply entries := by
  cases task with
  | running f =>
    cases f with
    | waiting =>
      have hanswer : Task.answer (.ofOutcome outcome) (.running .waiting) =
          .running (.fold outcome) := by
        cases outcome <;> rfl
      rw [hanswer]
      refine h.of_answer (holders_split n _) (holders_split n _) (fun _ => id) rfl h.fits
        fun hasleep => (h.awake hasleep).imp_right ?_
      rintro ⟨told, low, hmem⟩
      exact ⟨told, low, mem_replace (fun htold => by cases htold) hmem⟩
    | _ => cases hawaits
  | failed | wake | done => cases hawaits

-- The answer to the query of an advance for more rows.
theorem Follows.answer {outcome : Except Error Reply}
    (h : n.Follows s c tasks (outcome :: supply) entries) (hawaits : n.awaits? = some .more) :
    (n.answer (.ofOutcome outcome)).Follows s c tasks supply entries := by
  obtain ⟨slot, phase⟩ := n
  cases phase with
  | fetching f =>
    cases f with
    | waiting =>
      have hanswer : (⟨slot, .fetching .waiting⟩ : Next t).answer (.ofOutcome outcome) =
          ⟨slot, .fetching (.fold outcome)⟩ := by
        cases outcome <;> rfl
      rw [hanswer]
      have hholders (f : Fetch) : (⟨slot, .fetching f⟩ : Next t).holders tasks =
          [] ++ f.held ++ tasks.flatMap Task.held := rfl
      exact h.of_answer (hholders .waiting) (hholders (.fold outcome)) (fun _ => id) rfl h.fits
        nofun
    | _ => cases hawaits
  | closing close => cases close <;> cases hawaits
  | _ => cases hawaits

-- The answer to the stop query of an advance.
theorem Follows.stopped {a : Answer} (h : n.Follows s c tasks supply entries)
    (hawaits : n.awaits? = some .stop) (ha : a ≠ .breakdown) :
    (n.answer a).Follows s c tasks supply entries := by
  obtain ⟨slot, phase⟩ := n
  cases phase with
  | fetching f => cases f <;> cases hawaits
  | closing close =>
    cases close with
    | waiting r =>
      cases a with
      | breakdown => exact absurd rfl ha
      | reply | failure =>
        exact h.alike (fun _ hhands => hhands) rfl rfl rfl rfl (fun _ => rfl)
          (ahead_alike rfl rfl rfl rfl) h.fits nofun
    | _ => cases hawaits
  | _ => cases hawaits

/-! ## 4. Progress and the end -/

-- An advance that has not begun reads into one destination what it reads into another.
theorem Follows.restart {slot : t.Slot} (slot' : t.Slot)
    (h : (start slot).Follows s c tasks supply entries) :
    (start slot').Follows s c tasks supply entries :=
  ⟨h.course, h.account, h.quiet, h.fits, nofun⟩

-- The advance after one that has handed out a row.
theorem Follows.again {slot : t.Slot} (slot' : t.Slot)
    (h : (⟨slot, .done true⟩ : Next t).Follows s c tasks supply entries) :
    ∃ row left, entries = .ok row :: left ∧ t.value? row = some slot ∧
      (start slot').Follows s c tasks supply left := by
  obtain ⟨_, ⟨row, rfl, hvalue⟩, hentries⟩ := h.account
  exact ⟨row, _, hentries.symm, hvalue, h.course, ⟨[], rfl, rfl⟩, h.quiet, h.fits, nofun⟩

-- What is left when there is no row: an error or none, and entries only if the end was found while
-- some were being added.
theorem Follows.ended {slot : t.Slot}
    (h : (⟨slot, .done false⟩ : Next t).Follows s c tasks supply entries) :
    c.closed = true ∧ c.error? = s.final ∧ (s.calm → entries = []) := by
  obtain ⟨hclosed, hover, hdrained⟩ := h.fits
  obtain ⟨_, rfl, hentries⟩ := h.account
  refine ⟨hclosed, h.course.error?_of_over hover, fun hcalm => ?_⟩
  obtain ⟨hnone, htexts⟩ := hdrained hcalm
  rw [ahead, Course.outlook_of_over hover, hnone, htexts] at hentries
  exact hentries.symm

-- An advance that cannot take a turn has ended, waits for the connection or sleeps.
theorem Follows.goesOn (h : n.Follows s c tasks supply entries) (hstep : n.step s.setup c = none) :
    (∃ more, n.phase = .done more) ∨ n.awaits? = some .stop ∨ n.phase = .asleep ∨
      (n.awaits? = some .more ∧ .waiting ∈ n.holders tasks) := by
  have hfits := h.fits
  obtain ⟨slot, phase⟩ := n
  cases phase with
  | done more => exact .inl ⟨more, rfl⟩
  | asleep => exact .inr (.inr (.inl rfl))
  | recheck =>
    simp only [step] at hstep
    split at hstep <;> cases hstep
  | fetching f =>
    cases f with
    | waiting => exact .inr (.inr (.inr ⟨rfl, List.mem_cons_self⟩))
    | fold outcome => cases outcome <;> cases hstep
    | claim | check =>
      simp only [step, Fetch.step, Option.map_eq_none_iff] at hstep
      split at hstep <;> cases hstep
    | done | aborted => exact hfits.elim
    | _ => cases hstep
  | closing close =>
    cases close with
    | waiting r => exact .inr (.inl rfl)
    | mark =>
      simp only [step, Close.step, Option.map_eq_none_iff] at hstep
      split at hstep <;> cases hstep
    | done | aborted => exact hfits.elim
    | _ => cases hstep
  | _ => cases hstep

-- An advance without tasks beside it waits for more rows only if none are left but those to come.
theorem Follows.eq_nil_of_waiting (h : n.Follows s c [] [] entries)
    (hbetween : s.schedule = .betweenCalls) (hmem : .waiting ∈ n.holders []) : entries = [] := by
  obtain ⟨slot, phase⟩ := n
  cases phase with
  | fetching f =>
    have hheld : (⟨slot, .fetching f⟩ : Next t).holders [] = f.held := List.append_nil _
    have hf : f = .waiting := by
      rw [hheld, Fetch.held] at hmem
      split at hmem
      · exact (List.mem_singleton.mp hmem).symm
      · cases hmem
    subst hf
    obtain ⟨_, rfl, hentries⟩ := h.account
    obtain ⟨hnone, htexts⟩ := h.fits.2 hbetween
    have hcoming : (⟨slot, .fetching .waiting⟩ : Next t).coming [] [] = [] := rfl
    rw [ahead, hnone, Cursor.outlook, htexts, hcoming, Supply.texts, ite_self] at hentries
    exact hentries.symm
  | _ => cases hmem

-- While an advance sleeps, some task can take a turn or waits for the connection.
theorem Follows.task_goesOn (h : n.Follows s c tasks supply entries) (hasleep : n.phase = .asleep) :
    ∃ task ∈ tasks, (∃ turn, task.step s.setup c = some turn) ∨
      (task.awaits? = some .more ∧ .waiting ∈ n.holders tasks) := by
  have hnone : n.held = [] := by
    obtain ⟨slot, phase⟩ := n
    cases hasleep
    rfl
  rcases h.awake hasleep with hfetching | ⟨outcome, low, hmem⟩
  · -- The gate is held, by a task.
    have hgate := h.course.gate
    have hbroken := h.course.unbroken
    rw [holders, hnone, List.nil_append] at hgate hbroken
    rw [hfetching] at hgate
    obtain ⟨f, hf⟩ := List.length_eq_one_iff.mp hgate
    have hfmem : f ∈ tasks.flatMap Task.held := by
      rw [hf]
      exact List.mem_singleton_self f
    obtain ⟨task, htask, hheld⟩ := List.mem_flatMap.mp hfmem
    refine ⟨task, htask, ?_⟩
    cases task with
    | running own =>
      cases own with
      | waiting =>
        exact .inr ⟨rfl, List.mem_append_right _ (List.mem_flatMap.mpr ⟨_, htask,
          List.mem_cons_self⟩)⟩
      | check =>
        left
        simp only [Task.step, Fetch.step]
        split <;> exact ⟨_, rfl⟩
      | send => exact .inl ⟨_, rfl⟩
      | fold outcome => cases outcome <;> exact .inl ⟨_, rfl⟩
      | aborted => exact absurd (List.mem_flatMap.mpr ⟨_, htask, List.mem_cons_self⟩) hbroken
      | claim | wake | ahead | done => cases hheld
    | failed | wake | done => cases hheld
  · exact ⟨_, hmem, .inl ⟨_, rfl⟩⟩

end Next
end RowStream
