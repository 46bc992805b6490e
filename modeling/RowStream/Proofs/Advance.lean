import RowStream.Proofs.Fetch

/-!
# What an advance does to the rows of a cursor

The rows ahead of an advance are those it has read but not queued, those queued, and those of the
texts that have not been read.  As long as nothing fails to decode, a step moves rows from one of
these places to the next, hands out the first of them, or adds those of a reply at the end.
-/

namespace RowStream

/-- Whether the row at the front of a cursor, or without rows the text there, cannot be decoded. -/
def Cursor.FrontFails (setup : Setup) (t : Target) (c : Cursor) : Prop :=
  match c.rows.toList, c.batches.toList with
  | row :: _, _ => t.value? row = none
  | [], text :: _ => ∃ e, setup.rows text = .error e
  | [], [] => False

instance (setup : Setup) (text : String) : Decidable (∃ e, setup.rows text = .error e) :=
  match setup.rows text with
  | .error e => isTrue ⟨e, rfl⟩
  | .ok _ => isFalse nofun

instance (setup : Setup) (t : Target) (c : Cursor) : Decidable (c.FrontFails setup t) :=
  match hrows : c.rows.toList, hbatches : c.batches.toList with
  | row :: _, _ => decidable_of_iff (t.value? row = none) (by rw [Cursor.FrontFails, hrows])
  | [], text :: _ =>
    decidable_of_iff (∃ e, setup.rows text = .error e) (by rw [Cursor.FrontFails, hrows, hbatches])
  | [], [] => isFalse (by rw [Cursor.FrontFails, hrows, hbatches]; exact id)

namespace Next

variable {setup : Setup} {c : Cursor} {t : Target} {n : Next t} {slot : t.Slot}
  {turn : Turn (Next t)}

/-- The fetch that an advance is in. -/
def fetch? (n : Next t) : Option Fetch :=
  match n.phase with
  | .fetching f => some f
  | _ => none

/-- The rows that have been read from a text but not queued. -/
def unpacked (n : Next t) : List Datum :=
  match n.phase with
  | .refill rows => rows
  | _ => []

/-- The row whose value an advance has found, or no row. -/
def Hands (n : Next t) (taken : List Datum) : Prop :=
  match n.phase with
  | .done true => ∃ row, taken = [row] ∧ t.value? row = some n.slot
  | _ => taken = []

/-- Whether an advance meets something that cannot be decoded in its next step. -/
def Fails (setup : Setup) (c : Cursor) (n : Next t) : Prop :=
  ∃ sight, n.phase.sight? c = some sight ∧ sight.FrontFails setup t

instance (setup : Setup) (c : Cursor) (n : Next t) : Decidable (n.Fails setup c) :=
  inferInstanceAs (Decidable (∃ sight ∈ n.phase.sight? c, sight.FrontFails setup t))

/-- The rows that the next step of an advance adds to a cursor. -/
def added (setup : Setup) (c : Cursor) (n : Next t) : List Datum :=
  setup.rowsOfAll (((n.fetch?.bind (Fetch.accepts? c)).map Reply.texts).getD [])

theorem fetch?_ofFetch (slot : t.Slot) (f : Fetch) :
    (⟨slot, .ofFetch f⟩ : Next t).fetch? =
      match f with
      | .done _ => none
      | f => some f := by
  rcases f with _ | _ | _ | _ | _ | _ | _ | (_ | _ | _) | _ <;> rfl

-- An advance is in its fetch, or looks for a row after it, or fails with it.
theorem phase_ofFetch (f : Fetch) :
    Phase.ofFetch f = .fetching f ∨ Phase.ofFetch f = .look ∨ Phase.ofFetch f = .recheck ∨
      ∃ e, Phase.ofFetch f = .failed e := by
  cases f with
  | done outcome =>
    rcases outcome with e | _ | _
    · exact .inr (.inr (.inr ⟨e, rfl⟩))
    · exact .inr (.inr (.inl rfl))
    · exact .inr (.inl rfl)
  | _ => exact .inl rfl

theorem unpacked_ofFetch (slot : t.Slot) (f : Fetch) :
    (⟨slot, .ofFetch f⟩ : Next t).unpacked = [] := by
  rcases phase_ofFetch f with hf | hf | hf | ⟨e, hf⟩ <;> rw [hf] <;> rfl

theorem hands_ofFetch (slot : t.Slot) (f : Fetch) :
    (⟨slot, .ofFetch f⟩ : Next t).Hands [] := by
  rcases phase_ofFetch f with hf | hf | hf | ⟨e, hf⟩ <;> rw [hf] <;> rfl

theorem unpacked_ofClose (slot : t.Slot) (close : Close) :
    (⟨slot, .ofClose close⟩ : Next t).unpacked = [] := by
  cases close <;> rfl

theorem hands_ofClose (slot : t.Slot) (close : Close) :
    (⟨slot, .ofClose close⟩ : Next t).Hands [] := by
  cases close <;> rfl

theorem receive_of_value? {row : Datum} {value : t.Slot} (h : t.value? row = some value) :
    receive slot row = ⟨value, .done true⟩ := by
  rw [receive, Target.decode_eq_done slot h]

/-! ## 1. Looking for a row -/

-- What is at the front and does not fail to be decoded has a value, or can be read.
theorem value?_of_front {row : Datum} {rows : Queue Datum} (hfront : ¬ c.FrontFails setup t)
    (hpop : c.rows.pop? = some (row, rows)) : ∃ value, t.value? row = some value := by
  rw [Cursor.FrontFails, Queue.toList_of_pop?_eq_some hpop] at hfront
  exact Option.ne_none_iff_exists'.mp hfront

theorem rows_ne_error_of_front {text : String} {batches : Queue String}
    (hfront : ¬ c.FrontFails setup t) (hempty : c.rows.toList = [])
    (hpop : c.batches.pop? = some (text, batches)) (e : Error) : setup.rows text ≠ .error e := by
  rw [Cursor.FrontFails, hempty, Queue.toList_of_pop?_eq_some hpop] at hfront
  exact fun hread => hfront ⟨e, hread⟩

-- A row that is found moves into the hand, the rows of a text into what is unpacked; nothing else
-- moves.
theorem Looks.account (h : Looks setup c slot turn) (hfront : ¬ c.FrontFails setup t) :
    ∃ taken, turn.next.Hands taken ∧
      taken ++ turn.cursor.rows.toList ++ turn.next.unpacked ++ turn.cursor.unread setup =
        c.rows.toList ++ c.unread setup := by
  cases h with
  | @row row rows hpop =>
    obtain ⟨value, hvalue⟩ := value?_of_front hfront hpop
    refine ⟨[row], ?_, ?_⟩
    · rw [receive_of_value? hvalue]
      exact ⟨row, rfl, hvalue⟩
    · rw [receive_of_value? hvalue, Queue.toList_of_pop?_eq_some hpop]
      simp [unpacked, Cursor.unread]
  | @batch text batches rows hempty hpop hread =>
    refine ⟨[], rfl, ?_⟩
    rw [Cursor.unread, Cursor.unread, Queue.toList_of_pop?_eq_some hpop,
      Setup.rowsOfAll_cons, Setup.rowsOf_eq hread]
    simp [unpacked]
  | @badBatch text batches e hempty hpop hread =>
    exact absurd hread (rows_ne_error_of_front hfront hempty hpop e)
  | error | finished | closed | fetch => exact ⟨[], rfl, by simp [unpacked]⟩

theorem Looks.unchanged (h : Looks setup c slot turn) :
    turn.cursor.fetching = c.fetching ∧ turn.cursor.finished = c.finished ∧
      turn.cursor.error? = c.error? ∧ turn.cursor.closed = c.closed := by
  cases h <;> exact ⟨rfl, rfl, rfl, rfl⟩

/-! ## 2. Steps -/

-- What an advance sees are the queued rows with those it has read, and the texts as they are.
theorem sight?_account {sight : Cursor} (h : n.phase.sight? c = some sight) :
    sight.rows.toList = c.rows.toList ++ n.unpacked ∧ sight.batches = c.batches ∧
      n.fetch? = none := by
  obtain ⟨slot, phase⟩ := n
  cases phase with
  | look => cases h; exact ⟨(List.append_nil _).symm, rfl, rfl⟩
  | recheck =>
    simp only [Phase.sight?] at h
    split at h
    · cases h
    · cases h; exact ⟨(List.append_nil _).symm, rfl, rfl⟩
  | refill rows => cases h; exact ⟨Queue.toList_pushAll, rfl, rfl⟩
  | _ => cases h

theorem sight?_unchanged {sight : Cursor} {phase : Phase} (h : phase.sight? c = some sight) :
    sight.fetching = c.fetching ∧ sight.finished = c.finished ∧ sight.error? = c.error? ∧
      sight.closed = c.closed := by
  cases phase with
  | look | refill => cases h; exact ⟨rfl, rfl, rfl, rfl⟩
  | recheck =>
    simp only [Phase.sight?] at h
    split at h
    · cases h
    · cases h; exact ⟨rfl, rfl, rfl, rfl⟩
  | _ => cases h

theorem Steps.account (h : Steps setup c n turn) (hsound : ¬ n.Fails setup c) :
    ∃ taken, turn.next.Hands taken ∧
      taken ++ turn.cursor.rows.toList ++ turn.next.unpacked ++ turn.cursor.unread setup =
        c.rows.toList ++ n.unpacked ++ c.unread setup ++ n.added setup c := by
  cases h with
  | enters | ends | sleeps | records =>
    refine ⟨[], rfl, ?_⟩
    simp [unpacked, added, fetch?, Cursor.unread]
  | @looks slot phase sight turn hsight hlooks =>
    obtain ⟨hrows, hbatches, hfetch⟩ := sight?_account (n := ⟨slot, phase⟩) hsight
    obtain ⟨taken, hhands, haccount⟩ := hlooks.account fun hfront => hsound ⟨sight, hsight, hfront⟩
    refine ⟨taken, hhands, ?_⟩
    rw [haccount, hrows, Cursor.unread, hbatches, added, hfetch]
    exact (List.append_nil _).symm
  | @fetches slot f turn hstep =>
    -- The texts that the fetch adds come after all that was there.
    refine ⟨[], hands_ofFetch slot turn.next, ?_⟩
    have hadded : (⟨slot, .fetching f⟩ : Next t).added setup c =
      setup.rowsOfAll (((f.accepts? c).map Reply.texts).getD []) := rfl
    rw [hadded, Turn.map, unpacked_ofFetch, Cursor.unread, hstep.toList_batches, hstep.rows_eq,
      Setup.rowsOfAll_append]
    simp [unpacked, Cursor.unread]
  | @closes slot close turn hstep =>
    refine ⟨[], hands_ofClose slot turn.next, ?_⟩
    -- Closing the cursor leaves the queues as they are.
    have hcursor : turn.cursor.rows = c.rows ∧ turn.cursor.batches = c.batches := by
      cases hstep <;> exact ⟨rfl, rfl⟩
    rw [Turn.map, unpacked_ofClose, Cursor.unread, hcursor.1, hcursor.2]
    simp [unpacked, added, fetch?, Cursor.unread]

-- The last reply that was added says whether there are more.
theorem Steps.finished_eq (h : Steps setup c n turn) :
    turn.cursor.finished =
      ((n.fetch?.bind (Fetch.accepts? c)).map Reply.isLast).getD c.finished := by
  cases h with
  | @looks slot phase sight turn hsight hlooks =>
    have hfetch := (sight?_account (n := ⟨slot, phase⟩) hsight).2.2
    rw [hfetch, hlooks.unchanged.2.1, (sight?_unchanged hsight).2.1]
    rfl
  | fetches slot hstep => exact hstep.finished_eq
  | closes slot hstep => cases hstep <;> rfl
  | _ => rfl

-- A cursor stays open until an advance closes it, and closed from then on.
theorem Steps.closed_eq (h : Steps setup c n turn) :
    turn.cursor.closed = c.closed ∨ (n.phase = .closing .mark ∧ turn.cursor.closed = true) := by
  cases h with
  | looks slot hsight hlooks =>
    rw [hlooks.unchanged.2.2.2, (sight?_unchanged hsight).2.2.2]
    exact .inl rfl
  | fetches slot hstep => exact .inl hstep.closed_eq
  | closes slot hstep =>
    cases hstep with
    | marks => exact .inr ⟨rfl, rfl⟩
    | _ => exact .inl rfl
  | _ => exact .inl rfl

-- The first error stays.
theorem Steps.error?_eq {e : Error} (h : Steps setup c n turn) (he : c.error? = some e) :
    turn.cursor.error? = some e := by
  cases h with
  | looks slot hsight hlooks =>
    rw [hlooks.unchanged.2.2.1, (sight?_unchanged hsight).2.2.1, he]
  | fetches slot hstep => exact hstep.error?_eq he
  | records slot e' => rw [Cursor.error?_record, he, Option.some_or]
  | closes slot hstep => cases hstep <;> exact he
  | _ => exact he

end Next
end RowStream
