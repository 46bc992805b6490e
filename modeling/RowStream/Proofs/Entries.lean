import RowStream.Proofs.Advance

/-!
# Entries of a stream

A text has an entry for each of its rows, or one for the error of reading it.  What a reader can
have of entries are the values of the first rows, up to the first entry that has no value: the error
of a text, or a row that does not fit the destination.
-/

namespace RowStream

/-- A row, or the error of a text that cannot be read. -/
abbrev Entry := Except Error Datum

/-! ## 1. Entries of texts -/

/-- The entries of a text. -/
def Setup.entries (setup : Setup) (text : String) : List Entry :=
  match setup.rows text with
  | .ok rows => rows.map .ok
  | .error e => [.error e]

/-- The entries of texts, one text after the other. -/
def Setup.entriesOfAll (setup : Setup) (texts : List String) : List Entry :=
  texts.flatMap setup.entries

section

variable {setup : Setup} {text : String}

theorem Setup.entries_of_ok {rows : List Datum} (h : setup.rows text = .ok rows) :
    setup.entries text = rows.map .ok := by
  rw [entries, h]

theorem Setup.entries_of_error {e : Error} (h : setup.rows text = .error e) :
    setup.entries text = [.error e] := by
  rw [entries, h]

@[simp] theorem Setup.entriesOfAll_nil (setup : Setup) : setup.entriesOfAll [] = [] := rfl

@[simp] theorem Setup.entriesOfAll_cons (setup : Setup) (text : String) (texts : List String) :
    setup.entriesOfAll (text :: texts) = setup.entries text ++ setup.entriesOfAll texts := rfl

@[simp] theorem Setup.entriesOfAll_append (setup : Setup) (texts more : List String) :
    setup.entriesOfAll (texts ++ more) = setup.entriesOfAll texts ++ setup.entriesOfAll more :=
  List.flatMap_append

-- Texts that can be read have the entries that their rows are.
theorem Setup.entriesOfAll_of_readable {texts : List String}
    (h : ∀ text ∈ texts, ∃ rows, setup.rows text = .ok rows) :
    setup.entriesOfAll texts = (setup.rowsOfAll texts).map .ok := by
  induction texts with
  | nil => rfl
  | cons text texts ih =>
    obtain ⟨rows, hrows⟩ := h text List.mem_cons_self
    have hlater := ih fun text htext => h text (List.mem_cons_of_mem _ htext)
    rw [entriesOfAll_cons, rowsOfAll_cons, List.map_append, entries_of_ok hrows,
      rowsOf_eq hrows, hlater]

-- And only they have no other entries.
theorem Setup.readable_of_entries {texts : List String}
    (h : ∀ e, .error e ∉ setup.entriesOfAll texts) :
    ∀ text ∈ texts, ∃ rows, setup.rows text = .ok rows := by
  intro text htext
  cases hread : setup.rows text with
  | ok rows => exact ⟨rows, rfl⟩
  | error e =>
    refine absurd (List.mem_flatMap.mpr ⟨text, htext, ?_⟩) (h e)
    rw [entries_of_error hread]
    exact List.mem_cons_self

end

/-! ## 2. Values of entries -/

namespace Target

variable {t : Target}

/-- What an entry comes to in a destination. -/
def valueOf (t : Target) (entry : Entry) : Except Error t.Slot :=
  entry.bind fun row => (t.decode t.blank row).result.mapError .decode

/-- The values of entries up to the first one that has none. -/
def values (t : Target) : List Entry → List t.Slot
  | [] => []
  | entry :: entries =>
    match t.valueOf entry with
    | .ok x => x :: values t entries
    | .error _ => []

/-- The error of the first entry that has no value. -/
def failure? (t : Target) : List Entry → Option Error
  | [] => none
  | entry :: entries =>
    match t.valueOf entry with
    | .ok _ => failure? t entries
    | .error e => some e

theorem valueOf_ok {row : Datum} {value : t.Slot} (h : t.value? row = some value) :
    t.valueOf (.ok row) = .ok value := by
  unfold value? at h
  show (t.decode t.blank row).result.mapError Error.decode = _
  cases hresult : (t.decode t.blank row).result with
  | ok value' => rw [hresult] at h; cases h; rfl
  | error e => rw [hresult] at h; cases h

-- A row that does not fit gives the same error wherever it is decoded.
theorem valueOf_failed {row : Datum} {slot left : t.Slot} {e : DecodeError}
    (h : t.decode slot row = .failed e left) : t.valueOf (.ok row) = .error (.decode e) := by
  show (t.decode t.blank row).result.mapError Error.decode = _
  rw [t.result_decode t.blank slot row, h]
  rfl

-- Rows that have values come before what can be had of the entries after them.
theorem values_append {rows : List Datum} {got : List t.Slot}
    (h : rows.map t.value? = got.map some) (entries : List Entry) :
    t.values (rows.map .ok ++ entries) = got ++ t.values entries ∧
      t.failure? (rows.map .ok ++ entries) = t.failure? entries := by
  induction rows generalizing got with
  | nil =>
    rw [List.map_eq_nil_iff.mp h.symm]
    exact ⟨rfl, rfl⟩
  | cons row rows ih =>
    cases got with
    | nil => cases h
    | cons value got =>
      rw [List.map_cons, List.map_cons, List.cons.injEq] at h
      obtain ⟨hvalues, hfailure⟩ := ih h.2
      rw [List.map_cons, List.cons_append, values, failure?, valueOf_ok h.1, hvalues, hfailure]
      exact ⟨rfl, rfl⟩

/-- Whether the first of some entries has no value, and the error that it has instead. -/
def FailsAt (t : Target) (entries : List Entry) (e : Error) : Prop :=
  ∃ entry rest, entries = entry :: rest ∧ t.valueOf entry = .error e

theorem FailsAt.values_eq {entries : List Entry} {e : Error} (h : t.FailsAt entries e) :
    t.values entries = [] ∧ t.failure? entries = some e := by
  obtain ⟨entry, rest, rfl, hvalue⟩ := h
  rw [values, failure?, hvalue]
  exact ⟨rfl, rfl⟩

-- Rows that fit do not fail.
theorem not_failsAt {rows : List Datum} (h : ∀ row ∈ rows, ∃ value, t.value? row = some value)
    (e : Error) : ¬ t.FailsAt (rows.map .ok) e := by
  rintro ⟨entry, rest, hentries, hvalue⟩
  have hmem : entry ∈ (rows.map .ok : List Entry) := by
    rw [hentries]
    exact List.mem_cons_self
  obtain ⟨row, hrow, rfl⟩ := List.mem_map.mp hmem
  obtain ⟨value, hfits⟩ := h row hrow
  rw [valueOf_ok hfits] at hvalue
  cases hvalue

-- Rows fit exactly if they have values.
theorem fit_iff {rows : List Datum} :
    (∀ row ∈ rows, ∃ value, t.value? row = some value) ↔
      ∃ got : List t.Slot, rows.map t.value? = got.map some := by
  induction rows with
  | nil => exact ⟨fun _ => ⟨[], rfl⟩, fun _ _ h => absurd h List.not_mem_nil⟩
  | cons row rows ih =>
    rw [List.forall_mem_cons, ih]
    constructor
    · rintro ⟨⟨value, hvalue⟩, got, hgot⟩
      exact ⟨value :: got, by rw [List.map_cons, List.map_cons, hvalue, hgot]⟩
    · rintro ⟨_ | ⟨value, got⟩, hgot⟩
      · cases hgot
      · obtain ⟨hvalue, hgot⟩ := List.cons.inj hgot
        exact ⟨⟨value, hvalue⟩, got, hgot⟩

-- More entries at the end do not change what can be had of those before them.
theorem values_prefix (entries more : List Entry) :
    t.values entries <+: t.values (entries ++ more) := by
  induction entries with
  | nil => exact List.nil_prefix
  | cons entry entries ih =>
    rw [List.cons_append, values, values]
    split
    · exact (List.prefix_cons_inj _).mpr ih
    · exact List.nil_prefix

end Target

/-! ## 3. Entries ahead of an advance -/

namespace Next

variable {setup : Setup} {c : Cursor} {t : Target} {n : Next t} {slot : t.Slot}
  {turn : Turn (Next t)}

/-- The entries ahead of an advance: the rows queued and those read but not queued, and the entries
of the texts after them. -/
def ahead (setup : Setup) (c : Cursor) (n : Next t) (texts : List String) : List Entry :=
  (c.rows.toList ++ n.unpacked).map .ok ++ setup.entriesOfAll texts

/-- Whether an advance has met an entry without a value: the first one of these. -/
def Meets (n : Next t) (entries : List Entry) : Prop :=
  ∃ e, t.FailsAt entries e ∧ n.phase = .failed e

theorem ahead_of_sight? {sight : Cursor} (hsight : n.phase.sight? c = some sight)
    (later : List String) :
    n.ahead setup c (c.batches.toList ++ later) =
      sight.rows.toList.map .ok ++ setup.entriesOfAll (sight.batches.toList ++ later) := by
  obtain ⟨hrows, hbatches, -⟩ := sight?_account hsight
  rw [ahead, hrows, hbatches]

-- An advance that looks for a row takes the first entry ahead in hand, if there is one at the
-- front, and leaves the others ahead.
theorem Looks.ahead {sight : Cursor} (hsight : n.phase.sight? c = some sight)
    (h : Looks setup sight slot turn) (hfront : ¬ sight.FrontFails setup t) (later : List String) :
    ∃ hand, turn.next.Hands hand ∧
      hand.map .ok ++ turn.next.ahead setup turn.cursor (turn.cursor.batches.toList ++ later) =
        n.ahead setup c (c.batches.toList ++ later) := by
  rw [ahead_of_sight? hsight]
  cases h with
  | @row row rows hpop =>
    obtain ⟨value, hvalue⟩ := value?_of_front hfront hpop
    refine ⟨[row], ?_, ?_⟩
    · rw [receive_of_value? hvalue]
      exact ⟨row, rfl, hvalue⟩
    · rw [receive_of_value? hvalue, Queue.toList_of_pop?_eq_some hpop]
      simp [Next.ahead, unpacked]
  | @batch text batches rows hempty hpop hread =>
    refine ⟨[], rfl, ?_⟩
    rw [hempty, Queue.toList_of_pop?_eq_some hpop, List.cons_append, Setup.entriesOfAll_cons,
      Setup.entries_of_ok hread, Next.ahead, hempty]
    rfl
  | @badBatch text batches e hempty hpop hread =>
    exact absurd hread (rows_ne_error_of_front hfront hempty hpop e)
  | error | finished | closed | fetch =>
    refine ⟨[], rfl, ?_⟩
    simp [Next.ahead, unpacked]

-- If what is at the front cannot be decoded, that is the first entry ahead, and it has no value.
theorem Looks.meets {sight : Cursor} (hsight : n.phase.sight? c = some sight)
    (h : Looks setup sight slot turn) (hfront : sight.FrontFails setup t) (later : List String) :
    turn.next.Meets (n.ahead setup c (c.batches.toList ++ later)) := by
  rw [ahead_of_sight? hsight]
  cases h with
  | @row row rows hpop =>
    rw [Queue.toList_of_pop?_eq_some hpop]
    cases hdecode : t.decode slot row with
    | done value =>
      rw [Cursor.FrontFails, Queue.toList_of_pop?_eq_some hpop] at hfront
      have hvalue : t.value? row = none := hfront
      rw [Target.value?_of_decode hdecode] at hvalue
      cases hvalue
    | failed e left =>
      refine ⟨.decode e, ⟨.ok row, _, rfl, Target.valueOf_failed hdecode⟩, ?_⟩
      rw [receive, hdecode]
  | @batch text batches rows hempty hpop hread =>
    rw [Cursor.FrontFails, hempty, Queue.toList_of_pop?_eq_some hpop] at hfront
    obtain ⟨e, he⟩ := hfront
    rw [hread] at he
    cases he
  | @badBatch text batches e hempty hpop hread =>
    refine ⟨e, ⟨.error e, setup.entriesOfAll (batches.toList ++ later), ?_, rfl⟩, rfl⟩
    rw [hempty, Queue.toList_of_pop?_eq_some hpop, List.cons_append, Setup.entriesOfAll_cons,
      Setup.entries_of_error hread]
    rfl
  | error hrows hbatches | finished hrows hbatches | closed hrows hbatches | fetch hrows hbatches =>
    rw [Cursor.FrontFails, hrows, hbatches] at hfront
    exact hfront.elim

end Next
end RowStream
