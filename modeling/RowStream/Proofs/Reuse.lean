import RowStream.Proofs.Decode

/-!
# Destinations used for row after row

What a row leaves in a destination does not depend on what the destination held before, and neither
does the error if the row does not fit.  A destination that takes one row after another shows what
fresh ones would show, also when some of the rows do not fit.
-/

namespace RowStream

variable {α : Type} {blank : α} {decode : α → Datum → Filled α}

/-- The types of destinations, each with what a fresh one holds and the way in which it is decoded
into: those of the targets, those read from the JSON form of a row in any way whatever, and options,
lists and maps of them. -/
inductive Decoding : (α : Type) → α → (α → Datum → Filled α) → Prop
  | target (t : Target) : Decoding t.Slot t.blank t.decode
  | json {α : Type} (blank : α) (read : Json → Except DecodeError α) :
    Decoding α blank (Filled.json read)
  | option {α : Type} {blank : α} {decode : α → Datum → Filled α} (h : Decoding α blank decode) :
    Decoding (Option α) none (Filled.option blank decode)
  | list {α : Type} {blank : α} {decode : α → Datum → Filled α} (h : Decoding α blank decode) :
    Decoding (List α) [] (Filled.list blank decode)
  | map {α : Type} {blank : α} {decode : α → Datum → Filled α} (h : Decoding α blank decode) :
    Decoding (List (String × α)) [] (Filled.map blank decode)
  | unorderedMap {α : Type} {blank : α} {decode : α → Datum → Filled α}
    (h : Decoding α blank decode) :
    Decoding (List (String × α)) [] (Filled.unorderedMap blank decode)

theorem Decoding.steady (h : Decoding α blank decode) : Filled.Steady decode := by
  induction h with
  | target t => exact t.steady_decode
  | json _ read => exact Filled.steady_json read
  | option _ ih => exact ih.option
  | list => exact Filled.steady_list
  | map => exact Filled.steady_map
  | unorderedMap => exact Filled.steady_unorderedMap

/-- The outcomes of decoding rows into one destination, each time into what the one before left. -/
def Filled.reuse (decode : α → Datum → Filled α) (slot : α) : List Datum → List (Filled α)
  | [] => []
  | row :: rows => decode slot row :: reuse decode (decode slot row).content rows

-- The induction is on the rows, for every destination: the next row meets what this one left.
theorem Filled.Steady.result_reuse (h : Steady decode) (blank slot : α) (rows : List Datum) :
    (reuse decode slot rows).map result = rows.map fun row => (decode blank row).result := by
  induction rows generalizing slot with
  | nil => rfl
  | cons row rows ih =>
    rw [reuse, List.map_cons, List.map_cons, h slot blank row, ih]

/-- A row either fits a destination whatever it held before and leaves the same value there, or
fails with the same error.  Of rows that are decoded into one destination one after another, those
that fit leave what they leave in a fresh destination, and the others give the same error as
there. -/
theorem decoding_forgets (h : Decoding α blank decode) :
    (∀ old new row,
      (∃ value, decode old row = .done value ∧ decode new row = .done value) ∨
      ∃ error left left', decode old row = .failed error left ∧
        decode new row = .failed error left') ∧
    ∀ slot rows, (Filled.reuse decode slot rows).map Filled.result =
      rows.map fun row => (decode blank row).result := by
  constructor
  · intro old new row
    have hsame := h.steady old new row
    cases hold : decode old row with
    | done value =>
      cases hnew : decode new row with
      | done value' =>
        rw [hold, hnew] at hsame
        cases hsame
        exact .inl ⟨value, rfl, rfl⟩
      | failed error left => rw [hold, hnew] at hsame; cases hsame
    | failed error left =>
      cases hnew : decode new row with
      | done value => rw [hold, hnew] at hsame; cases hsame
      | failed error' left' =>
        rw [hold, hnew] at hsame
        cases hsame
        exact .inr ⟨error, left, left', rfl, rfl⟩
  · exact fun slot rows => h.steady.result_reuse blank slot rows

/-- A list of optional texts takes three rows; the second one fails on its last item and leaves its
first one behind. -/
theorem decoding_forgets_failed_row :
    let decode := (Target.list (.option .string)).decode
    let rows : List Datum :=
      [.array [.string "a"], .array [.null, .bool true], .array [.string "b", .null]]
    (Filled.reuse decode [] rows).map Filled.content = [[some "a"], [none], [some "b", none]] ∧
      (Filled.reuse decode [] rows).map Filled.result =
        [.ok [some "a"], .error (.mismatch .bool "string"), .ok [some "b", none]] := by
  intro decode rows
  exact ⟨rfl, (decoding_forgets (.target _)).2 [] rows⟩

end RowStream
