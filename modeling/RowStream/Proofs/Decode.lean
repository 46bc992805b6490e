import RowStream.Decode.Destination

/-!
# Decoding into used destinations

Whether a row fits a destination, and the value that it then leaves there, do not depend on what
the destination held before.
-/

namespace RowStream

/-- The value or the error of an outcome, apart from what a failure leaves behind. -/
def Filled.result {α : Type} : Filled α → Except DecodeError α
  | done value => .ok value
  | failed error _ => .error error

namespace Filled

variable {α : Type} {blank : α} {decode : α → Datum → Filled α} {row : Datum}

theorem result_ofExcept (old : α) (outcome : Except DecodeError α) :
    (ofExcept old outcome).result = outcome := by
  cases outcome <;> rfl

/-- Whether decoding gives the same value or error whatever the destination held before. -/
def Steady (decode : α → Datum → Filled α) : Prop :=
  ∀ old new row, (decode old row).result = (decode new row).result

-- An option passes on the result for its content, whatever that was before.
theorem result_option {old : Option α} (hrow : row ≠ .null) :
    (option blank decode old row).result = (decode (old.getD blank) row).result.map some := by
  have hsome : option blank decode old row =
      match decode (old.getD blank) row with
      | done x => done (some x)
      | failed error _ => failed error none := by
    cases row with
    | null => exact absurd rfl hrow
    | _ => rfl
  rw [hsome]
  cases decode (old.getD blank) row <;> rfl

theorem Steady.option (h : Steady decode) : Steady (Filled.option blank decode) := by
  intro old new row
  by_cases hrow : row = .null
  · rw [hrow]
    rfl
  · rw [result_option hrow, result_option hrow, h]

theorem steady_list : Steady (list blank decode) := by
  intro old new row
  cases row <;> rfl

theorem steady_map : Steady (map blank decode) := by
  intro old new row
  cases row <;> rfl

theorem steady_unorderedMap : Steady (unorderedMap blank decode) := by
  intro old new row
  unfold unorderedMap
  cases map blank decode [] row <;> rfl

theorem steady_json (read : Json → Except DecodeError α) : Steady (json read) := by
  intro old new row
  rw [json, json, result_ofExcept, result_ofExcept]

end Filled

/-- The value that a row leaves in a destination, if it fits. -/
def Target.value? (t : Target) (row : Datum) : Option t.Slot :=
  (t.decode t.blank row).result.toOption

namespace Target

theorem steady_decode (t : Target) : Filled.Steady t.decode := by
  induction t with
  | option t ih => exact ih.option
  | list t => exact Filled.steady_list
  | map t => exact Filled.steady_map
  | unorderedMap t => exact Filled.steady_unorderedMap
  | user | json => exact Filled.steady_json _
  | datum | value => exact fun _ _ _ => rfl
  | _ => exact fun _ _ _ => by simp only [decode, Filled.result_ofExcept]

theorem result_decode (t : Target) (old new : t.Slot) (row : Datum) :
    (t.decode old row).result = (t.decode new row).result := t.steady_decode old new row

-- A row that fits is decoded to its value.
theorem decode_eq_done {t : Target} {row : Datum} {value : t.Slot} (slot : t.Slot)
    (h : t.value? row = some value) : t.decode slot row = .done value := by
  have hresult := t.result_decode slot t.blank row
  unfold value? at h
  cases hslot : t.decode slot row with
  | done x =>
    rw [hslot] at hresult
    rw [← hresult] at h
    exact congrArg Filled.done (Option.some.inj h)
  | failed e left =>
    rw [hslot] at hresult
    rw [← hresult] at h
    cases h

theorem value?_of_decode {t : Target} {row : Datum} {slot value : t.Slot}
    (h : t.decode slot row = .done value) : t.value? row = some value := by
  rw [value?, t.result_decode t.blank slot row, h]
  rfl

end Target
end RowStream
