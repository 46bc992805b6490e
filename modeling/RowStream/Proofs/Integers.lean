import Mathlib.Algebra.Order.Field.Rat
import Mathlib.Data.Int.Cast.Lemmas
import RowStream.Decode.Destination

/-!
# Integers taken exactly

The exact value of a number is read off the form that it is stored in.  An integer destination takes
a number if its exact value is an integer of the type, and refuses it otherwise: that a binary
number is taken for an integer of 128 bits on the way never shows.
-/

namespace RowStream

/-! ## 1. Binary numbers -/

namespace Binary

variable {x : Double} {i : ℤ}

/-- The exact value of a 64-bit number, from the sign, exponent field and fraction field of its
encoding.  The fraction has a bit before it unless the exponent field is zero. -/
def value (x : Double) : ℚ :=
  let exponent : Nat := x.position / 0x10000000000000
  let fraction : Nat := x.position % 0x10000000000000
  let magnitude : ℚ :=
    if exponent = 0 then fraction * 2 ^ (-1074 : ℤ)
    else (0x10000000000000 + fraction) * 2 ^ ((exponent : ℤ) - 1075)
  if x.negative then -magnitude else magnitude

theorem cast_one : (Format.double.one : ℚ) = 2 ^ (1074 : ℤ) := by
  have hscale : Format.double.scale = 1074 := by decide
  have hone : Format.double.one = (2 : ℕ) ^ Format.double.scale := rfl
  rw [hone, Nat.cast_pow, hscale]
  rfl

theorem units_of_fields (position : Nat) :
    Format.double.units position =
      if position / 0x10000000000000 = 0 then position
      else (0x10000000000000 + position % 0x10000000000000) *
        2 ^ (position / 0x10000000000000 - 1) := by
  show (position - (position / 0x10000000000000 - 1) * 0x10000000000000) *
    2 ^ (position / 0x10000000000000 - 1) = _
  split
  next hzero => rw [hzero, Nat.zero_sub, Nat.zero_mul, Nat.sub_zero, pow_zero, Nat.mul_one]
  next hpos =>
    congr 1
    omega

/-- The fields of a number and its units give the same magnitude. -/
theorem value_eq_units (x : Double) :
    x.value = (if x.negative then -1 else 1) * ((x.units : ℚ) / Format.double.one) := by
  have hmagnitude : (x.units : ℚ) / Format.double.one =
      if x.position / 0x10000000000000 = 0 then
        ((x.position % 0x10000000000000 : Nat) : ℚ) * 2 ^ (-1074 : ℤ)
      else (0x10000000000000 + ((x.position % 0x10000000000000 : Nat) : ℚ)) *
        2 ^ (((x.position / 0x10000000000000 : Nat) : ℤ) - 1075) := by
    rw [units, units_of_fields, cast_one, div_eq_mul_inv, ← zpow_neg]
    split
    next hzero => rw [Nat.mod_eq_of_lt (by omega)]
    next hpos =>
      obtain ⟨e, he⟩ : ∃ e, x.position / 0x10000000000000 = e + 1 :=
        ⟨x.position / 0x10000000000000 - 1, by omega⟩
      rw [he, Nat.add_sub_cancel, Nat.cast_mul, Nat.cast_pow, mul_assoc, Nat.cast_ofNat,
        ← zpow_natCast, ← zpow_add₀ (by decide)]
      push_cast
      congr 2
      omega
  rw [value, ← hmagnitude]
  split
  · rw [neg_one_mul]
  · rw [one_mul]

-- A quotient is an integer if nothing is left over.
theorem div_eq_intCast_iff {num den : Nat} (hden : 0 < den) :
    (num : ℚ) / den = i ↔ num % den = 0 ∧ (num : ℤ) / den = i := by
  have hden' : (den : ℚ) ≠ 0 := Nat.cast_ne_zero.mpr hden.ne'
  rw [div_eq_iff hden']
  constructor
  · intro h
    have hproduct : (num : ℤ) = i * den := by exact_mod_cast h
    refine ⟨?_, ?_⟩
    · have hleft : (num : ℤ) % den = 0 := by rw [hproduct, Int.mul_emod_left]
      exact_mod_cast hleft
    · rw [hproduct, Int.mul_ediv_cancel _ (by omega)]
  · rintro ⟨hleft, rfl⟩
    have hproduct : (num : ℤ) = num / den * den :=
      (Int.ediv_mul_cancel (by exact_mod_cast Nat.dvd_of_mod_eq_zero hleft)).symm
    exact_mod_cast hproduct

theorem integer?_eq_some_iff : x.integer? = some i ↔ x.value = i := by
  have hone : 0 < Format.double.one := Nat.two_pow_pos _
  -- The sign is put on the other side, where it is the sign of an integer.
  have hvalue : x.value = i ↔
      (x.units : ℚ) / Format.double.one = ((if x.negative then -i else i : ℤ) : ℚ) := by
    rw [value_eq_units]
    cases x.negative with
    | true =>
      rw [if_pos rfl, if_pos rfl, neg_one_mul, Int.cast_neg]
      exact neg_eq_iff_eq_neg
    | false => rw [if_neg Bool.false_ne_true, if_neg Bool.false_ne_true, one_mul]
  rw [hvalue, div_eq_intCast_iff hone, integer?]
  split
  next hwhole =>
    rw [Option.some_inj, and_iff_right hwhole]
    cases x.negative with
    | true =>
      rw [if_pos rfl, if_pos rfl]
      exact neg_eq_iff_eq_neg
    | false => rw [if_neg Bool.false_ne_true, if_neg Bool.false_ne_true]
  next hrest => exact ⟨(fun h => by cases h), fun h => absurd h.1 hrest⟩

end Binary

/-! ## 2. Values of a type -/

theorem IntKind.value?_eq_some_iff {kind : IntKind} {i : ℤ} {v : kind.Value} :
    kind.value? i = some v ↔ v.val = i := by
  unfold value?
  split
  next hrange =>
    rw [Option.some_inj]
    exact ⟨fun h => h ▸ rfl, fun h => Subtype.ext h.symm⟩
  next hrange =>
    refine ⟨fun h => by (cases h), ?_⟩
    rintro rfl
    exact absurd v.property hrange

namespace Number

variable {n : Number} {i : ℤ} {kind : IntKind}

/-- The exact value of a number. -/
def value : Number → ℚ
  | natural n => n.val
  | negative m => -((m.val : ℚ) + 1)
  | binary x => x.value

theorem integer?_eq_some_iff : n.integer? = some i ↔ n.value = i := by
  cases n with
  | natural n | negative m =>
    rw [integer?, value, Option.some_inj]
    exact_mod_cast Iff.rfl
  | binary x => exact Binary.integer?_eq_some_iff

-- Every type is within 128 bits, so an integer that is not the same afterwards fits none.
theorem value?_saturate (kind : IntKind) (i : ℤ) : kind.value? (saturate i) = kind.value? i := by
  have hleast : -0x8000000000000000 ≤ kind.least := by cases kind <;> decide
  have hgreatest : kind.greatest ≤ 0xFFFFFFFFFFFFFFFF := by cases kind <;> decide
  unfold IntKind.value?
  by_cases hsame : saturate i = i
  · rw [hsame]
  · unfold saturate at *
    rw [dif_neg (by omega), dif_neg (by omega)]

theorem wide?_bind_value? (n : Number) (kind : IntKind) :
    n.wide?.bind kind.value? = n.integer?.bind kind.value? := by
  cases n with
  | natural | negative => rfl
  | binary x =>
    show (x.integer?.map saturate).bind kind.value? = x.integer?.bind kind.value?
    rw [Option.bind_map]
    exact congrArg (Option.bind x.integer?) (funext (value?_saturate kind))

theorem bind_value?_eq_some_iff {v : kind.Value} :
    n.integer?.bind kind.value? = some v ↔ n.value = (v.val : ℚ) := by
  rw [Option.bind_eq_some_iff]
  constructor
  · rintro ⟨i, hi, hv⟩
    rw [integer?_eq_some_iff.mp hi, IntKind.value?_eq_some_iff.mp hv]
  · exact fun h => ⟨v.val, integer?_eq_some_iff.mpr h, IntKind.value?_eq_some_iff.mpr rfl⟩

end Number

/-! ## 3. The theorem -/

namespace Datum

variable {n : Number} {kind : IntKind}

theorem toInt_of_some {v : kind.Value} (h : n.wide?.bind kind.value? = some v) :
    (number n).toInt kind = .ok v := by
  rw [toInt, h]

theorem toInt_of_none (h : n.wide?.bind kind.value? = none) :
    (number n).toInt kind = .error (.doesNotFit n kind) := by
  rw [toInt, h]

end Datum

/-- An integer destination holds a value after a number exactly if that is the exact value of the
number.  A number whose exact value is no integer of the type does not fit, and the destination is
left as it was. -/
theorem integers_decoded_exactly (kind : IntKind) (old : kind.Value) (n : Number) :
    (∀ v : kind.Value,
      (Target.int kind).decode old (.number n) = .done v ↔ n.value = (v.val : ℚ)) ∧
    ((Target.int kind).decode old (.number n) = .failed (.doesNotFit n kind) old ↔
      ¬ ∃ i : ℤ, n.value = i ∧ kind.least ≤ i ∧ i ≤ kind.greatest) := by
  have hfits : (∃ i : ℤ, n.value = i ∧ kind.least ≤ i ∧ i ≤ kind.greatest) ↔
      ∃ v : kind.Value, n.value = (v.val : ℚ) := by
    constructor
    · rintro ⟨i, hi, hrange⟩
      exact ⟨⟨i, hrange⟩, hi⟩
    · rintro ⟨v, hv⟩
      exact ⟨v.val, hv, v.property⟩
  rw [hfits, Target.decode]
  cases hread : n.wide?.bind kind.value? with
  | some v =>
    have hv : n.value = (v.val : ℚ) := by
      rwa [n.wide?_bind_value? kind, Number.bind_value?_eq_some_iff] at hread
    rw [Datum.toInt_of_some hread, Filled.ofExcept]
    refine ⟨fun w => ?_, fun h => by (cases h), fun hnone => absurd ⟨v, hv⟩ hnone⟩
    rw [hv, Int.cast_inj, Filled.done.injEq, Subtype.ext_iff]
  | none =>
    have hnone (v : kind.Value) : n.value ≠ (v.val : ℚ) := fun hv => by
      rw [n.wide?_bind_value? kind, Number.bind_value?_eq_some_iff.mpr hv] at hread
      cases hread
    rw [Datum.toInt_of_none hread, Filled.ofExcept]
    refine ⟨fun v => ⟨fun h => by (cases h), fun hv => absurd hv (hnone v)⟩, fun _ h => ?_,
      fun _ => rfl⟩
    obtain ⟨v, hv⟩ := h
    exact hnone v hv

-- The binary number `2 ^ 63` is one past the greatest value, its negative is the least value.
example :
    (Datum.number (.binary ⟨false, 0x43E0000000000000, by decide⟩)).toInt .i64 =
      .error (.doesNotFit (.binary ⟨false, 0x43E0000000000000, by decide⟩) .i64) := by
  decide +kernel
example :
    (Datum.number (.binary ⟨true, 0x43E0000000000000, by decide⟩)).toInt .i64 =
      .ok ⟨-0x8000000000000000, by decide⟩ := by
  decide +kernel

end RowStream
