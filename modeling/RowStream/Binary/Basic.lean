/-!
# Binary floating-point numbers, exactly

The magnitudes of a binary format, taken in increasing order from zero, are numbered: a magnitude
is its position in that order.  Each is a whole number of units, the unit being the smallest
positive magnitude, so every operation here is exact arithmetic on natural numbers followed by one
rounding to nearest, ties to the even position.  The first position past the finite magnitudes
stands for infinity.
-/

namespace RowStream

-- Powers here are those of the core library, whatever else is imported.
attribute [local instance (high)] instPowNat

namespace Binary

/-! ## 1. Formats and magnitudes -/

/-- A format is fixed by the widths of the fraction and exponent fields of its encoding. -/
structure Format where
  fractionBits : Nat
  exponentBits : Nat
deriving DecidableEq, Repr

namespace Format

/-- The 64-bit format. -/
def double : Format := ⟨52, 11⟩

/-- The 32-bit format. -/
def single : Format := ⟨23, 8⟩

/-- The number of finite magnitudes, which is also the position of infinity. -/
def infinity (F : Format) : Nat := (2 ^ F.exponentBits - 1) * 2 ^ F.fractionBits

/-- One is `2 ^ scale` units. -/
def scale (F : Format) : Nat := 2 ^ (F.exponentBits - 1) - 2 + F.fractionBits

/-- One, counted in units. -/
def one (F : Format) : Nat := 2 ^ F.scale

/-- The binades above the evenly spaced start are numbered from zero. -/
def binade (F : Format) (position : Nat) : Nat := position / 2 ^ F.fractionBits - 1

/-- The magnitude at a position, in units. -/
def units (F : Format) (position : Nat) : Nat :=
  (position - F.binade position * 2 ^ F.fractionBits) * 2 ^ F.binade position

end Format

/-! ## 2. Rounding -/

/-- The quotient rounded to the nearest natural number, a half to the even one. -/
def roundHalfEven (num den : Nat) : Nat :=
  let quotient := num / den
  let rest := num % den
  if den < 2 * rest ∨ (den = 2 * rest ∧ quotient % 2 = 1) then quotient + 1 else quotient

/-- The quotient rounded to the nearest natural number, a half to the greater one. -/
def roundHalfUp (num den : Nat) : Nat := (2 * num + den) / (2 * den)

theorem roundHalfEven_le (num den : Nat) : roundHalfEven num den ≤ num / den + 1 := by
  unfold roundHalfEven
  dsimp only
  split <;> omega

namespace Format

/-- The position nearest to a quotient, a tie to the even position.  A quotient too large for the
format gets a position at or past infinity. -/
def nearest (F : Format) (num den : Nat) : Nat :=
  let scaled := num * F.one
  let binade := Nat.log2 (scaled / den) - F.fractionBits
  binade * 2 ^ F.fractionBits + roundHalfEven scaled (den * 2 ^ binade)

/-- A quotient below `2 ^ k` units has its position within the first `k - fractionBits + 1`
binades. -/
theorem nearest_le (F : Format) {num den k : Nat} (hk : F.fractionBits < k)
    (h : num * F.one / den < 2 ^ k) :
    F.nearest num den ≤ (k - F.fractionBits + 1) * 2 ^ F.fractionBits := by
  unfold nearest
  dsimp only
  generalize num * F.one = scaled at *
  generalize hq : scaled / den = q at *
  generalize hb : Nat.log2 q - F.fractionBits = binade
  have hlog : Nat.log2 q < k := by
    by_cases hzero : q = 0
    · subst hzero
      simpa using Nat.zero_lt_of_lt hk
    · exact (Nat.log2_lt hzero).2 h
  -- Within its binade a quotient has at most one bit more than the fraction.
  have hsig : q / 2 ^ binade < 2 ^ (F.fractionBits + 1) := by
    rw [Nat.div_lt_iff_lt_mul (Nat.two_pow_pos binade), ← Nat.pow_add]
    exact Nat.lt_of_lt_of_le Nat.lt_log2_self (Nat.pow_le_pow_right (by decide) (by omega))
  have hround := roundHalfEven_le scaled (den * 2 ^ binade)
  rw [← Nat.div_div_eq_div_mul, hq] at hround
  have hbinade : binade ≤ k - F.fractionBits - 1 := by omega
  have hmul := Nat.mul_le_mul_right (2 ^ F.fractionBits) hbinade
  have hsplit : (k - F.fractionBits + 1) * 2 ^ F.fractionBits =
      (k - F.fractionBits - 1) * 2 ^ F.fractionBits + 2 ^ (F.fractionBits + 1) := by
    have : k - F.fractionBits + 1 = (k - F.fractionBits - 1) + 2 := by omega
    rw [this, Nat.add_mul, Nat.pow_succ, Nat.mul_comm 2]
  omega

/-- The position of the rounded product of two magnitudes. -/
def product (F : Format) (a b : Nat) : Nat := F.nearest (F.units a * F.units b) (F.one * F.one)

/-- The position of the rounded quotient of two magnitudes. -/
def quotient (F : Format) (a b : Nat) : Nat := F.nearest (F.units a) (F.units b)

/-- The position of a power of ten, rounded. -/
def powerOfTen (F : Format) (exponent : Nat) : Nat := F.nearest (10 ^ exponent) 1

end Format

end Binary

/-! ## 3. Numbers -/

/-- A finite number: a sign and the position of its magnitude. -/
structure Binary (F : Binary.Format) where
  negative : Bool
  position : Nat
  finite : position < F.infinity
deriving DecidableEq

/-- A finite number or an infinity. -/
inductive Binary.Extended (F : Binary.Format)
  | finite (x : Binary F)
  | infinite (negative : Bool)
deriving DecidableEq

abbrev Double := Binary .double

namespace Binary

variable {F : Format}

/-- A magnitude in units, of the number without its sign. -/
def units (x : Binary F) : Nat := F.units x.position

/-- The finite number at a position, if there is one. -/
def ofPosition? (negative : Bool) (position : Nat) : Option (Binary F) :=
  if h : position < F.infinity then some ⟨negative, position, h⟩ else none

/-- The number at a position, positions past the finite ones being infinite. -/
def Extended.ofPosition (negative : Bool) (position : Nat) : Extended F :=
  if h : position < F.infinity then .finite ⟨negative, position, h⟩ else .infinite negative

/-- The two zeros are one value; all other numbers are told apart by sign and magnitude. -/
def sameValue (x y : Binary F) : Bool :=
  x.position == y.position && (x.position == 0 || x.negative == y.negative)

/-- The exact value if it is an integer. -/
def integer? (x : Binary F) : Option Int :=
  if x.units % F.one = 0 then
    let magnitude : Int := x.units / F.one
    some (if x.negative then -magnitude else magnitude)
  else none

/-- The same value in another format, rounded. -/
def convert (G : Format) (x : Binary F) : Extended G :=
  .ofPosition x.negative (G.nearest x.units F.one)

/-- An integer in a format, rounded. -/
def Extended.ofInt (F : Format) (n : Int) : Extended F :=
  .ofPosition (n < 0) (F.nearest n.natAbs 1)

/-! ## 4. Encoding -/

/-- The encoding as an unsigned integer: the sign bit above the position. -/
def Extended.encoding : Extended F → Nat
  | .finite x => (if x.negative then 1 else 0) * 2 ^ (F.fractionBits + F.exponentBits) + x.position
  | .infinite negative =>
    (if negative then 1 else 0) * 2 ^ (F.fractionBits + F.exponentBits) + F.infinity

/-! ## 5. Integers as 64-bit numbers -/

theorem nearest_lt_infinity {n : Nat} (h : n < UInt64.size) :
    Format.double.nearest n 1 < Format.double.infinity := by
  have hunits (s : Nat) : n * 2 ^ s / 1 < 2 ^ (64 + s) := by
    rw [Nat.div_one, Nat.pow_add]
    exact Nat.mul_lt_mul_of_pos_right h (Nat.two_pow_pos s)
  exact Nat.lt_of_le_of_lt
    (Format.nearest_le .double (by decide) (hunits Format.double.scale)) (by decide)

/-- A natural number below `2 ^ 64` with a sign, rounded. -/
def ofNat64 (negative : Bool) (n : Nat) (h : n < UInt64.size) : Double :=
  ⟨negative, Format.double.nearest n 1, nearest_lt_infinity h⟩

instance : Inhabited Double := ⟨ofNat64 false 0 (by decide)⟩

end Binary
end RowStream
