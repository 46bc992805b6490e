import RowStream.Binary.Basic

/-!
# Shortest decimals

The shortest decimal of a binary magnitude is the one with the fewest digits among those that
round back to it, and of these the nearest.  Of two equally near ones a tie rule takes one.  Decimal
grids `10 ^ k` are tried from coarse to fine; on each only the two neighbours of the magnitude can
be nearest to it.
-/

namespace RowStream

-- Powers here are those of the core library, whatever else is imported.
attribute [local instance (high)] instPowNat

/-- The decimal `digits * 10 ^ exponent`. -/
structure Decimal where
  digits : Nat
  exponent : Int
deriving DecidableEq, Repr

/-- Which of two equally near decimals is taken. -/
inductive Decimal.Tie
  /-- The one whose last digit is even. -/
  | toEven
  /-- The greater one. -/
  | up
deriving DecidableEq, Repr

/-- The quotient rounded to the nearest natural number by a tie rule. -/
def Decimal.Tie.round : Decimal.Tie → Nat → Nat → Nat
  | toEven => Binary.roundHalfEven
  | up => Binary.roundHalfUp

namespace Binary.Format

/-- The reals that round to a magnitude, by the two midpoints that bound them, in half units; the
midpoints belong to it when its position is even. -/
structure Cell where
  low : Nat
  middle : Nat
  high : Nat
  closed : Bool

/-- The cell of a position other than zero. -/
def cell (F : Format) (position : Nat) : Cell where
  low := F.units position + F.units (position - 1)
  middle := 2 * F.units position
  high := F.units position + F.units (position + 1)
  closed := position % 2 == 0

/-- Whether `num / den` half units lie in the cell. -/
def Cell.holds (c : Cell) (num den : Nat) : Bool :=
  if c.closed then c.low * den ≤ num && num ≤ c.high * den
  else c.low * den < num && num < c.high * den

/-- The multiple of `num / den` half units that lies in the cell and is nearest to its middle. -/
def Cell.nearestMultiple? (c : Cell) (tie : Decimal.Tie) (num den : Nat) : Option Nat :=
  -- Every other multiple is farther from the middle on its side, so these two are enough.
  let below := c.middle * den / num
  let above := below + 1
  match c.holds (below * num) den, c.holds (above * num) den with
  | true, true => some (tie.round (c.middle * den) num)
  | true, false => some below
  | false, true => some above
  | false, false => none

/-- A bound on the decimal exponents that a format needs, of either sign. -/
def reach (F : Format) : Nat := F.scale / 3 + 1

/-- The nearest multiple on the first of the grids `10 ^ (steps - 1 - reach)` down to
`10 ^ (-reach)` that has one. -/
def shortestFrom (F : Format) (tie : Decimal.Tie) (c : Cell) : Nat → Decimal
  | 0 => ⟨0, 0⟩
  | steps + 1 =>
    let exponent : Int := (steps : Int) - F.reach
    match c.nearestMultiple? tie (2 * F.one * 10 ^ exponent.toNat) (10 ^ (-exponent).toNat) with
    | some digits => ⟨digits, exponent⟩
    | none => F.shortestFrom tie c steps

/-- A number of steps past which every grid is too coarse to have a point in the cell. -/
def coarsest (F : Format) (c : Cell) : Nat := Nat.log2 (c.high * 10 ^ F.reach / F.one) / 3 + 2

end Binary.Format

/-- The shortest decimal that reads back as the magnitude of a number. -/
def Binary.shortest {F : Binary.Format} (tie : Decimal.Tie) (x : Binary F) : Decimal :=
  if x.position = 0 then ⟨0, 0⟩
  else F.shortestFrom tie (F.cell x.position) (F.coarsest (F.cell x.position))

example :
    (Binary.ofNat64 false 9007199254740993 (by decide)).shortest .toEven =
      ⟨9007199254740992, 0⟩ := by
  decide +kernel
example : (⟨false, 1, by decide⟩ : Double).shortest .toEven = ⟨5, -324⟩ := by decide +kernel

-- The number `2 ^ 50 + 1 / 4` lies halfway between two decimals with one digit after the point.
example :
    (⟨false, 1073 * 2 ^ 52 + 1, by decide⟩ : Double).shortest .toEven =
      ⟨11258999068426242, -1⟩ := by
  decide +kernel
example :
    (⟨false, 1073 * 2 ^ 52 + 1, by decide⟩ : Double).shortest .up = ⟨11258999068426243, -1⟩ := by
  decide +kernel

end RowStream
