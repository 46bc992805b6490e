import RowStream.Binary.Layout
import RowStream.Json.Basic

/-!
# Spelled numbers

A number as it is spelled in a JSON text, the number it denotes, and the text that a number is
written as.  A spelling with a point or an exponent denotes a binary number.  Its digits are
gathered into a significand below `2 ^ 64`, and the significand is scaled by a power of ten with
one rounding for the significand and one for each scaling step; so the result need not be the
binary number nearest to the spelled decimal.
-/

namespace RowStream.Number

open Binary (Format)

/-! ## 1. Spellings -/

/-- The parts of a spelled number.  No fraction digits means no point. -/
structure Spelling where
  negative : Bool
  whole : List Nat
  fraction : List Nat
  exponent : Option Int
deriving DecidableEq, Repr

/-- Gathers digits into a significand while it stays below `2 ^ 64`; gives back the digits from
the first one that does not fit. -/
def gather (significand : Nat) : List Nat → Nat × List Nat
  | [] => (significand, [])
  | d :: ds =>
    if significand * 10 + d < UInt64.size then gather (significand * 10 + d) ds
    else (significand, d :: ds)

/-! ## 2. Scaling by powers of ten -/

/-- The greatest power of ten that scales in one step. -/
def greatestPower : Nat := 308

/-- The position of a magnitude divided by a power of ten, the greatest power at a time. -/
def scaleDown (position exponent : Nat) : Nat :=
  if exponent ≤ greatestPower then
    Format.double.quotient position (Format.double.powerOfTen exponent)
  else if position = 0 then 0
  else
    scaleDown (Format.double.quotient position (Format.double.powerOfTen greatestPower))
      (exponent - greatestPower)
termination_by exponent
decreasing_by unfold greatestPower at *; omega

/-- The position of a magnitude multiplied by a power of ten; only zero can be multiplied by more
than the greatest. -/
def scaleUp (position exponent : Nat) : Nat :=
  if exponent ≤ greatestPower then
    Format.double.product position (Format.double.powerOfTen exponent)
  else if position = 0 then 0
  else Format.double.infinity

/-- The number `significand * 10 ^ exponent`, if it is finite. -/
def ofParts? (negative : Bool) (significand : Nat) (exponent : Int) : Option Double :=
  let position := Format.double.nearest significand 1
  Binary.ofPosition? negative <|
    if 0 ≤ exponent then scaleUp position exponent.toNat else scaleDown position (-exponent).toNat

/-! ## 3. Reading -/

/-- The number that an integer spelling within `2 ^ 64` denotes.  A negative one below `-2 ^ 63`
and a negative zero are binary numbers. -/
def ofInteger? (negative : Bool) (magnitude : Nat) : Option Number :=
  if negative then
    if h : 0 < magnitude ∧ magnitude ≤ 0x8000000000000000 then
      some (.negative ⟨magnitude - 1, by omega⟩)
    else (ofParts? true magnitude 0).map .binary
  else if h : magnitude < UInt64.size then some (.natural ⟨magnitude, h⟩)
  else none

/-- The number that a spelling denotes, if it is finite. -/
def ofSpelling? (s : Spelling) : Option Number :=
  let (start, excess) := gather 0 s.whole
  if s.fraction.isEmpty ∧ s.exponent.isNone ∧ excess.isEmpty then ofInteger? s.negative start
  else
    -- Digits that do not fit still count towards the exponent if they stand before the point.
    let (significand, ignored) := gather start s.fraction
    let places : Int := s.fraction.length - ignored.length
    (ofParts? s.negative significand (excess.length - places + s.exponent.getD 0)).map .binary

/-! ## 4. Writing -/

/-- The characters of a number. -/
def chars : Number → List Char
  | natural n => Decimal.digitChars n.val
  | negative m => '-' :: Decimal.digitChars (m.val + 1)
  | binary x => x.chars .document

/-- The text of a number. -/
def text (n : Number) : String := String.ofList n.chars

example : ofSpelling? ⟨true, [0], [], none⟩ = some (binary ⟨true, 0, by decide⟩) := by
  decide +kernel
example : (ofSpelling? ⟨false, [1], [], some 309⟩).isNone := by decide +kernel

end RowStream.Number
