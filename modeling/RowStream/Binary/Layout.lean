import RowStream.Binary.Shortest

/-!
# Decimal layouts

How a decimal is written: which magnitudes are written positionally, and whether a whole number
keeps a point.  Outside the positional range one digit stands before the point and the exponent
carries its sign.
-/

namespace RowStream

namespace Decimal

/-- The decisions that a way of writing numbers makes. -/
structure Layout where
  /-- Whether a number whose first digit has this decimal place is written positionally. -/
  positional : Int → Bool
  /-- Whether a whole number written positionally ends in `.0`. -/
  keepsPoint : Bool
  /-- Which of two shortest decimals equally near to a number is written. -/
  tie : Tie

/-- The digits of a natural number, most significant first. -/
def digitChars (n : Nat) : List Char := Nat.toDigits 10 n

/-- An integer with a minus sign when negative. -/
def intChars (n : Int) : List Char :=
  (if n < 0 then ['-'] else []) ++ digitChars n.natAbs

/-- Digits with a point put after the first `places` of them, filled up with zeros on either
side. -/
def positionalChars (layout : Layout) (digits : List Char) (places : Int) : List Char :=
  if places ≤ 0 then
    ['0', '.'] ++ List.replicate (-places).toNat '0' ++ digits
  else
    let whole := digits.take places.toNat
    let fraction := digits.drop places.toNat
    whole ++ List.replicate (places.toNat - digits.length) '0' ++
      (if fraction.isEmpty then (if layout.keepsPoint then ['.', '0'] else [])
       else '.' :: fraction)

/-- One digit, a point if more follow, and the exponent with its sign. -/
def exponentialChars (digits : List Char) (place : Int) : List Char :=
  digits.take 1 ++ (if digits.length ≤ 1 then [] else '.' :: digits.drop 1) ++
    ['e', if place < 0 then '-' else '+'] ++ digitChars place.natAbs

/-- The text of a decimal. -/
def chars (layout : Layout) (d : Decimal) : List Char :=
  let digits := digitChars d.digits
  let place : Int := digits.length - 1 + d.exponent
  if layout.positional place then positionalChars layout digits (place + 1)
  else exponentialChars digits place

end Decimal

/-- The text of a number: a sign if negative, also before zero, and its shortest decimal. -/
def Binary.chars {F : Binary.Format} (layout : Decimal.Layout) (x : Binary F) : List Char :=
  (if x.negative then ['-'] else []) ++ (x.shortest layout.tie).chars layout

namespace Decimal.Layout

/-- Magnitudes from `10 ^ -5` up to `10 ^ 16` are written positionally, a point is kept, and a tie
goes to the even digit. -/
def document : Layout := ⟨fun place => -5 ≤ place && place < 16, true, .toEven⟩

/-- All magnitudes are written positionally, whole numbers without a point, and a tie goes up. -/
def plain : Layout := ⟨fun _ => true, false, .up⟩

example : chars document ⟨1, 15⟩ = "1000000000000000.0".toList := by decide +kernel
example : chars document ⟨1, 16⟩ = "1e+16".toList := by decide +kernel
example : chars document ⟨1, -5⟩ = "0.00001".toList := by decide +kernel
example : chars document ⟨15, -7⟩ = "1.5e-6".toList := by decide +kernel
example : chars plain ⟨15, 1⟩ = "150".toList := by decide +kernel
example : chars plain ⟨15, -3⟩ = "0.015".toList := by decide +kernel

end Decimal.Layout
end RowStream
