import RowStream.Time.Civil

/-!
# Points in time

A point in time is an instant together with the offset of the clock that showed it.  Two points
are the same instant whatever their offsets.
-/

namespace RowStream

/-- An instant and the offset at which it is shown. -/
structure Time where
  /-- Whole seconds since the start of 1970 in universal time. -/
  seconds : Int
  /-- Nanoseconds into the second; a leap second counts on from `10 ^ 9`. -/
  nanos : Nat
  /-- Seconds by which the shown clock is ahead of universal time. -/
  offset : Int
deriving DecidableEq, Repr

namespace Time

/-- The start of 1970 in universal time. -/
def epoch : Time := ⟨0, 0, 0⟩

instance : Inhabited Time := ⟨epoch⟩

/-- The first second of the supported range, the start of the year -262143. -/
def firstSecond : Int := -8334601228800

/-- The last second of the supported range, the end of the year 262142. -/
def lastSecond : Int := 8210266876799

/-- The point a number of milliseconds after the start of 1970, if it is in the supported range. -/
def ofMillis? (millis offset : Int) : Option Time :=
  let seconds := millis / 1000
  if firstSecond ≤ seconds ∧ seconds ≤ lastSecond then
    some ⟨seconds, (millis % 1000).toNat * 1000000, offset⟩
  else none

/-- Whether two points are one instant. -/
def sameInstant (a b : Time) : Bool := a.seconds == b.seconds && a.nanos == b.nanos

/-- The same instant shown in universal time. -/
def toUniversal (t : Time) : Time := { t with offset := 0 }

/-- The second that the shown clock counts. -/
def localSeconds (t : Time) : Int := t.seconds + t.offset

/-- The date that the shown clock gives. -/
def date (t : Time) : Date := Date.ofDays (t.localSeconds / 86400)

/-- The second of the day that the shown clock gives. -/
def secondOfDay (t : Time) : Nat := (t.localSeconds % 86400).toNat

end Time
end RowStream
