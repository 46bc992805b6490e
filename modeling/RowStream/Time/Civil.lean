/-!
# Civil dates

Dates of the Gregorian calendar, extended without limit in both directions, against the count of
days from the first of January 1970.  Years are counted from March, so that the leap day ends
them, in eras of four hundred years.  Main statement: the day of the date of a day is that day.
-/

namespace RowStream.Time

/-- A date of the Gregorian calendar. -/
structure Date where
  year : Int
  month : Nat
  day : Nat
deriving DecidableEq, Repr

namespace Date

/-! ## 1. Days to dates -/

/-- The days in an era of four hundred years. -/
def eraDays : Int := 146097

/-- The days from the first of March of the year zero to the first of January 1970. -/
def epochShift : Int := 719468

/-- The days before a year of an era. -/
def daysBeforeYear (yearOfEra : Nat) : Nat := 365 * yearOfEra + yearOfEra / 4 - yearOfEra / 100

/-- The year of an era that holds a day of the era: whole centuries, then whole spans of four
years, then years, the last of each span being longer than the others. -/
def yearOfEra (dayOfEra : Nat) : Nat :=
  let century := min 3 (dayOfEra / 36524)
  let dayOfCentury := dayOfEra - 36524 * century
  let span := dayOfCentury / 1461
  let dayOfSpan := dayOfCentury - 1461 * span
  100 * century + 4 * span + min 3 (dayOfSpan / 365)

/-- The days before a month of a year that begins in March. -/
def daysBeforeMonth (month : Nat) : Nat := (153 * month + 2) / 5

/-- The month that holds a day of a year that begins in March. -/
def monthOfYear (dayOfYear : Nat) : Nat := (5 * dayOfYear + 2) / 153

/-- The date of a day. -/
def ofDays (days : Int) : Date :=
  let era := (days + epochShift) / eraDays
  let dayOfEra := ((days + epochShift) % eraDays).toNat
  let year := yearOfEra dayOfEra
  let dayOfYear := dayOfEra - daysBeforeYear year
  let month := monthOfYear dayOfYear
  { year := era * 400 + year + (if month < 10 then 0 else 1)
    month := if month < 10 then month + 3 else month - 9
    day := dayOfYear - daysBeforeMonth month + 1 }

/-! ## 2. Dates to days -/

/-- The day of a date. -/
def toDays (date : Date) : Int :=
  let year := if date.month ≤ 2 then date.year - 1 else date.year
  let dayOfYear := daysBeforeMonth ((date.month + 9) % 12) + (date.day - 1)
  year / 400 * eraDays + (daysBeforeYear (year % 400).toNat + dayOfYear : Nat) - epochShift

/-- Whether a year has a leap day. -/
def isLeap (year : Int) : Bool := year % 4 == 0 && (year % 100 != 0 || year % 400 == 0)

/-- The number of days in a month. -/
def monthLength (year : Int) (month : Nat) : Nat :=
  if month = 2 then (if isLeap year then 29 else 28)
  else if month = 4 ∨ month = 6 ∨ month = 9 ∨ month = 11 then 30 else 31

/-- The date of a year, month and day, if the calendar has it. -/
def mk? (year : Int) (month day : Nat) : Option Date :=
  if 1 ≤ month ∧ month ≤ 12 ∧ 1 ≤ day ∧ day ≤ monthLength year month then some ⟨year, month, day⟩
  else none

/-! ## 3. The two directions agree -/

theorem daysBeforeYear_yearOfEra {d : Nat} (h : d < 146097) :
    yearOfEra d < 400 ∧ daysBeforeYear (yearOfEra d) ≤ d ∧
      d - daysBeforeYear (yearOfEra d) < 366 := by
  unfold daysBeforeYear yearOfEra
  dsimp only
  generalize hc : min 3 (d / 36524) = c
  generalize hr : d - 36524 * c = r
  generalize hq : r / 1461 = q
  generalize hs : r - 1461 * q = s
  generalize hy : min 3 (s / 365) = y
  have hcentury : c ≤ 3 ∧ d = 36524 * c + r ∧ r ≤ 36524 ∧ (c < 3 → r < 36524) := by omega
  have hspan : q ≤ 24 ∧ r = 1461 * q + s ∧ s ≤ 1460 := by omega
  have hyear : y ≤ 3 ∧ 365 * y ≤ s ∧ s ≤ 365 * y + 365 := by omega
  have hquarter : (100 * c + 4 * q + y) / 4 = 25 * c + q := by omega
  have hhundred : (100 * c + 4 * q + y) / 100 = c := by omega
  rw [hquarter, hhundred]
  omega

theorem monthOfYear_bounds : ∀ d < 366,
    daysBeforeMonth (monthOfYear d) ≤ d ∧ monthOfYear d < 12 := by decide +kernel

/-- The day of the date of a day is that day. -/
theorem toDays_ofDays (days : Int) : (ofDays days).toDays = days := by
  obtain ⟨d, hd⟩ := Int.eq_ofNat_of_zero_le
    (Int.emod_nonneg (days + epochShift) (show eraDays ≠ 0 by decide))
  have hlt : d < 146097 := by
    have := Int.emod_lt_of_pos (days + epochShift) (show 0 < eraDays by decide)
    rw [hd] at this
    unfold eraDays at this
    omega
  have hsplit := Int.mul_ediv_add_emod (days + epochShift) eraDays
  rw [hd] at hsplit
  obtain ⟨hyear, hle, hday⟩ := daysBeforeYear_yearOfEra hlt
  obtain ⟨hmonth, hbound⟩ := monthOfYear_bounds _ hday
  simp only [ofDays, toDays, hd, Int.toNat_natCast]
  generalize (days + epochShift) / eraDays = era at *
  generalize yearOfEra d = year at *
  generalize hm : monthOfYear (d - daysBeforeYear year) = month at *
  have hyearInt : ∀ y : Int, y = era * 400 + year → y / 400 = era ∧ (y % 400).toNat = year := by
    omega
  by_cases h : month < 10
  · have hmonths : (month + 3 + 9) % 12 = month := by omega
    have hnot : ¬ (month + 3 ≤ 2) := by omega
    obtain ⟨hq, hr⟩ := hyearInt (era * 400 + year + 0) (by omega)
    simp only [h, if_true, hnot, if_false, hmonths, hq, hr]
    unfold eraDays at *
    omega
  · have hmonths : (month - 9 + 9) % 12 = month := by omega
    have hshort : month - 9 ≤ 2 := by omega
    obtain ⟨hq, hr⟩ := hyearInt (era * 400 + year + 1 - 1) (by omega)
    simp only [h, if_true, if_false, hshort, hmonths, hq, hr]
    unfold eraDays at *
    omega

end Date
end RowStream.Time
