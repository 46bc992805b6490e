import RowStream.Time.Rfc3339

/-!
# Dates of days

The date of a day is one that the calendar has, and a bound on its year is one on the day.  Years
are counted from March here, so that a leap day, if there is one, is the last day of its year.
-/

namespace RowStream.Time.Date

/-! ## 1. Eras -/

-- Every day is a day of an era.
theorem exists_dayOfEra (days : Int) : ∃ (era : Int) (d : Nat), d < 146097 ∧
    (days + epochShift) / eraDays = era ∧ ((days + epochShift) % eraDays).toNat = d ∧
    days = era * 146097 + d - 719468 := by
  unfold eraDays epochShift
  exact ⟨_, _, by omega, rfl, rfl, by omega⟩

/-! ## 2. Leap days -/

theorem isLeap_iff {year : Int} :
    isLeap year = true ↔ year % 4 = 0 ∧ (year % 100 ≠ 0 ∨ year % 400 = 0) := by
  simp [isLeap]

-- The last of 366 days is a leap day: the year that follows in the era is a leap year.
theorem isLeap_of_lastDay {d : Nat} (era : Int) (h : d < 146097)
    (hlast : d - daysBeforeYear (yearOfEra d) = 365) :
    isLeap (era * 400 + yearOfEra d + 1) = true := by
  unfold daysBeforeYear yearOfEra at hlast
  rw [isLeap_iff]
  unfold yearOfEra
  dsimp only at hlast ⊢
  generalize hc : min 3 (d / 36524) = c at *
  generalize hr : d - 36524 * c = r at *
  generalize hq : r / 1461 = q at *
  generalize hs : r - 1461 * q = s at *
  generalize hy : min 3 (s / 365) = y at *
  have hcentury : c ≤ 3 ∧ d = 36524 * c + r ∧ r ≤ 36524 ∧ (c < 3 → r < 36524) := by omega
  have hspan : q ≤ 24 ∧ r = 1461 * q + s ∧ s ≤ 1460 := by omega
  have hyear : y ≤ 3 ∧ 365 * y ≤ s ∧ s ≤ 365 * y + 365 := by omega
  have hquarter : (100 * c + 4 * q + y) / 4 = 25 * c + q := by omega
  have hhundred : (100 * c + 4 * q + y) / 100 = c := by omega
  rw [hquarter, hhundred] at hlast
  omega

/-! ## 3. The calendar has the date of every day -/

theorem monthLength_le (year : Int) (month : Nat) :
    monthLength 1 month ≤ monthLength year month := by
  unfold monthLength
  by_cases hfebruary : month = 2
  · have hcommon : (if isLeap 1 = true then 29 else 28) = 28 := by decide
    rw [if_pos hfebruary, if_pos hfebruary, hcommon]
    split <;> omega
  · refine Nat.le_of_eq ?_
    rw [if_neg hfebruary, if_neg hfebruary]

-- Within 365 days the months of a year from March are those of a common year.
theorem day_le_monthLength : ∀ d < 365, d - daysBeforeMonth (monthOfYear d) + 1 ≤
    monthLength 1 (if monthOfYear d < 10 then monthOfYear d + 3 else monthOfYear d - 9) := by
  decide +kernel

/-- The date of a day has a month of the year and a day of the month. -/
theorem ofDays_valid (days : Int) : 1 ≤ (ofDays days).month ∧ (ofDays days).month ≤ 12 ∧
    1 ≤ (ofDays days).day ∧
    (ofDays days).day ≤ monthLength (ofDays days).year (ofDays days).month := by
  obtain ⟨era, d, hlt, hera, hd, -⟩ := exists_dayOfEra days
  obtain ⟨hyear, hle, hday⟩ := daysBeforeYear_yearOfEra hlt
  obtain ⟨hmonth, hbound⟩ := monthOfYear_bounds _ hday
  have hleap := isLeap_of_lastDay era hlt
  simp only [ofDays, hera, hd]
  generalize yearOfEra d = year at *
  generalize d - daysBeforeYear year = dayOfYear at *
  refine ⟨by split <;> omega, by split <;> omega, by omega, ?_⟩
  by_cases hlast : dayOfYear = 365
  · subst hlast
    have hfebruary : monthOfYear 365 = 11 := by decide
    rw [hfebruary, if_neg (by decide), if_neg (by decide)]
    rw [monthLength, if_pos rfl, if_pos (hleap rfl)]
    decide
  · exact Nat.le_trans (day_le_monthLength dayOfYear (by omega)) (monthLength_le _ _)

theorem mk?_ofDays (days : Int) :
    mk? (ofDays days).year (ofDays days).month (ofDays days).day = some (ofDays days) := by
  rw [mk?, if_pos (ofDays_valid days)]

-- Coarse bounds, which leave room for any offset.
theorem days_bounds {days : Int} (h : 0 ≤ (ofDays days).year ∧ (ofDays days).year ≤ 9999) :
    -1000000 ≤ days ∧ days ≤ 3000000 := by
  obtain ⟨era, d, hlt, hera, hd, hdays⟩ := exists_dayOfEra days
  obtain ⟨hyear, -, -⟩ := daysBeforeYear_yearOfEra hlt
  simp only [ofDays, hera, hd] at h
  generalize yearOfEra d = year at *
  generalize monthOfYear (d - daysBeforeYear year) = month at *
  split at h <;> omega

end RowStream.Time.Date
