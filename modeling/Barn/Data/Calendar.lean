import Mathlib.Algebra.Order.Group.Int
import Mathlib.Tactic.Ring

/-!
# The Gregorian calendar

Dates of the proleptic Gregorian calendar and the days since 1970-01-01. Years are taken to begin
in March, so that the leap day is the last one of its year; `toDays_ofDays` says that the date of
a day determines it.
-/

/-- A calendar date. -/
structure CalendarDate where
  year : ℤ
  month : ℤ
  day : ℤ
  deriving DecidableEq

namespace CalendarDate

/-- The day of the year on which the month begins, both counted from March. -/
def monthStart (month : ℤ) : ℤ :=
  (153 * month + 2) / 5

/-- The date of a day of a year that begins in March. -/
def ofYearAndDay (year dayOfYear : ℤ) : CalendarDate :=
  let month := (5 * dayOfYear + 2) / 153
  if month < 10 then ⟨year, month + 3, dayOfYear - monthStart month + 1⟩
  else ⟨year + 1, month - 9, dayOfYear - monthStart month + 1⟩

/-- The date of a day counted from 1970-01-01. -/
def ofDays (days : ℤ) : CalendarDate :=
  let sinceEra := (days + 719468) % 146097
  let century := min 3 (sinceEra / 36524)
  let sinceCentury := sinceEra - century * 36524
  let sinceCycle := sinceCentury % 1461
  let yearOfCycle := min 3 (sinceCycle / 365)
  ofYearAndDay
    ((days + 719468) / 146097 * 400 + century * 100 + sinceCentury / 1461 * 4 + yearOfCycle)
    (sinceCycle - yearOfCycle * 365)

/-- The first day of a year that begins in March, counted from 1970-01-01. -/
def yearStart (year : ℤ) : ℤ :=
  year / 400 * 146097 + year % 400 / 100 * 36524 + year % 100 / 4 * 1461 + year % 4 * 365 - 719468

/-- The day on which a date falls, counted from 1970-01-01. -/
def toDays (date : CalendarDate) : ℤ :=
  if date.month < 3 then yearStart (date.year - 1) + monthStart (date.month + 9) + date.day - 1
  else yearStart date.year + monthStart (date.month - 3) + date.day - 1

/-- The month in which a day of the year falls, and its day there. -/
theorem monthStart_bounds {dayOfYear : ℤ} (hlow : 0 ≤ dayOfYear) (hhigh : dayOfYear ≤ 365) :
    0 ≤ (5 * dayOfYear + 2) / 153 ∧ (5 * dayOfYear + 2) / 153 ≤ 11 ∧
      monthStart ((5 * dayOfYear + 2) / 153) ≤ dayOfYear ∧
      dayOfYear ≤ monthStart ((5 * dayOfYear + 2) / 153) + 30 := by
  unfold monthStart
  omega

/-- The days of a year are counted from its first one. -/
theorem toDays_ofYearAndDay {year dayOfYear : ℤ} (hlow : 0 ≤ dayOfYear)
    (hhigh : dayOfYear ≤ 365) :
    (ofYearAndDay year dayOfYear).toDays = yearStart year + dayOfYear := by
  have hmonth := monthStart_bounds hlow hhigh
  simp only [ofYearAndDay]
  split
  · next hearly =>
      rw [toDays, if_neg (by dsimp only; omega)]
      dsimp only
      rw [add_sub_cancel_right]
      omega
  · next hlate =>
      rw [toDays, if_pos (by dsimp only; omega)]
      dsimp only
      rw [add_sub_cancel_right, sub_add_cancel]
      omega

/-- The first day of a year in terms of its place in the 400-year era. -/
theorem yearStart_of_parts {era century cycle yearOfCycle : ℤ} (hcentury : 0 ≤ century)
    (hcentury' : century ≤ 3) (hcycle : 0 ≤ cycle) (hcycle' : cycle ≤ 24)
    (hyear : 0 ≤ yearOfCycle) (hyear' : yearOfCycle ≤ 3) :
    yearStart (era * 400 + century * 100 + cycle * 4 + yearOfCycle) =
      era * 146097 + century * 36524 + cycle * 1461 + yearOfCycle * 365 - 719468 := by
  have h400 : (era * 400 + century * 100 + cycle * 4 + yearOfCycle) / 400 = era := by omega
  have h100 : (era * 400 + century * 100 + cycle * 4 + yearOfCycle) % 400 / 100 = century := by
    omega
  have h4 : (era * 400 + century * 100 + cycle * 4 + yearOfCycle) % 100 / 4 = cycle := by omega
  have h1 : (era * 400 + century * 100 + cycle * 4 + yearOfCycle) % 4 = yearOfCycle := by omega
  rw [yearStart, h400, h100, h4, h1]

/-- Reading the date of a day gives the day back. -/
@[simp] theorem toDays_ofDays (days : ℤ) : (ofDays days).toDays = days := by
  simp only [ofDays]
  rw [toDays_ofYearAndDay (by omega) (by omega),
    yearStart_of_parts (by omega) (by omega) (by omega) (by omega) (by omega) (by omega)]
  omega

/-- Months run from 1 to 12 and days from 1 to 31. -/
theorem ofDays_bounds (days : ℤ) :
    1 ≤ (ofDays days).month ∧ (ofDays days).month ≤ 12 ∧
      1 ≤ (ofDays days).day ∧ (ofDays days).day ≤ 31 := by
  simp only [ofDays]
  generalize hday : (days + 719468) % 146097 - min 3 ((days + 719468) % 146097 / 36524) * 36524 =
    sinceCentury
  have hmonth := monthStart_bounds
    (show 0 ≤ sinceCentury % 1461 - min 3 (sinceCentury % 1461 / 365) * 365 by omega) (by omega)
  simp only [ofYearAndDay]
  split <;> dsimp only <;> omega

/-- Different days have different dates. -/
theorem ofDays_injective : Function.Injective ofDays :=
  Function.LeftInverse.injective toDays_ofDays

example : ofDays 0 = ⟨1970, 1, 1⟩ := by decide

example : ofDays 11016 = ⟨2000, 2, 29⟩ := by decide

end CalendarDate
