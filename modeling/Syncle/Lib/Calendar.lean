import Mathlib.Data.Int.Notation
import Mathlib.Tactic.Common

/-!
# The calendar, by day numbers

The proleptic Gregorian calendar. Years are counted from March, so that a leap day is a year's last,
and in eras of 400, which all have the same number of days.
-/

namespace Syncle.Lib

/-- Days from the first of March of an era's first year to that of one of its years. -/
def yearStart (year : ℤ) : ℤ := 365 * year + year / 4 - year / 100

/-- Days from the first of March to the first of a month, counted from March. -/
def marchStart (month : ℤ) : ℤ := (153 * month + 2) / 5

/-- Days from 1970-01-01 to the first of a month, 1 to 12. -/
def monthStart (year month : ℤ) : ℤ :=
  let year := if month ≤ 2 then year - 1 else year
  year / 400 * 146097 + yearStart (year % 400) + marchStart ((month + 9) % 12) - 719468

/-- Days from 1970-01-01 to a date. -/
def dayNumber (year month day : ℤ) : ℤ := monthStart year month + (day - 1)

structure Civil where
  year : ℤ
  month : ℤ
  day : ℤ
  deriving DecidableEq

/-! ## The date of a day -/

/-- The century of an era a day of it is in. -/
def centuryOf (day : ℤ) : ℤ := (4 * day + 3) / 146097

/-- …and the year of that century. -/
def yearOfCentury (day : ℤ) : ℤ := (4 * (day - 36524 * centuryOf day) + 3) / 1461

def yearOfEra (day : ℤ) : ℤ := 100 * centuryOf day + yearOfCentury day

def dayOfYear (day : ℤ) : ℤ := day - yearStart (yearOfEra day)

/-- The month of a day of a year, counted from March. -/
def marchOf (day : ℤ) : ℤ := (5 * day + 2) / 153

def civilOf (n : ℤ) : Civil :=
  let day := (n + 719468) % 146097
  let march := marchOf (dayOfYear day)
  { year := (n + 719468) / 146097 * 400 + yearOfEra day + if march < 10 then 0 else 1
    month := if march < 10 then march + 3 else march - 9
    day := dayOfYear day - marchStart march + 1 }

theorem century_bounds {day : ℤ} (first : 0 ≤ day) (last : day < 146097) :
    0 ≤ centuryOf day ∧ centuryOf day ≤ 3 := by
  unfold centuryOf
  omega

theorem yearOfCentury_bounds {day : ℤ} (first : 0 ≤ day) (last : day < 146097) :
    0 ≤ yearOfCentury day ∧ yearOfCentury day ≤ 99 := by
  obtain ⟨low, high⟩ := century_bounds first last
  have rest : 0 ≤ day - 36524 * centuryOf day ∧ day - 36524 * centuryOf day ≤ 36524 := by
    unfold centuryOf at low high ⊢
    omega
  unfold yearOfCentury
  omega

theorem yearOfEra_bounds {day : ℤ} (first : 0 ≤ day) (last : day < 146097) :
    0 ≤ yearOfEra day ∧ yearOfEra day ≤ 399 := by
  have century := century_bounds first last
  have year := yearOfCentury_bounds first last
  unfold yearOfEra
  omega

theorem dayOfYear_bounds {day : ℤ} (first : 0 ≤ day) (last : day < 146097) :
    0 ≤ dayOfYear day ∧ dayOfYear day ≤ 365 := by
  have century := century_bounds first last
  have year := yearOfCentury_bounds first last
  have start : yearStart (yearOfEra day) =
      36524 * centuryOf day + 365 * yearOfCentury day + yearOfCentury day / 4 := by
    unfold yearStart yearOfEra
    omega
  unfold dayOfYear
  rw [start]
  unfold yearOfCentury
  omega

theorem marchOf_bounds {day : ℤ} (first : 0 ≤ day) (last : day ≤ 365) :
    0 ≤ marchOf day ∧ marchOf day ≤ 11 := by
  unfold marchOf
  omega

theorem civilOf_month (n : ℤ) : 1 ≤ (civilOf n).month ∧ (civilOf n).month ≤ 12 := by
  have inYear := dayOfYear_bounds (Int.emod_nonneg (n + 719468) (by decide))
    (Int.emod_lt_of_pos (n + 719468) (by decide))
  have month := marchOf_bounds inYear.1 inYear.2
  unfold civilOf
  dsimp only
  split <;> omega

theorem civilOf_day (n : ℤ) : 1 ≤ (civilOf n).day ∧ (civilOf n).day ≤ 31 := by
  have inYear := dayOfYear_bounds (Int.emod_nonneg (n + 719468) (by decide))
    (Int.emod_lt_of_pos (n + 719468) (by decide))
  unfold civilOf marchStart marchOf
  dsimp only
  omega

/-- **Every day has its date**: the day of a day's date is the day. -/
theorem dayNumber_civilOf (n : ℤ) :
    dayNumber (civilOf n).year (civilOf n).month (civilOf n).day = n := by
  have year := yearOfEra_bounds (Int.emod_nonneg (n + 719468) (by decide))
    (Int.emod_lt_of_pos (n + 719468) (by decide))
  have inYear := dayOfYear_bounds (Int.emod_nonneg (n + 719468) (by decide))
    (Int.emod_lt_of_pos (n + 719468) (by decide))
  have whole := Int.mul_ediv_add_emod (n + 719468) 146097
  have month := marchOf_bounds inYear.1 inYear.2
  have place : yearStart (yearOfEra ((n + 719468) % 146097)) +
      dayOfYear ((n + 719468) % 146097) = (n + 719468) % 146097 := by
    unfold dayOfYear
    omega
  unfold civilOf dayNumber monthStart
  dsimp only
  generalize (n + 719468) % 146097 = day at *
  generalize (n + 719468) / 146097 = era at *
  generalize yearOfEra day = y at *
  -- January and February are counted with the year before
  by_cases early : marchOf (dayOfYear day) < 10
  · have spring : ¬ marchOf (dayOfYear day) + 3 ≤ 2 := by omega
    have back : (marchOf (dayOfYear day) + 3 + 9) % 12 = marchOf (dayOfYear day) := by omega
    have inEra : (era * 400 + y + 0) / 400 = era := by omega
    have ofEra : (era * 400 + y + 0) % 400 = y := by omega
    simp only [if_pos early, if_neg spring, back, inEra, ofEra]
    omega
  · have winter : marchOf (dayOfYear day) - 9 ≤ 2 := by omega
    have back : (marchOf (dayOfYear day) - 9 + 9) % 12 = marchOf (dayOfYear day) := by omega
    have inEra : (era * 400 + y + 1 - 1) / 400 = era := by omega
    have ofEra : (era * 400 + y + 1 - 1) % 400 = y := by omega
    simp only [if_neg early, if_pos winter, back, inEra, ofEra]
    omega

example : dayNumber 1970 1 1 = 0 := by decide

example : civilOf (dayNumber 2000 2 28 + 1) = ⟨2000, 2, 29⟩ := by decide

end Syncle.Lib
