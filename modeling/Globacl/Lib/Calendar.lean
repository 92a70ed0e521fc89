import Mathlib.Algebra.BigOperators.Intervals
import Mathlib.Algebra.Order.BigOperators.Group.Finset
import Mathlib.Tactic.IntervalCases

/-!
# The Gregorian calendar

Dates of the proleptic Gregorian calendar and the days between two of them, which are counted by
adding up the lengths of years and months.

* `daysToYear_closed`: the days up to a year in closed form.
* `exists_eraDay`: each day of an era of 400 years lies in a century, a cycle and a year of it.
* `EraDay.dayNumber_civilDate`: the day number of a date that is given by its era.
-/

namespace Lib

/-- The year has a 29th of February. -/
def isLeapYear (year : Nat) : Bool := year % 4 = 0 ∧ (year % 100 ≠ 0 ∨ year % 400 = 0)

def yearLength (year : Nat) : Nat := if isLeapYear year then 366 else 365

/-- The length of a month, where January is 1. -/
def monthLength (year month : Nat) : Nat :=
  if month = 2 then (if isLeapYear year then 29 else 28)
  else if month = 4 ∨ month = 6 ∨ month = 9 ∨ month = 11 then 30
  else 31

/-- The days from the beginning of the year `epoch` to that of a later one. -/
def daysToYear (epoch year : Nat) : Nat := ∑ y ∈ Finset.Ico epoch year, yearLength y

/-- The days of a year before a month. -/
def daysToMonth (year month : Nat) : Nat := ∑ m ∈ Finset.Ico 1 month, monthLength year m

/-- A date that exists. -/
structure CivilDate where
  year : Nat
  month : Nat
  day : Nat
  month_pos : 1 ≤ month
  month_le : month ≤ 12
  day_pos : 1 ≤ day
  day_le : day ≤ monthLength year month

/-- The days from the first of January of the year `epoch` to a date that is not before it. -/
def CivilDate.dayNumber (epoch : Nat) (date : CivilDate) : Nat :=
  daysToYear epoch date.year + daysToMonth date.year date.month + (date.day - 1)

/-- A time of a day without leap seconds. -/
structure TimeOfDay where
  hour : Nat
  minute : Nat
  second : Nat
  hour_lt : hour < 24
  minute_lt : minute < 60
  second_lt : second < 60

/-- The seconds from midnight. -/
def TimeOfDay.secondOfDay (time : TimeOfDay) : Nat :=
  time.hour * 3600 + time.minute * 60 + time.second

/-! ## Years and months in closed form -/

theorem daysToYear_succ {epoch year : Nat} (h : epoch ≤ year) :
    daysToYear epoch (year + 1) = daysToYear epoch year + yearLength year :=
  Finset.sum_Ico_succ_top h _

theorem daysToYear_mono {epoch year year' : Nat} (h : year ≤ year') :
    daysToYear epoch year ≤ daysToYear epoch year' := by
  apply Finset.sum_le_sum_of_subset
  exact Finset.Ico_subset_Ico_right h

/-- The leap years before a year, counted by the multiples of 4, 100 and 400. -/
def leapYearsBefore (year : Nat) : Int :=
  ((year : Int) - 1) / 4 - ((year : Int) - 1) / 100 + ((year : Int) - 1) / 400

theorem leapYearsBefore_succ (year : Nat) :
    leapYearsBefore (year + 1) = leapYearsBefore year + if isLeapYear year then 1 else 0 := by
  unfold leapYearsBefore isLeapYear
  simp only [decide_eq_true_eq]
  split <;> omega

theorem monthLength_le (year month : Nat) : monthLength year month ≤ 31 := by
  unfold monthLength
  repeat' split
  all_goals decide

/-- The days up to a year. -/
theorem daysToYear_closed {epoch year : Nat} (h : epoch ≤ year) :
    (daysToYear epoch year : Int) =
      365 * ((year : Int) - epoch) + (leapYearsBefore year - leapYearsBefore epoch) := by
  induction year, h using Nat.le_induction with
  | base => simp [daysToYear]
  | succ year h ih =>
    have hlength : (yearLength year : Int) = 365 + if isLeapYear year then 1 else 0 := by
      unfold yearLength
      split <;> simp
    rw [daysToYear_succ h, leapYearsBefore_succ]
    push_cast
    omega

/-- January and February are 59 days, and one more in a leap year. -/
theorem daysToMonth_three (year : Nat) :
    (daysToMonth year 3 : Int) = 59 + (leapYearsBefore (year + 1) - leapYearsBefore year) := by
  rw [leapYearsBefore_succ]
  unfold daysToMonth
  simp [Finset.sum_Ico_succ_top, monthLength]
  split <;> omega

/-- The days from March to a later month of the year, where `mp` counts the months from March. -/
theorem daysToMonth_march (year : Nat) {mp : Nat} (h : mp ≤ 9) :
    daysToMonth year (mp + 3) = daysToMonth year 3 + (153 * mp + 2) / 5 := by
  unfold daysToMonth
  interval_cases mp <;> simp [Finset.sum_Ico_succ_top, monthLength]

/-- March to December are 306 days. -/
theorem daysToMonth_january (year : Nat) {mp : Nat} (h : 10 ≤ mp) (h' : mp ≤ 11) :
    daysToMonth year (mp - 9) + 306 = (153 * mp + 2) / 5 := by
  unfold daysToMonth
  interval_cases mp <;> simp [monthLength]

/-! ## Eras -/

/-- A day of an era of 400 years that begin with the first of March: its century, the cycle of four
years in the century, the year in the cycle and the day in the year. Only the last year of a cycle
may have 366 days, and that of a century only in the last century. -/
structure EraDay where
  century : Nat
  cycle : Nat
  year : Nat
  day : Nat
  century_le : century ≤ 3
  cycle_le : cycle ≤ 24
  year_le : year ≤ 3
  day_le : day ≤ 365
  leap : day = 365 → year = 3 ∧ (cycle = 24 → century = 3)

namespace EraDay

variable (d : EraDay)

def yearOfEra : Nat := 100 * d.century + 4 * d.cycle + d.year

def dayOfEra : Nat := 36524 * d.century + 1461 * d.cycle + 365 * d.year + d.day

/-- The months from March to the day. -/
def monthIndex : Nat := (5 * d.day + 2) / 153

theorem dayOfEra_lt : d.dayOfEra < 146097 := by
  have := d.century_le
  have := d.cycle_le
  have := d.year_le
  have := d.day_le
  unfold dayOfEra
  omega

theorem monthIndex_le : d.monthIndex ≤ 11 := by
  have := d.day_le
  unfold monthIndex
  omega

theorem le_day : (153 * d.monthIndex + 2) / 5 ≤ d.day := by
  unfold monthIndex
  omega

theorem day_lt : d.day < (153 * (d.monthIndex + 1) + 2) / 5 := by
  have := d.day_le
  unfold monthIndex
  omega

end EraDay

/-- Each day of an era lies in a century, a cycle and a year of it. -/
theorem exists_eraDay {doe : Nat} (h : doe < 146097) : ∃ d : EraDay, d.dayOfEra = doe := by
  -- The last day of an era is one too many for its century, and the last of a cycle for its year.
  obtain ⟨century, r, hcentury, hr, hdoe, hlast⟩ : ∃ century r, century ≤ 3 ∧ r ≤ 36524 ∧
      doe = 36524 * century + r ∧ (r = 36524 → century = 3) :=
    ⟨min 3 (doe / 36524), doe - 36524 * min 3 (doe / 36524), by omega, by omega, by omega, by omega⟩
  obtain ⟨year, day, hyear, hday, hcycle, hleap⟩ : ∃ year day, year ≤ 3 ∧ day ≤ 365 ∧
      r % 1461 = 365 * year + day ∧ (day = 365 → year = 3) :=
    ⟨min 3 (r % 1461 / 365), r % 1461 - 365 * min 3 (r % 1461 / 365), by omega, by omega, by omega,
      by omega⟩
  refine ⟨⟨century, r / 1461, year, day, hcentury, by omega, hyear, hday, fun h366 => ?_⟩, ?_⟩
  · exact ⟨hleap h366, fun h24 => hlast (by omega)⟩
  · unfold EraDay.dayOfEra
    dsimp only
    omega

/-! ## The date of a day of an era -/

namespace EraDay

variable (era : Nat) (d : EraDay)

/-- The year that began with March. -/
def marchYear : Nat := 400 * era + d.yearOfEra

theorem isLeapYear_of_day (h : d.day = 365) : isLeapYear (d.marchYear era + 1) = true := by
  obtain ⟨hyear, hcentury⟩ := d.leap h
  have := d.century_le
  have := d.cycle_le
  unfold isLeapYear marchYear yearOfEra
  rw [decide_eq_true_eq]
  by_cases h24 : d.cycle = 24
  · have := hcentury h24
    omega
  · omega

theorem leapYearsBefore_marchYear :
    leapYearsBefore (d.marchYear era + 1) = 97 * era + 24 * d.century + d.cycle := by
  have := d.century_le
  have := d.cycle_le
  have := d.year_le
  unfold leapYearsBefore marchYear yearOfEra
  push_cast
  omega

/-- The year of the day, which begins with January. -/
def civilYear : Nat := d.marchYear era + if d.monthIndex < 10 then 0 else 1

def month : Nat := if d.monthIndex < 10 then d.monthIndex + 3 else d.monthIndex - 9

def dayOfMonth : Nat := d.day - (153 * d.monthIndex + 2) / 5 + 1

theorem month_pos : 1 ≤ d.month := by
  unfold month
  split <;> omega

theorem month_le : d.month ≤ 12 := by
  have := d.monthIndex_le
  unfold month
  split <;> omega

theorem dayOfMonth_pos : 1 ≤ d.dayOfMonth := Nat.succ_pos _

theorem dayOfMonth_le : d.dayOfMonth ≤ monthLength (d.civilYear era) d.month := by
  unfold dayOfMonth month civilYear
  have hle := d.monthIndex_le
  have hlt := d.day_lt
  have hday := d.day_le
  have hleap := d.isLeapYear_of_day era
  generalize d.monthIndex = mp at *
  interval_cases mp <;> simp [monthLength] <;> try omega
  -- What is left is February.
  by_cases h365 : d.day = 365
  · rw [if_pos (hleap h365)]
    omega
  · split <;> omega

/-- The date of a day of an era. -/
def civilDate : CivilDate where
  year := d.civilYear era
  month := d.month
  day := d.dayOfMonth
  month_pos := d.month_pos
  month_le := d.month_le
  day_pos := d.dayOfMonth_pos
  day_le := d.dayOfMonth_le era

/-- The days from a new year's day to a date count the eras before it and the days in its era. -/
theorem dayNumber_civilDate {epoch : Nat} (h : epoch ≤ (d.civilDate era).year) :
    ((d.civilDate era).dayNumber epoch : Int) =
      146097 * era + d.dayOfEra - (365 * epoch + leapYearsBefore epoch - 59) := by
  have hyear := daysToYear_closed h
  have hleap := d.leapYearsBefore_marchYear era
  have hday := d.le_day
  have hle := d.monthIndex_le
  have hmarch : (d.marchYear era : Int) = 400 * era + (100 * d.century + 4 * d.cycle + d.year) := by
    simp [marchYear, yearOfEra]
  unfold CivilDate.dayNumber dayOfEra
  push_cast
  rw [hyear]
  by_cases hmonth : d.monthIndex < 10
  · have hthree := daysToMonth_three (d.marchYear era)
    have hlater := daysToMonth_march (d.marchYear era) (Nat.le_of_lt_succ hmonth)
    simp only [civilDate, civilYear, month, dayOfMonth, if_pos hmonth, Nat.add_zero]
    omega
  · have hlater := daysToMonth_january (d.marchYear era + 1) (Nat.le_of_not_lt hmonth) hle
    simp only [civilDate, civilYear, month, dayOfMonth, if_neg hmonth]
    omega

end EraDay

end Lib
