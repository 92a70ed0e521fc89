import Globacl.Commitd.Manifest
import Globacl.Lib.Calendar

/-!
# The dates of signed requests (`globacl-commitd/src/app/object_store.rs`)

A request to the object store is signed for a date and a time in UTC, which are computed from the
seconds since the epoch.

* `unixUtcComponents_exact`: they are the date and the time of that many seconds.
-/

namespace Globacl

open Lib

/-- `value as i32`. -/
def asI32 (value : Int) : Int := value.bmod (2 ^ 32)

/-- `value as u32`. -/
def asU32 (value : Int) : Nat := (value % 2 ^ 32).toNat

/-- `civil_from_days`, where `/` truncates. The years begin with March, and none of the numbers of a
day count within the seconds of an `i64` leaves the range of an `i64`. -/
def civilFromDays (daysSinceEpoch : Int) : Int × Nat × Nat :=
  let z := daysSinceEpoch + 719468
  let era := (if z ≥ 0 then z else z - 146096).tdiv 146097
  let doe := z - era * 146097
  let yoe := (doe - doe.tdiv 1460 + doe.tdiv 36524 - doe.tdiv 146096).tdiv 365
  let y := yoe + era * 400
  let doy := doe - (365 * yoe + yoe.tdiv 4 - yoe.tdiv 100)
  let mp := (5 * doy + 2).tdiv 153
  let d := doy - (153 * mp + 2).tdiv 5 + 1
  let m := mp + if mp < 10 then 3 else -9
  let year := y + if m ≤ 2 then 1 else 0
  (asI32 year, asU32 m, asU32 d)

/-- `unix_utc_components`: the year, the month, the day, the hour, the minute and the second. -/
def unixUtcComponents (seconds : Int) : Int × Nat × Nat × Nat × Nat × Nat :=
  let days := seconds / 86400
  let secondsOfDay := asU32 (seconds % 86400)
  let (year, month, day) := civilFromDays days
  let hour := secondsOfDay / 3600
  let minute := secondsOfDay % 3600 / 60
  let second := secondsOfDay % 60
  (year, month, day, hour, minute, second)

/-- `{value:0width}` of a signed number: the sign is one of the characters. -/
def zeroPaddedSigned (width : Nat) (value : Int) : String :=
  if value < 0 then "-" ++ zeroPadded (width - 1) value.natAbs else zeroPadded width value.natAbs

/-- The texts of a date and of a time of it: `{year:04}{month:02}{day:02}`, and the first with
`T{hour:02}{minute:02}{second:02}Z` after it. -/
def formatDates : Int × Nat × Nat × Nat × Nat × Nat → String × String
  | (year, month, day, hour, minute, second) =>
    let date := zeroPaddedSigned 4 year ++ zeroPadded 2 month ++ zeroPadded 2 day
    (date, date ++ "T" ++ zeroPadded 2 hour ++ zeroPadded 2 minute ++ zeroPadded 2 second ++ "Z")

/-- `aws_sigv4_dates`, where a system time is the nanoseconds since the epoch. -/
def awsSigv4Dates (now : Int) : Result (String × String) :=
  if now < 0 then
    .error (.invalidData "system time before epoch: second time provided was later than self")
  else
    let seconds := (now / 10 ^ 9).bmod (2 ^ 64)
    .ok (formatDates (unixUtcComponents seconds))

/-! ## The date of a day -/

theorem asI32_of_lt {year : Nat} (h : year < 2 ^ 31) : asI32 year = year := by
  unfold asI32
  rw [Int.bmod_eq_emod_of_lt] <;> omega

theorem asU32_of_lt {value : Nat} (h : value < 2 ^ 32) : asU32 value = value := by
  unfold asU32
  omega

/-- The year of an era that the chain of divisions finds. -/
theorem yearOfEra_eq (d : EraDay) :
    ((d.dayOfEra : Int) - (d.dayOfEra : Int) / 1460 + (d.dayOfEra : Int) / 36524 -
      (d.dayOfEra : Int) / 146096) / 365 = d.yearOfEra := by
  have hcentury := d.century_le
  have hcycle := d.cycle_le
  have hyear := d.year_le
  have hday := d.day_le
  have hleap := d.leap
  have hdoe : d.dayOfEra = 36524 * d.century + 1461 * d.cycle + 365 * d.year + d.day := rfl
  have hyoe : d.yearOfEra = 100 * d.century + 4 * d.cycle + d.year := rfl
  generalize d.dayOfEra = doe at *
  -- The last day of an era is the only one of a fifth century.
  have hcenturies : doe / 36524 - doe / 146096 = d.century := by
    by_cases hlast : doe = 146096
    · omega
    · have hlow : 36524 * d.century ≤ doe := by omega
      have hhigh : doe < 36524 * (d.century + 1) := by omega
      clear hdoe hyoe
      omega
  have hcycles : doe / 1460 = 25 * d.century + d.cycle +
      (24 * d.century + d.cycle + 365 * d.year + d.day) / 1460 := by omega
  omega

/-- The day of the year that is left. -/
theorem dayOfYear_eq (d : EraDay) :
    (d.dayOfEra : Int) -
      (365 * d.yearOfEra + (d.yearOfEra : Int) / 4 - (d.yearOfEra : Int) / 100) = d.day := by
  have := d.century_le
  have := d.cycle_le
  have := d.year_le
  unfold EraDay.dayOfEra EraDay.yearOfEra
  omega

/-- A day of an era is taken to its date. -/
theorem civilFromDays_eq {days : Int} (era : Nat) (d : EraDay)
    (hdays : days + 719468 = 146097 * era + d.dayOfEra) (hyear : d.civilYear era < 2 ^ 31) :
    civilFromDays days =
      (((d.civilDate era).year : Int), (d.civilDate era).month, (d.civilDate era).day) := by
  have hlt := d.dayOfEra_lt
  have hle := d.le_day
  have hday := d.day_le
  have hera : (if days + 719468 ≥ 0 then days + 719468 else days + 719468 - 146096).tdiv 146097 =
      era := by
    rw [if_pos (by omega), Int.tdiv_eq_ediv_of_nonneg (by omega)]
    omega
  have hdoe : days + 719468 - era * 146097 = d.dayOfEra := by omega
  have hyoe := yearOfEra_eq d
  rw [← Int.tdiv_eq_ediv_of_nonneg (by omega)] at hyoe
  have hdoy := dayOfYear_eq d
  have hmp : (5 * (d.day : Int) + 2) / 153 = d.monthIndex := by
    unfold EraDay.monthIndex
    omega
  have hd : (d.day : Int) - (153 * d.monthIndex + 2) / 5 + 1 = d.dayOfMonth := by
    unfold EraDay.dayOfMonth
    omega
  have hm : (d.monthIndex : Int) + (if (d.monthIndex : Int) < 10 then 3 else -9) = d.month := by
    unfold EraDay.month
    by_cases hlt : d.monthIndex < 10
    · rw [if_pos hlt, if_pos (by omega)]
      omega
    · rw [if_neg hlt, if_neg (by omega)]
      omega
  have hy : (d.yearOfEra : Int) + era * 400 + (if (d.month : Int) ≤ 2 then 1 else 0) =
      d.civilYear era := by
    unfold EraDay.civilYear EraDay.marchYear EraDay.month
    by_cases hlt : d.monthIndex < 10
    · rw [if_pos hlt, if_pos hlt, if_neg (by omega)]
      omega
    · have := d.monthIndex_le
      rw [if_neg hlt, if_neg hlt, if_pos (by omega)]
      omega
  unfold civilFromDays
  dsimp only
  rw [hera, hdoe]
  simp only [Int.natCast_tdiv_eq_ediv]
  rw [hyoe]
  simp only [Int.natCast_tdiv_eq_ediv]
  rw [hdoy, Int.tdiv_eq_ediv_of_nonneg (by omega), hmp,
    Int.tdiv_eq_ediv_of_nonneg (by omega), hd, hm, hy, asI32_of_lt hyear,
    asU32_of_lt (Nat.lt_of_le_of_lt d.month_le (by decide)),
    asU32_of_lt (Nat.lt_of_le_of_lt (d.dayOfMonth_le era)
      (Nat.lt_of_le_of_lt (monthLength_le _ _) (by decide)))]
  rfl

/-! ## Days since the epoch -/

theorem leapYearsBefore_epoch : leapYearsBefore 1970 = 477 := by decide

/-- The first of January of 1970 is the first day of a civil year that is not before 1970. -/
theorem epoch_le_civilYear {era : Nat} {d : EraDay} (h : 719468 ≤ 146097 * era + d.dayOfEra) :
    1970 ≤ d.civilYear era := by
  have hcentury := d.century_le
  have hcycle := d.cycle_le
  have hyear := d.year_le
  have hday := d.day_le
  unfold EraDay.dayOfEra at h
  unfold EraDay.civilYear EraDay.marchYear EraDay.yearOfEra EraDay.monthIndex
  by_cases hera : era = 4
  · obtain hlt | heq : d.century < 3 ∨ d.century = 3 := Nat.lt_or_eq_of_le hcentury
    · omega
    · split <;> omega
  · omega

/-- Each day since the epoch is a date, and it is the one that `civil_from_days` returns. -/
theorem civilFromDays_exact {days : Nat} (h : days < daysToYear 1970 (2 ^ 31)) :
    ∃ date : CivilDate, civilFromDays days = ((date.year : Int), date.month, date.day) ∧
      1970 ≤ date.year ∧ date.dayNumber 1970 = days := by
  obtain ⟨d, hd⟩ := exists_eraDay (Nat.mod_lt (days + 719468) (by decide : 146097 > 0))
  have hdays : days + 719468 = 146097 * ((days + 719468) / 146097) + d.dayOfEra := by omega
  generalize (days + 719468) / 146097 = era at hdays
  have hyear : 1970 ≤ (d.civilDate era).year := epoch_le_civilYear (by omega)
  have hnumber : (d.civilDate era).dayNumber 1970 = days := by
    have := d.dayNumber_civilDate era hyear
    rw [leapYearsBefore_epoch] at this
    omega
  have hlt : d.civilYear era < 2 ^ 31 := by
    by_contra hge
    have := @daysToYear_mono 1970 _ _ (Nat.le_of_not_lt hge)
    have hle : daysToYear 1970 (d.civilYear era) ≤ (d.civilDate era).dayNumber 1970 :=
      Nat.le_trans (Nat.le_add_right _ _) (Nat.le_add_right _ _)
    omega
  exact ⟨d.civilDate era, civilFromDays_eq era d (by omega) hlt, hyear, hnumber⟩

/-- The seconds before the year 2 ^ 31 fit in an `i64`. -/
theorem daysToYear_lt : (daysToYear 1970 (2 ^ 31) : Int) < 2 ^ 40 := by
  rw [daysToYear_closed (by decide), leapYearsBefore_epoch]
  unfold leapYearsBefore
  decide

/-- Less than a day is a time of the day. -/
theorem exists_timeOfDay {seconds : Nat} (h : seconds < 86400) :
    ∃ time : TimeOfDay, time.hour = seconds / 3600 ∧ time.minute = seconds % 3600 / 60 ∧
      time.second = seconds % 60 ∧ time.secondOfDay = seconds := by
  refine ⟨⟨seconds / 3600, seconds % 3600 / 60, seconds % 60, by omega, by omega, by omega⟩,
    rfl, rfl, rfl, ?_⟩
  unfold TimeOfDay.secondOfDay
  dsimp only
  omega

/-- A date and a time as `unix_utc_components` returns them. -/
def utcComponents (date : CivilDate) (time : TimeOfDay) : Int × Nat × Nat × Nat × Nat × Nat :=
  (date.year, date.month, date.day, time.hour, time.minute, time.second)

/-- The components of a second count are a date and a time that exist, and they are that many
seconds after the epoch, as long as the year fits in an `i32`. The texts that a request is signed
for are of that date and time. -/
theorem unixUtcComponents_exact (seconds : Int) (h : 0 ≤ seconds)
    (hyear : seconds < 86400 * daysToYear 1970 (2 ^ 31)) :
    ∃ (date : CivilDate) (time : TimeOfDay),
      unixUtcComponents seconds = utcComponents date time ∧ 1970 ≤ date.year ∧
      86400 * (date.dayNumber 1970 : Int) + time.secondOfDay = seconds ∧
      ∀ now : Int, now / 10 ^ 9 = seconds →
        awsSigv4Dates now = .ok (formatDates (utcComponents date time)) := by
  obtain ⟨days, hdays⟩ := Int.eq_ofNat_of_zero_le (show 0 ≤ seconds / 86400 by omega)
  obtain ⟨rest, hrest⟩ := Int.eq_ofNat_of_zero_le (show 0 ≤ seconds % 86400 by omega)
  obtain ⟨date, hcivil, hepoch, hnumber⟩ := civilFromDays_exact (show days < _ by omega)
  obtain ⟨time, hhour, hminute, hsecond, htime⟩ := exists_timeOfDay (show rest < 86400 by omega)
  have hcomponents : unixUtcComponents seconds = utcComponents date time := by
    unfold unixUtcComponents utcComponents
    dsimp only
    rw [hdays, hrest, hcivil, asU32_of_lt (by omega), hhour, hminute, hsecond]
  refine ⟨date, time, hcomponents, hepoch, by omega, fun now hnow => ?_⟩
  have hlt := daysToYear_lt
  unfold awsSigv4Dates
  dsimp only
  rw [if_neg (by omega), hnow, Int.bmod_eq_emod_of_lt (by omega),
    Int.emod_eq_of_lt h (by omega), hcomponents]

/-- The 29th of February of 2000, at noon. -/
theorem unixUtcComponents_exact_2000 :
    0 ≤ (951825600 : Int) ∧ unixUtcComponents 951825600 = (2000, 2, 29, 12, 0, 0) ∧
      ∃ (date : CivilDate) (time : TimeOfDay),
        unixUtcComponents 951825600 = utcComponents date time ∧ 1970 ≤ date.year ∧
        86400 * (date.dayNumber 1970 : Int) + time.secondOfDay = 951825600 ∧
        ∀ now : Int, now / 10 ^ 9 = 951825600 →
          awsSigv4Dates now = .ok (formatDates (utcComponents date time)) := by
  refine ⟨by decide, by decide, unixUtcComponents_exact 951825600 (by decide) ?_⟩
  rw [daysToYear_closed (by decide), leapYearsBefore_epoch]
  unfold leapYearsBefore
  decide

end Globacl
