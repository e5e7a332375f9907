import CleanOS.Common.Datetime
import CleanOS.Common.Stdio

/-!
# Dates of times

`mkdatetime` of `common/tool/datetime.h`, for times whose years fit an `int`.
-/

namespace CleanOS.Common

open CleanOS.Lib.Calendar Stdio

/-- `datetime_t`. -/
structure Datetime where
  year : Nat
  month : Nat
  day : Nat
  hour : Nat
  minute : Nat
  second : Nat
  deriving DecidableEq, Repr

/-- `days` of `mkdatetime`. -/
def monthTable : List Nat :=
  [31, 28, 31, 30, 31, 30, 31, 31, 30, 31, 30, 31]

/-- `hours_per_year`. -/
def hoursPerYear (year : Nat) : Nat :=
  if year &&& 3 = 0 then 365 * 24 + 24 else 365 * 24

theorem hoursPerYear_pos (year : Nat) : 0 < hoursPerYear year := by
  rw [hoursPerYear]
  split <;> omega

/-- The loop of `mkdatetime` over the years. -/
def yearLoop (year time : Nat) : Nat × Nat :=
  if time < hoursPerYear year then (year, time)
  else yearLoop (year + 1) (time - hoursPerYear year)
termination_by time
decreasing_by
  have positive := hoursPerYear_pos year
  omega

/-- The loop of `mkdatetime` over the months, with the rest of the table.  `none` stands for a
read behind the table. -/
def monthLoop : List Nat → Nat → Nat → Option (Nat × Nat)
  | [], _, _ => none
  | days :: table, month, time =>
      if days < time then monthLoop table (month + 1) (time - days) else some (month, time)

/-- The month and the day of `mkdatetime`, where the days of the year count from one on. -/
def monthAndDay (year time : Nat) : Option (Nat × Nat) :=
  if year &&& 3 = 0 then
    if 60 < time then monthLoop monthTable 0 (time - 1)
    else if time = 60 then some (1, 29)
    else monthLoop monthTable 0 time
  else monthLoop monthTable 0 time

/-- `mkdatetime`. -/
def mkdatetime (time : Int) : Option Datetime := do
  let (time, second) ← divU64Rem (toU64 time) 60
  let (time, minute) ← divU64Rem time 60
  let (year4, _) ← divU64Rem time (1461 * 24)
  let (_, remainder) ← divU64Rem time (1461 * 24)
  let (year, time) := yearLoop (1970 + year4.toNat * 4) remainder.toNat
  let (time, hour) ← divU64Rem (toU64 time) 24
  let (month, day) ← monthAndDay year (time.toNat + 1)
  return ⟨year, month, day, hour.toNat, minute.toNat, second.toNat⟩

theorem and_three (year : Nat) : year &&& 3 = year % 4 :=
  Nat.and_two_pow_sub_one_eq_mod year 2

theorem hoursPerYear_eq {year : Nat} (isYear : 1970 ≤ year) (before : year < 2100) :
    hoursPerYear year = 24 * yearDays year := by
  rw [hoursPerYear, and_three, yearDays]
  by_cases fourth : year % 4 = 0
  · have leap : IsLeap year := by
      refine ⟨fourth, ?_⟩
      omega
    rw [if_pos fourth, if_pos leap]
  · have common : ¬ IsLeap year := fun leap => fourth leap.1
    rw [if_neg fourth, if_neg common]

theorem daysBeforeYear_succ {year : Nat} (isYear : 1970 ≤ year) :
    daysBeforeYear (year + 1) = daysBeforeYear year + yearDays year := by
  rw [daysBeforeYear, Nat.succ_sub isYear, Finset.sum_range_succ, Nat.add_sub_cancel' isYear]
  rfl

theorem yearLoop_spec {hours year time : Nat} (isYear : 1970 ≤ year) (before : year ≤ 2100)
    (counted : 24 * daysBeforeYear year + time = hours) (inRange : hours < 24 * 47541) :
    ∃ found left, yearLoop year time = (found, left) ∧ 1970 ≤ found ∧ found ≤ 2100 ∧
      24 * daysBeforeYear found + left = hours ∧ left < hoursPerYear found := by
  induction time using Nat.strong_induction_on generalizing year with
  | _ time ih =>
      rw [yearLoop]
      by_cases last : time < hoursPerYear year
      · rw [if_pos last]
        exact ⟨year, time, rfl, isYear, before, counted, last⟩
      · rw [if_neg last]
        have positive := hoursPerYear_pos year
        have notEnd : year < 2100 := by
          by_contra atEnd
          obtain rfl : year = 2100 := by omega
          have days := daysBeforeYear_eq isYear
          have hoursOfYear : hoursPerYear 2100 = 365 * 24 + 24 := rfl
          omega
        have hoursOfYear := hoursPerYear_eq isYear notEnd
        have next := daysBeforeYear_succ isYear
        exact ih (time - hoursPerYear year) (by omega) (by omega) (by omega) (by omega)

theorem daysBeforeYear_four {years : Nat} (before : years ≤ 32) :
    daysBeforeYear (1970 + years * 4) = 1461 * years := by
  have days := @daysBeforeYear_eq (1970 + years * 4) (Nat.le_add_right 1970 _)
  omega

theorem monthLoop_spec {table : List Nat} {month time : Nat} (positive : 0 < time)
    (inTable : time ≤ table.sum) :
    ∃ offset < table.length, monthLoop table month time =
        some (month + offset, time - (table.take offset).sum) ∧
      (table.take offset).sum < time ∧ time ≤ (table.take (offset + 1)).sum := by
  induction table generalizing month time with
  | nil =>
      rw [List.sum_nil] at inTable
      omega
  | cons days table ih =>
      rw [List.sum_cons] at inTable
      rw [monthLoop]
      by_cases later : days < time
      · obtain ⟨offset, inside, found, before, notBehind⟩ :=
          @ih (month + 1) (time - days) (by omega) (by omega)
        rw [if_pos later, found]
        refine ⟨offset + 1, by rw [List.length_cons]; omega, ?_, ?_, ?_⟩
        · rw [List.take_succ_cons, List.sum_cons, Nat.sub_sub, Nat.add_assoc, Nat.add_comm 1]
        · rw [List.take_succ_cons, List.sum_cons]
          omega
        · rw [List.take_succ_cons, List.sum_cons]
          omega
      · rw [if_neg later]
        refine ⟨0, Nat.succ_pos _, rfl, positive, ?_⟩
        rw [List.take_succ_cons, List.take_zero, List.sum_singleton]
        exact Nat.le_of_not_lt later

structure IsDayOfYear (year dayOfYear month day : Nat) : Prop where
  isMonth : month < 12
  isDay : 1 ≤ day ∧ day ≤ monthDays year (month + 1)
  counted : daysBeforeMonth year (month + 1) + day = dayOfYear

theorem daysBeforeMonth_table (year : Nat) {month : Nat} (isMonth : month < 12) :
    daysBeforeMonth year (month + 1) =
      (monthTable.take month).sum + if 2 ≤ month ∧ IsLeap year then 1 else 0 := by
  by_cases late : 2 ≤ month
  · have counted := @daysBeforeMonth_late year (month + 1) ⟨by omega, by omega⟩
    rw [counted]
    simp only [late, true_and]
    congr 1
    interval_cases month <;> rfl
  · rw [if_neg fun both => late both.1]
    have early : month = 0 ∨ month = 1 := by omega
    rcases early with rfl | rfl
    · rfl
    · rfl

theorem monthDays_table (year : Nat) {month : Nat} (isMonth : month < 12) :
    (monthTable.take (month + 1)).sum ≤
      (monthTable.take month).sum + monthDays year (month + 1) := by
  by_cases leap : IsLeap year
  · interval_cases month <;> simp [monthTable, monthDays, leap]
  · interval_cases month <;> simp [monthTable, monthDays, leap]

theorem table_march {month : Nat} (isMonth : month < 12) :
    (2 ≤ month → 59 ≤ (monthTable.take month).sum) ∧
      (month < 2 → (monthTable.take (month + 1)).sum ≤ 59) := by
  interval_cases month <;> decide

theorem monthLoop_table (year : Nat) {time : Nat} (positive : 0 < time) (inYear : time ≤ 365) :
    ∃ month day, monthLoop monthTable 0 time = some (month, day) ∧
      IsDayOfYear year (time + if 59 < time ∧ IsLeap year then 1 else 0) month day := by
  have inTable : time ≤ monthTable.sum := inYear
  obtain ⟨month, isMonth, found, before, notBehind⟩ :=
    @monthLoop_spec monthTable 0 time positive inTable
  have inside : month < 12 := isMonth
  have days := monthDays_table year inside
  have counted := daysBeforeMonth_table year inside
  obtain ⟨late, early⟩ := table_march inside
  have march : 59 < time ↔ 2 ≤ month := by
    constructor
    · intro afterFebruary
      by_contra notLate
      have bound := early (Nat.lt_of_not_le notLate)
      omega
    · intro isLate
      exact Nat.lt_of_le_of_lt (late isLate) before
  rw [Nat.zero_add] at found
  refine ⟨month, _, found, inside, ⟨by omega, by omega⟩, ?_⟩
  rw [counted]
  simp only [march]
  omega

theorem monthAndDay_spec {year dayOfYear : Nat} (isYear : 1970 ≤ year) (before : year ≤ 2100)
    (inYear : dayOfYear < 365 + if year % 4 = 0 then 1 else 0)
    (notMarch : year = 2100 → dayOfYear < 59) :
    ∃ month day, monthAndDay year (dayOfYear + 1) = some (month, day) ∧
      IsDayOfYear year (dayOfYear + 1) month day := by
  rw [monthAndDay, and_three]
  by_cases fourth : year % 4 = 0
  · rw [if_pos fourth] at inYear
    have leap : year < 2100 → IsLeap year := by
      intro early
      exact ⟨fourth, by omega⟩
    rw [if_pos fourth]
    by_cases march : 60 < dayOfYear + 1
    · rw [if_pos march, Nat.add_sub_cancel]
      have found := @monthLoop_table year dayOfYear (by omega) (by omega)
      rwa [if_pos ⟨by omega, leap (by omega)⟩] at found
    · rw [if_neg march]
      by_cases leapDay : dayOfYear + 1 = 60
      · have isLeap := leap (by omega)
        refine ⟨1, 29, if_pos leapDay, by decide, ⟨by decide, ?_⟩, ?_⟩
        · rw [monthDays, if_pos rfl, if_pos isLeap]
        · rw [leapDay]
          rfl
      · rw [if_neg leapDay]
        have found := @monthLoop_table year (dayOfYear + 1) (Nat.succ_pos _) (by omega)
        rwa [if_neg fun both => absurd both.1 (by omega), Nat.add_zero] at found
  · rw [if_neg fourth] at inYear ⊢
    have found := @monthLoop_table year (dayOfYear + 1) (Nat.succ_pos _) (by omega)
    rwa [if_neg fun both => fourth both.2.1, Nat.add_zero] at found

theorem toU64_nat {n : Nat} (small : n < 2 ^ 64) : (toU64 n).toNat = n := by
  rw [toU64_toNat]
  omega

theorem mkdatetime_spec {time : Nat} (inRange : time < 4107542400) :
    ∃ (date : Date) (month hour minute second : Nat), date.year ≤ 2100 ∧
      date.month = month + 1 ∧ hour < 24 ∧ minute < 60 ∧ second < 60 ∧
      mkdatetime time = some ⟨date.year, month, date.day, hour, minute, second⟩ ∧
      date.seconds hour minute second = time := by
  have isTime := @toU64_nat time (by omega)
  obtain ⟨minutes, second, bySeconds, isMinutes, isSecond⟩ :=
    @divU64Rem_eq (toU64 time) 60 (by decide)
  obtain ⟨hours, minute, byMinutes, isHours, isMinute⟩ := @divU64Rem_eq minutes 60 (by decide)
  obtain ⟨years, rest, byYears, isYears, isRest⟩ :=
    @divU64Rem_eq hours (1461 * 24) (by decide)
  have sixty : (60 : UInt32).toNat = 60 := rfl
  have fourYears : (1461 * 24 : UInt32).toNat = 35064 := rfl
  rw [isTime, sixty] at isMinutes isSecond
  rw [isMinutes, sixty] at isHours isMinute
  rw [isHours, fourYears] at isYears isRest
  obtain ⟨count, isCount⟩ : ∃ count, time / 60 / 60 = count := ⟨_, rfl⟩
  rw [isCount] at isYears isRest
  have small : count < 24 * 47541 := by
    omega
  have before := @daysBeforeYear_four years.toNat (by omega)
  obtain ⟨year, left, found, isYear, notLater, counted, inYear⟩ :=
    @yearLoop_spec count (1970 + years.toNat * 4) rest.toNat (Nat.le_add_right 1970 _) (by omega)
      (by omega) small
  have yearHours : hoursPerYear year = 24 * (365 + if year % 4 = 0 then 1 else 0) := by
    rw [hoursPerYear, and_three]
    split
    · rfl
    · rfl
  have leftSmall : left < 24 * 366 := by
    rw [yearHours] at inYear
    split at inYear <;> omega
  obtain ⟨dayOfYear, hour, byHours, isDay, isHour⟩ := @divU64Rem_eq (toU64 left) 24 (by decide)
  rw [toU64_nat (by omega), show (24 : UInt32).toNat = 24 from rfl] at isDay isHour
  have notMarch : year = 2100 → left / 24 < 59 := by
    rintro rfl
    have days := daysBeforeYear_eq isYear
    omega
  obtain ⟨month, day, isDate, isDayOfYear⟩ := @monthAndDay_spec year (left / 24) isYear notLater
    (by rw [yearHours] at inYear; omega) notMarch
  obtain ⟨isMonth, dayInMonth, dayCounted⟩ := isDayOfYear
  refine ⟨⟨year, month + 1, day, isYear, ⟨Nat.le_add_left 1 month, isMonth⟩, dayInMonth⟩, month,
    hour.toNat, minute.toNat, second.toNat, notLater, rfl, ?_, ?_, ?_, ?_, ?_⟩
  · rw [isHour]
    exact Nat.mod_lt _ (Nat.succ_pos 23)
  · rw [isMinute]
    exact Nat.mod_lt _ (Nat.succ_pos 59)
  · rw [isSecond]
    exact Nat.mod_lt _ (Nat.succ_pos 59)
  · rw [mkdatetime, bySeconds]
    simp only [Option.bind_eq_bind, Option.bind_some, byMinutes, byYears, found, byHours, isDay,
      isDate]
    rfl
  · rw [Date.seconds, Date.days, isHour, isMinute, isSecond]
    dsimp only
    omega


/-- Until the end of February 2100 a time is converted to the date and the time of day of the
calendar, which are converted back to it. -/
theorem mkdatetime_mktime64 :
    (∀ time : Int, 0 ≤ time → time < 4107542400 →
      ∃ (date : Date) (month hour minute second : Nat),
        date.month = month + 1 ∧ hour < 24 ∧ minute < 60 ∧ second < 60 ∧
        mkdatetime time = some ⟨date.year, month, date.day, hour, minute, second⟩ ∧
        date.seconds hour minute second = time ∧
        mktime64 (UInt32.ofNat date.year) (UInt32.ofNat (month + 1)) (UInt32.ofNat date.day)
          (UInt32.ofNat hour) (UInt32.ofNat minute) (UInt32.ofNat second) = time) ∧
    ∀ first second : Int, 0 ≤ first → first < 4107542400 → 0 ≤ second → second < 4107542400 →
      mkdatetime first = mkdatetime second → first = second := by
  have converts : ∀ time : Int, 0 ≤ time → time < 4107542400 →
      ∃ (date : Date) (month hour minute second : Nat),
        date.month = month + 1 ∧ hour < 24 ∧ minute < 60 ∧ second < 60 ∧
        mkdatetime time = some ⟨date.year, month, date.day, hour, minute, second⟩ ∧
        date.seconds hour minute second = time ∧
        mktime64 (UInt32.ofNat date.year) (UInt32.ofNat (month + 1)) (UInt32.ofNat date.day)
          (UInt32.ofNat hour) (UInt32.ofNat minute) (UInt32.ofNat second) = time := by
    intro time nonneg inRange
    obtain ⟨count, rfl⟩ := Int.eq_ofNat_of_zero_le nonneg
    obtain ⟨date, month, hour, minute, second, small, isMonth, isHour, isMinute, isSecond, made,
      counted⟩ := mkdatetime_spec (Int.ofNat_lt.mp inRange)
    have back := mktime64_eq date (by omega) isHour isMinute isSecond
    rw [counted, isMonth] at back
    exact ⟨date, month, hour, minute, second, isMonth, isHour, isMinute, isSecond, made,
      congrArg Nat.cast counted, back⟩
  refine ⟨converts, ?_⟩
  intro first second firstNonneg firstInRange secondNonneg secondInRange same
  obtain ⟨date, month, hour, minute, sec, -, -, -, -, made, -, back⟩ :=
    converts first firstNonneg firstInRange
  obtain ⟨other, otherMonth, otherHour, otherMinute, otherSec, -, -, -, -, otherMade, -,
    otherBack⟩ := converts second secondNonneg secondInRange
  rw [made, otherMade] at same
  have fields := Option.some.inj same
  simp only [Datetime.mk.injEq] at fields
  obtain ⟨years, months, days, hours, minutes, secs⟩ := fields
  rw [← back, ← otherBack, years, months, days, hours, minutes, secs]

theorem mkdatetime_leapDay :
    (∃ (date : Date) (month hour minute second : Nat),
      date.month = month + 1 ∧ hour < 24 ∧ minute < 60 ∧ second < 60 ∧
      mkdatetime 951782400 = some ⟨date.year, month, date.day, hour, minute, second⟩ ∧
      (date.seconds hour minute second : Int) = 951782400 ∧
      mktime64 (UInt32.ofNat date.year) (UInt32.ofNat (month + 1)) (UInt32.ofNat date.day)
        (UInt32.ofNat hour) (UInt32.ofNat minute) (UInt32.ofNat second) = 951782400) ∧
    mkdatetime 951782400 ≠ mkdatetime 951782401 := by
  constructor
  · exact mkdatetime_mktime64.1 951782400 (by decide) (by decide)
  · intro same
    have equal := mkdatetime_mktime64.2 951782400 951782401 (by decide) (by decide) (by decide)
      (by decide) same
    exact absurd equal (by decide)

end CleanOS.Common
