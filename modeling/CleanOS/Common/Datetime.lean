import CleanOS.Lib.Calendar

/-!
# Dates and times

`mktime64` of `common/tool/datetime.h`.
-/

namespace CleanOS.Common

open CleanOS.Lib.Calendar

def mktimeShift (year0 mon0 : UInt32) : UInt32 × UInt32 :=
  let mon := mon0 - 2
  if mon.toInt32.toInt ≤ 0 then (year0 - 1, mon + 12) else (year0, mon)

/-- The days in `mktime64`, of which 32 bits are kept before the sums of 64 bits. -/
def mktimeDays (year mon day : UInt32) : Int :=
  (year / 4 - year / 100 + year / 400 + 367 * mon / 12 + day).toNat + (year * 365).toNat - 719499

/-- `mktime64`.  The sums of 64 bits do not overflow. -/
def mktime64 (year0 mon0 day hour min sec : UInt32) : Int :=
  let shifted := mktimeShift year0 mon0
  ((mktimeDays shifted.1 shifted.2 day * 24 + hour.toNat) * 60 + min.toNat) * 60 + sec.toNat

theorem mktimeDays_eq {year mon day : Nat} (smallYear : year < 2 ^ 22) (smallMon : mon ≤ 12)
    (smallDay : day ≤ 31) :
    mktimeDays (UInt32.ofNat year) (UInt32.ofNat mon) (UInt32.ofNat day) + 719499 +
        (year / 100 : Nat) =
      (365 * year + year / 4 + year / 400 + 367 * mon / 12 + day : Nat) := by
  have isYear : year % 4294967296 = year := Nat.mod_eq_of_lt (by omega)
  have isMon : 367 * mon % 4294967296 = 367 * mon := Nat.mod_eq_of_lt (by omega)
  have years : (UInt32.ofNat year * 365).toNat = 365 * year := by
    simp [UInt32.toNat_mul]
    omega
  have days : (UInt32.ofNat year / 4 - UInt32.ofNat year / 100 + UInt32.ofNat year / 400 +
      367 * UInt32.ofNat mon / 12 + UInt32.ofNat day).toNat + year / 100 =
        year / 4 + year / 400 + 367 * mon / 12 + day := by
    simp [UInt32.toNat_add, UInt32.toNat_sub, UInt32.toNat_div, UInt32.toNat_mul]
    rw [isYear, isMon]
    omega
  rw [mktimeDays, years]
  omega

theorem mktimeShift_early {year month : Nat} (early : month = 1 ∨ month = 2) (some : 0 < year) :
    mktimeShift (UInt32.ofNat year) (UInt32.ofNat month) =
      (UInt32.ofNat (year - 1), UInt32.ofNat (month + 10)) := by
  have before : UInt32.ofNat year - 1 = UInt32.ofNat (year - 1) := (UInt32.ofNat_sub some).symm
  rcases early with rfl | rfl
  · rw [← before]
    rfl
  · rw [← before]
    rfl

theorem mktimeShift_late {year month : Nat} (late : 3 ≤ month ∧ month ≤ 12) :
    mktimeShift (UInt32.ofNat year) (UInt32.ofNat month) =
      (UInt32.ofNat year, UInt32.ofNat (month - 2)) := by
  obtain ⟨notFirst, isMonth⟩ := late
  interval_cases month <;> rfl

theorem mktimeDays_date (date : Date) (smallYear : date.year < 2 ^ 22) :
    (mktimeDays (mktimeShift (UInt32.ofNat date.year) (UInt32.ofNat date.month)).1
      (mktimeShift (UInt32.ofNat date.year) (UInt32.ofNat date.month)).2
        (UInt32.ofNat date.day)) = date.days := by
  have smallDay : date.day ≤ 31 := Nat.le_trans date.isDay.2 monthDays_le
  have isYear := date.isYear
  have isMonth := date.isMonth
  have isDay := date.isDay
  have years := daysBeforeYear_eq isYear
  rw [Date.days]
  by_cases early : date.month = 1 ∨ date.month = 2
  · have smallPred : date.year - 1 < 2 ^ 22 := by omega
    have shifted : date.month + 10 ≤ 12 := by omega
    have months := @daysBeforeMonth_early date.year date.month early
    have days := mktimeDays_eq smallPred shifted smallDay
    rw [mktimeShift_early early (by omega)]
    dsimp only
    generalize mktimeDays _ _ _ = counted at days ⊢
    omega
  · have late : 3 ≤ date.month ∧ date.month ≤ 12 := by omega
    have positive : 0 < date.year := by omega
    have shifted : date.month - 2 ≤ 12 := by omega
    have months := @daysBeforeMonth_late date.year date.month late
    have leaps := leapDays_step positive
    have days := mktimeDays_eq smallYear shifted smallDay
    rw [mktimeShift_late late]
    dsimp only
    generalize mktimeDays _ _ _ = counted at days ⊢
    omega

theorem mktime64_eq (date : Date) (smallYear : date.year < 2 ^ 22) {hour minute second : Nat}
    (isHour : hour < 24) (isMinute : minute < 60) (isSecond : second < 60) :
    mktime64 (UInt32.ofNat date.year) (UInt32.ofNat date.month) (UInt32.ofNat date.day)
        (UInt32.ofNat hour) (UInt32.ofNat minute) (UInt32.ofNat second) =
      date.seconds hour minute second := by
  have small {value : Nat} (bound : value < 60) : (UInt32.ofNat value).toNat = value :=
    UInt32.toNat_ofNat_of_lt' (Nat.lt_trans bound (by decide))
  rw [mktime64, mktimeDays_date date smallYear, Date.seconds,
    small (Nat.lt_trans isHour (by decide)),
    small isMinute, small isSecond]
  push_cast
  rfl

end CleanOS.Common
