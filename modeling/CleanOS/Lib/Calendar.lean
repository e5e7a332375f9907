import Mathlib.Algebra.BigOperators.Intervals
import Mathlib.Tactic.IntervalCases

/-!
# The Gregorian calendar

Days and seconds from the beginning of the year 1970 on, counted year by year and month by month.
-/

namespace CleanOS.Lib.Calendar

def IsLeap (year : Nat) : Prop :=
  year % 4 = 0 ∧ (year % 100 ≠ 0 ∨ year % 400 = 0)

instance (year : Nat) : Decidable (IsLeap year) :=
  inferInstanceAs (Decidable (_ ∧ _))

def yearDays (year : Nat) : Nat :=
  if IsLeap year then 366 else 365

def monthDays (year month : Nat) : Nat :=
  if month = 2 then if IsLeap year then 29 else 28
  else if month = 4 ∨ month = 6 ∨ month = 9 ∨ month = 11 then 30
  else 31

/-- A date from 1970 on. -/
structure Date where
  year : Nat
  month : Nat
  day : Nat
  isYear : 1970 ≤ year
  isMonth : 1 ≤ month ∧ month ≤ 12
  isDay : 1 ≤ day ∧ day ≤ monthDays year month

def daysBeforeYear (year : Nat) : Nat :=
  ∑ before ∈ Finset.range (year - 1970), yearDays (1970 + before)

def daysBeforeMonth (year month : Nat) : Nat :=
  ∑ before ∈ Finset.range (month - 1), monthDays year (before + 1)

def Date.days (date : Date) : Nat :=
  daysBeforeYear date.year + daysBeforeMonth date.year date.month + (date.day - 1)

def Date.seconds (date : Date) (hour minute second : Nat) : Nat :=
  ((date.days * 24 + hour) * 60 + minute) * 60 + second

variable {year month : Nat}

theorem div_pred (divisor : Nat) (positive : 0 < year) :
    year / divisor = (year - 1) / divisor + if year % divisor = 0 then 1 else 0 := by
  obtain ⟨before, rfl⟩ := Nat.exists_eq_succ_of_ne_zero (Nat.ne_of_gt positive)
  rw [Nat.succ_div, Nat.succ_sub_one]
  simp only [Nat.dvd_iff_mod_eq_zero]

theorem leapDays_step (positive : 0 < year) :
    year / 4 + (year - 1) / 100 + year / 400 =
      (year - 1) / 4 + year / 100 + (year - 1) / 400 + if IsLeap year then 1 else 0 := by
  rw [div_pred 4 positive, div_pred 100 positive, div_pred 400 positive]
  have hundred : year % 100 = 0 → year % 4 = 0 := by omega
  have fourHundred : year % 400 = 0 → year % 100 = 0 := by omega
  by_cases leap : IsLeap year
  · rw [if_pos leap, if_pos leap.1]
    rcases leap.2 with noCentury | fourth
    · rw [if_neg noCentury, if_neg fun fourth => noCentury (fourHundred fourth)]
      omega
    · rw [if_pos fourth, if_pos (fourHundred fourth)]
      omega
  · rw [if_neg leap]
    by_cases century : year % 100 = 0
    · have other : year % 400 ≠ 0 := fun fourth => leap ⟨hundred century, .inr fourth⟩
      rw [if_pos century, if_pos (hundred century), if_neg other]
      omega
    · have other : year % 4 ≠ 0 := fun fourth => leap ⟨fourth, .inl century⟩
      rw [if_neg century, if_neg other, if_neg fun fourth => century (fourHundred fourth)]
      omega

theorem daysBeforeYear_eq (isYear : 1970 ≤ year) :
    daysBeforeYear year + 719527 + (year - 1) / 100 =
      365 * year + (year - 1) / 4 + (year - 1) / 400 := by
  induction year, isYear using Nat.le_induction with
  | base => rfl
  | succ year isYear ih =>
      have next : daysBeforeYear (year + 1) = daysBeforeYear year + yearDays year := by
        rw [daysBeforeYear, Nat.succ_sub isYear, Finset.sum_range_succ,
          Nat.add_sub_cancel' isYear]
        rfl
      have positive : 0 < year := by omega
      have step := leapDays_step positive
      rw [next, Nat.add_sub_cancel, yearDays]
      by_cases leap : IsLeap year
      · rw [if_pos leap] at step ⊢
        omega
      · rw [if_neg leap] at step ⊢
        omega

theorem daysBeforeMonth_late (late : 3 ≤ month ∧ month ≤ 12) :
    daysBeforeMonth year month =
      367 * (month - 2) / 12 + 29 + if IsLeap year then 1 else 0 := by
  obtain ⟨notEarly, isMonth⟩ := late
  by_cases leap : IsLeap year
  · rw [if_pos leap]
    interval_cases month <;> simp [daysBeforeMonth, Finset.sum_range_succ, monthDays, leap]
  · rw [if_neg leap]
    interval_cases month <;> simp [daysBeforeMonth, Finset.sum_range_succ, monthDays, leap]

theorem daysBeforeMonth_early (early : month = 1 ∨ month = 2) :
    daysBeforeMonth year month + 336 = 367 * (month + 10) / 12 := by
  rcases early with rfl | rfl
  · rfl
  · rfl

theorem monthDays_le : monthDays year month ≤ 31 := by
  rw [monthDays]
  split
  · split <;> omega
  · split <;> omega

end CleanOS.Lib.Calendar
