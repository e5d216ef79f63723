/-
  Library/Calendar.lean --- the Gregorian calendar, counted in days.

  The number of a day is the number of days before it, year by year and month by
  month, from 1970-01-01.  It orders dates as the calendar does, and ECMAScript's
  formula for the first day of a year computes it.  The date of a day is found by the
  same numbers.
-/
import Mathlib

set_option autoImplicit false

namespace SupabaseLab.Library

/-! ## Years, months and days -/

def isLeap (y : Nat) : Bool := y % 4 = 0 && (y % 100 ≠ 0 || y % 400 = 0)

def yearLength (y : Nat) : Nat := if isLeap y then 366 else 365

/-- The length of the month with the number `m`, from 1 on. -/
def monthLength (y m : Nat) : Nat :=
  if m = 2 then (if isLeap y then 29 else 28)
  else if m = 4 ∨ m = 6 ∨ m = 9 ∨ m = 11 then 30
  else 31

def daysBeforeYear (y : Nat) : Nat := ∑ k ∈ Finset.range y, yearLength k

/-- The days of the first `n` months. -/
def daysOfMonths (y n : Nat) : Nat := ∑ k ∈ Finset.range n, monthLength y (k + 1)

/-- A date of the calendar. -/
structure Date where
  year : Nat
  month : Nat
  day : Nat
  month_pos : 0 < month
  month_le : month ≤ 12
  day_pos : 0 < day
  day_le : day ≤ monthLength year month
  deriving DecidableEq

/-- The days before 1970-01-01. -/
def epochDays : Nat := 719528

/-- The days since 1970-01-01. -/
def Date.dayNumber (d : Date) : Int :=
  (daysBeforeYear d.year + (daysOfMonths d.year (d.month - 1) + (d.day - 1)) : Nat) - (epochDays : Int)

/-! ## Order -/

section Order

/-- Counting in units of varying length orders by the unit, then by the place in it. -/
theorem count_lt_iff {f len : Nat → Nat} (hf : ∀ n, f (n + 1) = f n + len n) {m n r r' : Nat}
    (hr : r < len m) (hr' : r' < len n) : f m + r < f n + r' ↔ m < n ∨ m = n ∧ r < r' := by
  have hmono : Monotone f := monotone_nat_of_le_succ fun k => by rw [hf]; exact Nat.le_add_right _ _
  rcases Nat.lt_trichotomy m n with hlt | heq | hgt
  · have hle : f m + len m ≤ f n := hf m ▸ hmono hlt
    omega
  · subst heq
    omega
  · have hle : f n + len n ≤ f m := hf n ▸ hmono hgt
    omega

theorem daysBeforeYear_succ (y : Nat) : daysBeforeYear (y + 1) = daysBeforeYear y + yearLength y :=
  Finset.sum_range_succ _ _

theorem daysOfMonths_succ (y n : Nat) :
    daysOfMonths y (n + 1) = daysOfMonths y n + monthLength y (n + 1) :=
  Finset.sum_range_succ _ _

theorem daysOfMonths_twelve (y : Nat) : daysOfMonths y 12 = yearLength y := by
  simp only [daysOfMonths, Finset.sum_range_succ, Finset.sum_range_zero, monthLength, yearLength]
  cases isLeap y <;> rfl

theorem daysOfMonths_mono (y : Nat) : Monotone (daysOfMonths y) :=
  monotone_nat_of_le_succ fun n => by rw [daysOfMonths_succ]; exact Nat.le_add_right _ _

theorem Date.dayOfYear_lt (d : Date) :
    daysOfMonths d.year (d.month - 1) + (d.day - 1) < yearLength d.year := by
  have hday := d.day_le
  have hpos := d.day_pos
  have hmonth : d.month - 1 + 1 = d.month := Nat.sub_add_cancel d.month_pos
  have hnext := daysOfMonths_succ d.year (d.month - 1)
  have hle := daysOfMonths_mono d.year d.month_le
  rw [daysOfMonths_twelve] at hle
  rw [hmonth] at hnext
  omega

/-- Days are numbered in the order of the calendar. -/
theorem Date.dayNumber_lt_iff (a b : Date) : a.dayNumber < b.dayNumber ↔
    a.year < b.year ∨ a.year = b.year ∧ (a.month < b.month ∨ a.month = b.month ∧ a.day < b.day) := by
  have hyears := count_lt_iff daysBeforeYear_succ a.dayOfYear_lt b.dayOfYear_lt
  have hcast : a.dayNumber < b.dayNumber ↔
      daysBeforeYear a.year + (daysOfMonths a.year (a.month - 1) + (a.day - 1)) <
        daysBeforeYear b.year + (daysOfMonths b.year (b.month - 1) + (b.day - 1)) := by
    unfold Date.dayNumber
    omega
  rw [hcast, hyears]
  refine or_congr_right (and_congr_right fun hyear => ?_)
  have ha := a.day_le
  have hb := b.day_le
  have ha₀ := a.day_pos
  have hb₀ := b.day_pos
  have ha₁ := a.month_pos
  have hb₁ := b.month_pos
  have hra : a.day - 1 < monthLength a.year (a.month - 1 + 1) := by
    rw [Nat.sub_add_cancel ha₁]
    omega
  have hrb : b.day - 1 < monthLength a.year (b.month - 1 + 1) := by
    rw [Nat.sub_add_cancel hb₁, hyear]
    omega
  have hmonths := count_lt_iff (daysOfMonths_succ a.year) hra hrb
  rw [← hyear, hmonths]
  omega

end Order

/-! ## ECMAScript's formula -/

/-- `DayFromYear`. -/
def dayFromYear (y : Int) : Int :=
  365 * (y - 1970) + (y - 1969) / 4 - (y - 1901) / 100 + (y - 1601) / 400

theorem dayFromYear_eq (y : Nat) : dayFromYear y = (daysBeforeYear y : Int) - epochDays := by
  induction y with
  | zero => decide
  | succ y ih =>
    rw [daysBeforeYear_succ]
    have hstep : dayFromYear ((y + 1 : Nat) : Int) = dayFromYear y + (yearLength y : Int) := by
      unfold dayFromYear yearLength isLeap
      split
      · next h =>
        simp only [Bool.and_eq_true, decide_eq_true_eq, Bool.or_eq_true, ne_eq] at h
        omega
      · next h =>
        simp only [Bool.and_eq_true, decide_eq_true_eq, Bool.or_eq_true, ne_eq, not_and_or] at h
        omega
    rw [hstep, ih]
    push_cast
    ring

/-- The days of a year before the first of each month, as `MonthFromTime` has them. -/
def monthStart (leap : Bool) (m : Nat) : Nat :=
  [0, 31, 59, 90, 120, 151, 181, 212, 243, 273, 304, 334].getD (m - 1) 0 +
    if leap && 2 < m then 1 else 0

theorem monthStart_eq {y m : Nat} (hpos : 0 < m) (hle : m ≤ 12) :
    monthStart (isLeap y) m = daysOfMonths y (m - 1) := by
  interval_cases m <;>
    simp only [daysOfMonths, Finset.sum_range_succ, Finset.sum_range_zero, monthLength] <;>
    cases isLeap y <;> rfl

/-- `MakeDay`. -/
def makeDay (y m d : Nat) : Int := dayFromYear y + monthStart (isLeap y) m + (d - 1 : Nat)

theorem makeDay_eq (d : Date) : makeDay d.year d.month d.day = d.dayNumber := by
  unfold makeDay Date.dayNumber
  rw [dayFromYear_eq, monthStart_eq d.month_pos d.month_le]
  push_cast
  ring

/-! ## The date of a day -/

/-- `YearFromTime`, among the years that four digits write. -/
def yearFromDay (day : Int) : Nat := Nat.findGreatest (fun y => dayFromYear y ≤ day) 9999

/-- `MonthFromTime`, of a day of the year. -/
def monthFromDay (leap : Bool) (day : Nat) : Nat :=
  Nat.findGreatest (fun m => monthStart leap m ≤ day) 12

/-- The day lies in the years from 0 to 9999. -/
structure InYears (day : Int) : Prop where
  le : dayFromYear 0 ≤ day
  lt : day < dayFromYear 10000

section DateOfDay

variable {day : Int} {y k : Nat}

theorem dayFromYear_yearFromDay (h : InYears day) :
    dayFromYear (yearFromDay day) ≤ day ∧
      day < dayFromYear (yearFromDay day) + yearLength (yearFromDay day) := by
  have hyear : yearFromDay day ≤ 9999 := Nat.findGreatest_le 9999
  refine ⟨Nat.findGreatest_spec (P := fun y : Nat => dayFromYear y ≤ day) (Nat.zero_le 9999) h.le, ?_⟩
  have hnext : dayFromYear ((yearFromDay day + 1 : Nat) : Int) =
      dayFromYear (yearFromDay day) + yearLength (yearFromDay day) := by
    rw [dayFromYear_eq, dayFromYear_eq, daysBeforeYear_succ]
    push_cast
    ring
  rw [← hnext]
  obtain hlast | hlt := Nat.eq_or_lt_of_le hyear
  · rw [hlast]
    exact h.lt
  · exact not_le.mp (Nat.findGreatest_is_greatest (P := fun y : Nat => dayFromYear y ≤ day)
      (Nat.lt_succ_self _) hlt)

/-- A day of the year lies in the month that is found. -/
theorem daysOfMonths_monthFromDay (h : k < yearLength y) : 0 < monthFromDay (isLeap y) k ∧
    monthFromDay (isLeap y) k ≤ 12 ∧ daysOfMonths y (monthFromDay (isLeap y) k - 1) ≤ k ∧
      k < daysOfMonths y (monthFromDay (isLeap y) k) := by
  have hfirst : monthStart (isLeap y) 1 ≤ k := by
    rw [monthStart_eq Nat.one_pos (by decide)]
    exact Nat.zero_le _
  have hpos : 0 < monthFromDay (isLeap y) k :=
    Nat.le_findGreatest (P := fun m => monthStart (isLeap y) m ≤ k) (by decide) hfirst
  have hle : monthFromDay (isLeap y) k ≤ 12 := Nat.findGreatest_le 12
  have hspec : monthStart (isLeap y) (monthFromDay (isLeap y) k) ≤ k :=
    Nat.findGreatest_spec (P := fun m => monthStart (isLeap y) m ≤ k) (show 1 ≤ 12 by decide) hfirst
  rw [monthStart_eq hpos hle] at hspec
  refine ⟨hpos, hle, hspec, ?_⟩
  obtain hlast | hlt := Nat.eq_or_lt_of_le hle
  · rw [hlast, daysOfMonths_twelve]
    exact h
  · have hnext : ¬ monthStart (isLeap y) (monthFromDay (isLeap y) k + 1) ≤ k :=
      Nat.findGreatest_is_greatest (P := fun m => monthStart (isLeap y) m ≤ k) (Nat.lt_succ_self _) hlt
    rw [monthStart_eq (Nat.succ_pos _) hlt] at hnext
    exact not_le.mp hnext

/-- Every day of these years is that of a date. -/
theorem exists_dayNumber (h : InYears day) : ∃ d : Date, d.dayNumber = day ∧ d.year < 10000 ∧
    d.year = yearFromDay day ∧
    d.month = monthFromDay (isLeap d.year) (day - dayFromYear d.year).toNat ∧
    d.day = (day - dayFromYear d.year).toNat - monthStart (isLeap d.year) d.month + 1 := by
  obtain ⟨hle, hlt⟩ := dayFromYear_yearFromDay h
  have hyear : yearFromDay day ≤ 9999 := Nat.findGreatest_le 9999
  obtain ⟨k, hk⟩ := Int.eq_ofNat_of_zero_le (Int.sub_nonneg_of_le hle)
  have hinYear : (day - dayFromYear (yearFromDay day)).toNat < yearLength (yearFromDay day) := by
    omega
  obtain ⟨hpos, hle12, hstart, hend⟩ := daysOfMonths_monthFromDay hinYear
  have hmonth := monthStart_eq (y := yearFromDay day) hpos hle12
  have hlength := daysOfMonths_succ (yearFromDay day)
    (monthFromDay (isLeap (yearFromDay day)) (day - dayFromYear (yearFromDay day)).toNat - 1)
  rw [Nat.sub_add_cancel hpos] at hlength
  refine ⟨⟨yearFromDay day, _, (day - dayFromYear (yearFromDay day)).toNat -
    monthStart (isLeap (yearFromDay day)) (monthFromDay (isLeap (yearFromDay day))
      (day - dayFromYear (yearFromDay day)).toNat) + 1, hpos, hle12, Nat.succ_pos _, ?_⟩,
    ?_, ?_, rfl, rfl, rfl⟩
  · rw [hmonth]
    omega
  · rw [← makeDay_eq]
    unfold makeDay
    dsimp only
    omega
  · exact Nat.lt_succ_of_le hyear

end DateOfDay
end SupabaseLab.Library
