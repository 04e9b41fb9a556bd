import Mathlib.Algebra.BigOperators.Intervals
import Mathlib.Logic.Function.Iterate

/-!
# KosKernel.Lib.Calendar

**The proleptic Gregorian calendar.**

A date carries that it exists, and `Date.tomorrow` is the rule by which the calendar goes on from
one day to the next. `Date.number` counts the days since the first of January of the year 0;
`number_iterate` ties the two together, so that a program that computes with day numbers can be
compared with the rule.
-/

namespace KosKernel.Calendar

open Finset

/-- Every fourth year, but of the centuries only every fourth. -/
def IsLeap (year : Nat) : Prop := year % 400 = 0 ∨ year % 100 ≠ 0 ∧ year % 4 = 0

instance (year : Nat) : Decidable (IsLeap year) :=
  inferInstanceAs (Decidable (_ ∨ _ ∧ _))

/-- The days of a month; January is month `0`. -/
def monthLength (year month : Nat) : Nat :=
  match month with
  | 1 => if IsLeap year then 29 else 28
  | 3 | 5 | 8 | 10 => 30
  | _ => 31

/-- The days of a year before a month. -/
def monthStart (year month : Nat) : Nat := ∑ m ∈ range month, monthLength year m

/-- The days of a year. -/
def yearLength (year : Nat) : Nat := monthStart year 12

/-- The days before a year, counted from the year `0`. -/
def daysBefore (year : Nat) : Nat := ∑ y ∈ range year, yearLength y

/-- A day of the calendar. -/
structure Date where
  year : Nat
  month : Nat
  day : Nat
  month_lt : month < 12
  day_pos : 0 < day
  day_le : day ≤ monthLength year month

theorem monthLength_pos (year month : Nat) : 0 < monthLength year month := by
  unfold monthLength
  split <;> try split
  all_goals omega

theorem monthLength_le (year month : Nat) : monthLength year month ≤ 31 := by
  unfold monthLength
  split <;> try split
  all_goals omega

/-- The next day. -/
def Date.tomorrow (d : Date) : Date :=
  if h : d.day < monthLength d.year d.month then
    ⟨d.year, d.month, d.day + 1, d.month_lt, by omega, h⟩
  else if h' : d.month + 1 < 12 then
    ⟨d.year, d.month + 1, 1, h', by omega, monthLength_pos _ _⟩
  else
    ⟨d.year + 1, 0, 1, by omega, by omega, monthLength_pos _ _⟩

/-- The days of the year before a date. -/
def Date.yearday (d : Date) : Nat := monthStart d.year d.month + (d.day - 1)

/-- The days before a date, counted from the year `0`. -/
def Date.number (d : Date) : Nat := daysBefore d.year + d.yearday

/-! ### Months -/

theorem monthStart_succ (year month : Nat) :
    monthStart year (month + 1) = monthStart year month + monthLength year month :=
  sum_range_succ _ _

theorem monthStart_strictMono (year : Nat) : StrictMono (monthStart year) :=
  strictMono_nat_of_lt_succ fun month => by
    rw [monthStart_succ]
    have := monthLength_pos year month
    omega

theorem Date.yearday_lt_monthStart (d : Date) :
    d.yearday < monthStart d.year (d.month + 1) := by
  have hle := d.day_le
  have hpos := d.day_pos
  rw [monthStart_succ, Date.yearday]
  omega

/-! ### Years -/

theorem yearLength_eq (year : Nat) : yearLength year = if IsLeap year then 366 else 365 := by
  simp only [yearLength, monthStart, sum_range_succ, sum_range_zero, monthLength]
  split <;> rfl

theorem daysBefore_succ (year : Nat) :
    daysBefore (year + 1) = daysBefore year + yearLength year :=
  sum_range_succ _ _

/-- **The number of the first day of a year.** -/
theorem daysBefore_eq (year : Nat) :
    daysBefore year + (year + 99) / 100 = 365 * year + (year + 3) / 4 + (year + 399) / 400 := by
  induction year with
  | zero => rfl
  | succ year ih =>
    rw [daysBefore_succ, yearLength_eq]
    by_cases h4 : year % 4 = 0
    · by_cases h100 : year % 100 = 0
      · by_cases h400 : year % 400 = 0
        · rw [if_pos (.inl h400)]
          omega
        · rw [if_neg (by rintro (h | h); exacts [h400 h, h.1 h100])]
          omega
      · rw [if_pos (.inr ⟨h100, h4⟩)]
        omega
    · rw [if_neg (by rintro (h | h) <;> omega)]
      omega

theorem Date.yearday_lt (d : Date) : d.yearday < yearLength d.year :=
  d.yearday_lt_monthStart.trans_le ((monthStart_strictMono d.year).monotone d.month_lt)

theorem Date.number_lt (d : Date) : d.number < daysBefore (d.year + 1) := by
  rw [daysBefore_succ, Date.number]
  exact Nat.add_lt_add_left d.yearday_lt _

/-! ### Days -/

theorem Date.number_tomorrow (d : Date) : d.tomorrow.number = d.number + 1 := by
  have hpos := d.day_pos
  have hle := d.day_le
  unfold Date.tomorrow
  split
  · simp only [Date.number, Date.yearday]
    omega
  split
  · simp only [Date.number, Date.yearday, monthStart_succ]
    omega
  -- the last day of December
  have hmonth : d.month = 11 := by have := d.month_lt; omega
  have hyear : yearLength d.year = monthStart d.year d.month + monthLength d.year d.month := by
    rw [yearLength, hmonth]
    exact monthStart_succ d.year 11
  have hzero : monthStart (d.year + 1) 0 = 0 := rfl
  simp only [Date.number, Date.yearday, daysBefore_succ, hzero]
  omega

/-- **Days are numbered in the order of the calendar.** -/
theorem Date.number_iterate (n : Nat) (d : Date) :
    (Date.tomorrow^[n] d).number = d.number + n := by
  induction n with
  | zero => rfl
  | succ n ih =>
    rw [Function.iterate_succ_apply', Date.number_tomorrow, ih]
    omega

end KosKernel.Calendar
