import KosKernel.Lib.Calendar

/-!
# KosKernel.Libc.Time

**Calendar time** (`gmtime_r` and `mktime` in `libs/libc/time.c` and the macros of
`include/time.h`).

The day number is turned into a year, and a year into the number of its first day, through the
mean length `146097 / 400` of a year. Neither is exact: where `146097 * year / 400` is not the
number of the first of January, every day of the year is misplaced. And the month search stops
at the first month whose start is not *before* the day, so that the first of a month is given
out as one more day of the month before. `Placed` is what remains. `mktime` takes the year,
which is counted from 1900, for one that is counted from 0, and so knows only the first year of
the clock.
-/

namespace KosKernel.Libc

open Calendar

/-! ### The functions of the source -/

/-- `struct tm` -/
structure Tm where
  tmSec : Int
  tmMin : Int
  tmHour : Int
  tmMday : Int
  tmMon : Int
  tmYear : Int
  tmWday : Int
  tmYday : Int
  tmIsdst : Int
deriving DecidableEq

/-- Conversion to `int`. -/
def toInt (x : Int) : Int := x.bmod (2 ^ 32)

/-- Conversion to `time_t`, which is unsigned and has `_TIME_T_BITS` bits. -/
def toTime (bits : Nat) (x : Int) : Nat := (x % 2 ^ bits).toNat

/-- `__time_days2years` of a `time_t` -/
def timeDays2years (bits nDays : Nat) : Nat :=
  toTime bits (400 * toTime bits (nDays + 1)) / 146097

/-- `__time_years2days` of an `int` -/
def timeYears2days (nYears : Int) : Int := (toInt (146097 * nYears)).tdiv 400

/-- `__time_isleapyear` -/
def timeIsleapyear (year : Int) : Bool :=
  year.tmod 400 == 0 || (year.tmod 100 != 0 && year.tmod 4 == 0)

/-- `__time_monthstart_yday` -/
def timeMonthstartYday (leap : Bool) (i : Nat) : Nat :=
  (if leap then [0, 31, 60, 91, 121, 152, 182, 213, 244, 274, 305, 335, 366]
    else [0, 31, 59, 90, 120, 151, 181, 212, 243, 273, 304, 334, 365]).getD i 0

def tmCalcIsdst (tmMon tmMday tmWday : Int) : Int :=
  if tmMon < 3 ∨ tmMon > 11 then 0
  else if tmMon > 3 ∧ tmMon < 11 then 1
  else
    let previousSunday := tmMday - tmWday
    if tmMon = 3 then if previousSunday ≥ 8 then 1 else 0
    else if previousSunday ≤ 0 then 1 else 0

/-- The search for the month, with `left` months to go. -/
def monthSearch (monthvec : Nat → Nat) (t : Nat) : Nat → Nat → Nat
  | 0, i => i
  | left + 1, i => if monthvec i ≥ t then i else monthSearch monthvec t left (i + 1)

/-- `gmtime_r` from the month search on, with all fields it has set by then. -/
def gmtimeFill (bits timep days : Nat) (year : Int) (yday : Nat) : Tm :=
  let monthvec := timeMonthstartYday (timeIsleapyear year)
  let i := monthSearch monthvec yday 11 1
  let mday := toTime bits (toTime bits (yday - monthvec (i - 1)) + 1)
  { tmSec := toInt (timep % 60 : Nat)
    tmMin := toInt (timep / 60 % 60 : Nat)
    tmHour := toInt (timep / (60 * 60) % 24 : Nat)
    tmMday := toInt mday
    tmMon := i - 1
    tmYear := year - 1900
    tmWday := toInt (days % 7 : Nat)
    tmYday := toInt yday
    tmIsdst := tmCalcIsdst (i - 1) (toInt mday) (toInt (days % 7 : Nat)) }

def gmtimeR (bits timep : Nat) : Tm :=
  let days := toTime bits (timep / 86400 + timeYears2days 1970)
  let year := toInt (timeDays2years bits days)
  gmtimeFill bits timep days year (toTime bits (days - timeYears2days year))

def mktime (bits : Nat) (tm : Tm) : Nat :=
  let result := toTime bits
    (timeYears2days (if tm.tmYear > 1970 then tm.tmYear - 1970 else 0))
  let result := toTime bits (result + tm.tmYday)
  let result := toTime bits (result * 86400)
  let result := toTime bits (result + toInt (toInt (tm.tmHour * 60) * 60))
  let result := toTime bits (result + toInt (tm.tmMin * 60))
  toTime bits (result + tm.tmSec)

/-! ### What the fields should say -/

/-- The first day of the clock. -/
def epoch : Date := ⟨1970, 0, 1, by omega, by omega, by decide⟩

/-- The date of a number of seconds since the epoch. -/
def dateOf (t : Nat) : Date := Date.tomorrow^[t / 86400] epoch

/-- `tm` is the date and time of day of `t` seconds after the epoch, a Thursday. -/
structure Tm.Shows (tm : Tm) (t : Nat) : Prop where
  year : tm.tmYear + 1900 = (dateOf t).year
  month : tm.tmMon = (dateOf t).month
  monthday : tm.tmMday = (dateOf t).day
  yearday : tm.tmYday = (dateOf t).yearday
  weekday : tm.tmWday = (t / 86400 + 4) % 7
  hour : 0 ≤ tm.tmHour ∧ tm.tmHour < 24
  minute : 0 ≤ tm.tmMin ∧ tm.tmMin < 60
  second : 0 ≤ tm.tmSec ∧ tm.tmSec < 60
  clock : t / 86400 * 86400 + tm.tmHour * 3600 + tm.tmMin * 60 + tm.tmSec = t

/-- No intermediate result of `gmtime_r` overflows. -/
structure Fits (bits t : Nat) : Prop where
  time : t < 2 ^ bits
  days : 400 * (t / 86400 + 719528) < 2 ^ bits
  years : 146097 * (400 * (t / 86400 + 719528) / 146097) < 2 ^ 31

/-- **The dates that come out right**: `146097 / 400` puts the year where it begins and does not
begin the next one before its last day is over, and the date is not the first of a month, the
first of January excepted. -/
structure Placed (date : Date) : Prop where
  start : 146097 * date.year / 400 + 1 = daysBefore date.year
  stop : date.number ≤ 146097 * (date.year + 1) / 400
  inside : date.day = 1 → date.month = 0

/-! ### Conversions -/

variable {x : Int}

theorem toInt_of_small (hlow : -2 ^ 31 ≤ x) (hhigh : x < 2 ^ 31) : toInt x = x := by
  unfold toInt
  rw [Int.bmod_eq_iff (by decide)]
  omega

variable {bits : Nat}

theorem toTime_of_lt {n : Nat} (hx : x = n) (h : n < 2 ^ bits) : toTime bits x = n := by
  subst hx
  unfold toTime
  rw [show ((n : Int) % 2 ^ bits) = ((n % 2 ^ bits : Nat) : Int) by push_cast; rfl,
    Int.toNat_natCast, Nat.mod_eq_of_lt h]

/-- A difference that is small comes out of a `time_t` as it went in, also if it is negative. -/
theorem toInt_toTime (hbits : bits = 32 ∨ bits = 64) (hlow : -2 ^ 31 ≤ x) (hhigh : x < 2 ^ 31) :
    toInt (toTime bits x) = x := by
  unfold toInt toTime
  rw [Int.bmod_eq_iff (by decide)]
  rcases hbits with rfl | rfl <;> omega

variable {year : Nat}

theorem timeYears2days_eq (h : 146097 * year < 2 ^ 31) :
    timeYears2days year = (146097 * year / 400 : Nat) := by
  unfold timeYears2days
  rw [toInt_of_small (by omega) (by omega), Int.tdiv_eq_ediv_of_nonneg (by omega)]
  omega

theorem timeIsleapyear_eq (year : Nat) : timeIsleapyear year = decide (IsLeap year) := by
  rw [Bool.eq_iff_iff, decide_eq_true_iff]
  unfold timeIsleapyear IsLeap
  simp only [Int.tmod_eq_emod_of_nonneg (Int.natCast_nonneg year), Bool.or_eq_true,
    Bool.and_eq_true, beq_iff_eq, bne_iff_ne]
  omega

variable {i : Nat}

theorem timeMonthstartYday_eq (year : Nat) (hi : i ≤ 12) :
    timeMonthstartYday (timeIsleapyear year) i = monthStart year i := by
  have hlength : ∀ m, monthLength year m = if m = 1 then if IsLeap year then 29 else 28
      else if m = 3 ∨ m = 5 ∨ m = 8 ∨ m = 10 then 30 else 31 := by
    intro m
    unfold monthLength
    split <;> simp_all
  have hsum : ∀ leap : Bool, ∀ i ≤ 12, timeMonthstartYday leap i = ∑ m ∈ Finset.range i,
      if m = 1 then if leap = true then 29 else 28
      else if m = 3 ∨ m = 5 ∨ m = 8 ∨ m = 10 then 30 else 31 := by
    decide
  rw [timeIsleapyear_eq, hsum _ i hi]
  simp only [monthStart, hlength, decide_eq_true_eq]

/-! ### The month search -/

variable {t : Nat}

theorem monthSearch_eq {monthvec : Nat → Nat} {j : Nat} {left : Nat} (hij : i ≤ j)
    (hj : j ≤ i + left) (hbefore : ∀ k, i ≤ k → k < j → monthvec k < t)
    (hstop : j < i + left → t ≤ monthvec j) : monthSearch monthvec t left i = j := by
  induction left generalizing i with
  | zero =>
    have : i = j := by omega
    exact this
  | succ left ih =>
    unfold monthSearch
    by_cases heq : i = j
    · subst heq
      rw [if_pos (hstop (by omega))]
    rw [if_neg (by have := hbefore i (le_refl i) (by omega); omega)]
    exact ih (by omega) (by omega) (fun k hk => hbefore k (by omega))
      (fun h => hstop (by omega))

theorem monthSearch_congr {v v' : Nat → Nat} {left : Nat}
    (h : ∀ k, i ≤ k → k < i + left → v k = v' k) :
    monthSearch v t left i = monthSearch v' t left i := by
  induction left generalizing i with
  | zero => rfl
  | succ left ih =>
    unfold monthSearch
    rw [h i (le_refl i) (by omega), ih fun k hk hlt => h k (by omega) (by omega)]

/-- The month that is found for a day of the year. -/
def foundMonth (year yday : Nat) : Nat := monthSearch (monthStart year) yday 11 1

/-- **Where the month search ends**: behind the month of the date, but at the month itself if
the date is its first day. -/
theorem foundMonth_eq (date : Date) :
    foundMonth date.year date.yearday =
      if date.day = 1 ∧ date.month ≠ 0 then date.month else date.month + 1 := by
  have hmonth := date.month_lt
  have hday := date.day_pos
  have hmono := monthStart_strictMono date.year
  have hnext := date.yearday_lt_monthStart
  have hyday : date.yearday = monthStart date.year date.month + (date.day - 1) := rfl
  split_ifs with hfirst
  · refine monthSearch_eq (by omega) (by omega) (fun k _ hk => ?_) (fun _ => by omega)
    have := hmono hk
    omega
  refine monthSearch_eq (by omega) (by omega) (fun k hk hlt => ?_) (fun _ => by omega)
  -- the months up to the one of the date begin before it
  have hle := hmono.monotone (show k ≤ date.month by omega)
  rcases Nat.lt_or_ge 1 date.day with hlate | hearly
  · omega
  · exact absurd ⟨by omega, by omega⟩ hfirst

/-! ### The fields -/

theorem epoch_number : epoch.number = 719528 := by
  have hfirst : ∀ n, n + (1970 + 99) / 100 = 365 * 1970 + (1970 + 3) / 4 + (1970 + 399) / 400 →
      n = 719528 := by omega
  have hyear : epoch.year = 1970 := rfl
  have hyearday : epoch.yearday = 0 := rfl
  rw [Date.number, hyear, hyearday, Nat.add_zero]
  exact hfirst _ (daysBefore_eq 1970)

theorem dateOf_number (t : Nat) : (dateOf t).number = t / 86400 + 719528 := by
  rw [dateOf, Date.number_iterate, epoch_number]
  omega

/-- A day is not far from where `146097 / 400` puts the beginning of its year. -/
theorem mean_year {number : Nat} (h : 400 * number / 146097 = year) :
    146097 * year / 400 ≤ number ∧ number ≤ 146097 * year / 400 + 366 := by
  omega

variable {days : Nat}

/-- **`gmtime_r` without its conversions**: the day of the year is the distance from where
`146097 / 400` puts the year. -/
theorem gmtimeR_eq (h : Fits bits t) (hdays : days = t / 86400 + 719527)
    (hyear : 400 * (days + 1) / 146097 = year) :
    gmtimeR bits t = gmtimeFill bits t days year
      (toTime bits ((days : Int) - (146097 * year / 400 : Nat))) := by
  have hyears := h.years
  have hfits := h.days
  rw [show t / 86400 + 719528 = days + 1 by omega] at hyears hfits
  have hepoch : timeYears2days 1970 = 719527 := by decide
  have hfirst : toTime bits (t / 86400 + timeYears2days 1970) = days :=
    toTime_of_lt (by omega) (by omega)
  have hnext : toTime bits ((days : Int) + 1) = days + 1 := toTime_of_lt rfl (by omega)
  have hmul : toTime bits (400 * (days + 1 : Nat)) = 400 * (days + 1) := toTime_of_lt rfl hfits
  rw [hyear] at hyears
  simp only [gmtimeR, hfirst, timeDays2years, hnext, hmul, hyear]
  rw [toInt_of_small (by omega) (by omega), timeYears2days_eq hyears]

/-- The search of the source runs on the starts of the months. -/
theorem monthSearch_table (year yday : Nat) :
    monthSearch (timeMonthstartYday (timeIsleapyear year)) yday 11 1 = foundMonth year yday :=
  monthSearch_congr fun k _ hk => timeMonthstartYday_eq year (by omega)

/-- What `gmtime_r` makes of a day that it puts into its year. -/
theorem gmtimeFill_month (date : Date) :
    (gmtimeFill bits t days date.year date.yearday).tmMon =
      if date.day = 1 ∧ date.month ≠ 0 then (date.month : Int) - 1 else date.month := by
  simp only [gmtimeFill]
  rw [monthSearch_table, foundMonth_eq]
  split_ifs <;> omega

theorem gmtimeFill_mday {date : Date} (hbits : bits = 32 ∨ bits = 64)
    (hinside : date.day = 1 → date.month = 0) :
    (gmtimeFill bits t days date.year date.yearday).tmMday = date.day := by
  have hfound : monthSearch (timeMonthstartYday (timeIsleapyear date.year)) date.yearday 11 1 =
      date.month + 1 := by
    rw [monthSearch_table, foundMonth_eq, if_neg (fun h => h.2 (hinside h.1))]
  have hmonth := date.month_lt
  have hpos := date.day_pos
  have hday : date.day ≤ 31 := date.day_le.trans (monthLength_le _ _)
  have hwide : 2 ^ 31 < 2 ^ bits := by rcases hbits with rfl | rfl <;> decide
  have hback : toTime bits ((date.yearday : Int) - monthStart date.year date.month) =
      date.day - 1 := by
    refine toTime_of_lt ?_ (by omega)
    rw [Date.yearday]
    omega
  have hnext : toTime bits ((date.day - 1 : Nat) + 1) = date.day :=
    toTime_of_lt (by omega) (by omega)
  simp only [gmtimeFill, hfound, Nat.add_sub_cancel]
  rw [timeMonthstartYday_eq _ (by omega), hback, hnext]
  exact toInt_of_small (by omega) (by omega)

theorem gmtimeFill_yday {year : Int} {yday : Nat} :
    (gmtimeFill bits t days year yday).tmYday = toInt yday := by
  simp only [gmtimeFill]

theorem toInt_yearday (date : Date) : toInt date.yearday = date.yearday := by
  have hyear := date.yearday_lt
  have hlength : yearLength date.year ≤ 366 := by
    rw [yearLength_eq]
    split <;> omega
  exact toInt_of_small (by omega) (by omega)

/-- The day of the week and the time of the day are always right. -/
theorem gmtimeFill_clock {year : Int} {yday : Nat} (hdays : days = t / 86400 + 719527) :
    let tm := gmtimeFill bits t days year yday
    tm.tmWday = (t / 86400 + 4) % 7 ∧ (0 ≤ tm.tmHour ∧ tm.tmHour < 24) ∧
      (0 ≤ tm.tmMin ∧ tm.tmMin < 60) ∧ (0 ≤ tm.tmSec ∧ tm.tmSec < 60) ∧
      t / 86400 * 86400 + tm.tmHour * 3600 + tm.tmMin * 60 + tm.tmSec = t := by
  have hsmall : ∀ n : Nat, n < 60 → toInt n = n := fun n hn =>
    toInt_of_small (by omega) (by omega)
  simp only [gmtimeFill]
  rw [hsmall (days % 7) (by omega), hsmall (t % 60) (by omega), hsmall (t / 60 % 60) (by omega),
    hsmall (t / (60 * 60) % 24) (by omega)]
  omega

/-! ### Which dates come out right -/

/-- The mean length of a year gives a date its year exactly if the date is not before the place
where it puts the year and is before the one where it puts the next. -/
theorem mean_year_eq {date : Date} (hstart : 146097 * date.year / 400 + 1 = daysBefore date.year)
    (hstop : date.number ≤ 146097 * (date.year + 1) / 400) :
    400 * date.number / 146097 = date.year := by
  have hnumber : date.number = daysBefore date.year + date.yearday := rfl
  have hnext := date.number_lt
  -- at a multiple of 400 the place is one day late, so that the bound is not reached
  have hlate := daysBefore_eq (date.year + 1)
  have hhigh : 400 * date.number < 146097 * (date.year + 1) := by
    by_contra h
    omega
  omega

/-- **`gmtime_r` fills in the date and the time of day exactly for the dates that the mean length
of a year places right and that are not the first of a later month.** -/
theorem gmtime_r_right {bits t : Nat} (hbits : bits = 32 ∨ bits = 64) (hfits : Fits bits t) :
    (gmtimeR bits t).Shows t ↔ Placed (dateOf t) := by
  obtain ⟨days, hdays⟩ : ∃ days, days = t / 86400 + 719527 := ⟨_, rfl⟩
  have hnumber : (dateOf t).number = days + 1 := (dateOf_number t).trans (by omega)
  have hsplit : (dateOf t).number = daysBefore (dateOf t).year + (dateOf t).yearday := rfl
  have hfew : days < 2 ^ 31 ∧ 2 ^ 31 < 2 ^ bits := by
    have := hfits.years
    rcases hbits with rfl | rfl <;> omega
  constructor
  · intro hshows
    obtain ⟨year, hyear⟩ : ∃ year, 400 * (days + 1) / 146097 = year := ⟨_, rfl⟩
    rw [gmtimeR_eq hfits hdays hyear] at hshows
    have hsame : year = (dateOf t).year := by
      have h : (year : Int) - 1900 + 1900 = (dateOf t).year := hshows.year
      omega
    have hyday : (days : Int) - (146097 * year / 400 : Nat) = (dateOf t).yearday :=
      (toInt_toTime hbits (by omega) (by omega)).symm.trans (gmtimeFill_yday ▸ hshows.yearday)
    subst hsame
    refine ⟨by omega, by omega, fun hday => ?_⟩
    by_contra hmonth
    have h := hshows.month
    rw [hyday, toTime_of_lt rfl (by omega), gmtimeFill_month, if_pos ⟨hday, hmonth⟩] at h
    omega
  · intro hplaced
    have hstart := hplaced.start
    have hyear := mean_year_eq hstart hplaced.stop
    rw [hnumber] at hyear
    have hyday : toTime bits ((days : Int) - (146097 * (dateOf t).year / 400 : Nat)) =
        (dateOf t).yearday :=
      toTime_of_lt (by omega) (by omega)
    rw [gmtimeR_eq hfits hdays hyear, hyday]
    obtain ⟨hwday, hhour, hmin, hsec, hclock⟩ := gmtimeFill_clock hdays
    exact
      { year := sub_add_cancel _ _
        month := by rw [gmtimeFill_month, if_neg fun h => h.2 (hplaced.inside h.1)]
        monthday := gmtimeFill_mday hbits hplaced.inside
        yearday := by rw [gmtimeFill_yday, toInt_yearday]
        weekday := hwday
        hour := hhour
        minute := hmin
        second := hsec
        clock := hclock }

/-- The theorem at noon of the second day of the clock, a Friday. -/
theorem gmtime_r_right_second_day :
    (gmtimeR 32 129600).Shows 129600 ∧ gmtimeR 32 129600 = ⟨0, 0, 12, 2, 0, 70, 5, 1, 0⟩ := by
  refine ⟨(gmtime_r_right (.inl rfl) ⟨by decide, by decide, by decide⟩).2 ⟨?_, ?_, ?_⟩, by decide⟩
  · show 146097 * 1970 / 400 + 1 = daysBefore 1970
    have := daysBefore_eq 1970
    omega
  · rw [dateOf_number]
    show 129600 / 86400 + 719528 ≤ 146097 * (1970 + 1) / 400
    decide
  · intro _
    rfl

/-- **The first of February 1970 comes out as the 32nd of January**, and the first of January
1972 as the 32nd of December 1971. -/
theorem gmtime_r_first_of_february :
    ¬ (gmtimeR 32 2678400).Shows 2678400 ∧
      (gmtimeR 32 2678400).tmMon = 0 ∧ (gmtimeR 32 2678400).tmMday = 32 ∧
      (gmtimeR 32 63072000).tmYear = 71 ∧
      (gmtimeR 32 63072000).tmMon = 11 ∧ (gmtimeR 32 63072000).tmMday = 32 := by
  refine ⟨fun hshows => ?_, by decide, by decide, by decide, by decide, by decide⟩
  have hday := hshows.monthday
  have h32 : (gmtimeR 32 2678400).tmMday = 32 := by decide
  have hle := (dateOf 2678400).day_le.trans (monthLength_le _ _)
  omega

/-! ### The way back -/

theorem toTime_cast (x : Int) : (toTime bits x : Int) = x % 2 ^ bits :=
  Int.toNat_of_nonneg (Int.emod_nonneg x (Int.pow_ne_zero (by decide)))

theorem toTime_toTime_add (x y : Int) : toTime bits (toTime bits x + y) = toTime bits (x + y) := by
  rw [toTime, toTime_cast, Int.emod_add_emod, toTime]

theorem toTime_toTime_mul (x y : Int) : toTime bits (toTime bits x * y) = toTime bits (x * y) := by
  rw [toTime, toTime_cast, Int.mul_emod, Int.emod_emod, ← Int.mul_emod, toTime]

/-- **`mktime` without its conversions**: it is right up to the days that it counts. -/
theorem mktime_eq {tm : Tm} (hhour : 0 ≤ tm.tmHour ∧ tm.tmHour < 24)
    (hmin : 0 ≤ tm.tmMin ∧ tm.tmMin < 60)
    (hclock : t / 86400 * 86400 + tm.tmHour * 3600 + tm.tmMin * 60 + tm.tmSec = t) :
    mktime bits tm = toTime bits (t + (timeYears2days
      (if tm.tmYear > 1970 then tm.tmYear - 1970 else 0) + tm.tmYday - t / 86400) * 86400) := by
  have hhours : toInt (toInt (tm.tmHour * 60) * 60) = tm.tmHour * 3600 := by
    rw [toInt_of_small (x := tm.tmHour * 60) (by omega) (by omega),
      toInt_of_small (by omega) (by omega), Int.mul_assoc]
    rfl
  have hminutes : toInt (tm.tmMin * 60) = tm.tmMin * 60 := toInt_of_small (by omega) (by omega)
  simp only [mktime, toTime_toTime_add, toTime_toTime_mul, hhours, hminutes]
  congr 1
  omega

/-- A time that is less than 2²³ days off is right if it is not off at all. -/
theorem toTime_off {off : Int} (hbits : bits = 32 ∨ bits = 64) (ht : t < 2 ^ bits)
    (hoff : -2 ^ 23 < off ∧ off < 2 ^ 23) : toTime bits (t + off * 86400) = t ↔ off = 0 := by
  refine ⟨fun h => ?_, ?_⟩
  · have hdiv := Int.emod_add_mul_ediv ((t : Int) + off * 86400) (2 ^ bits)
    rw [← toTime_cast, h] at hdiv
    have hwide : (2 : Int) ^ 32 ∣ 2 ^ bits := by
      rcases hbits with rfl | rfl <;> decide
    obtain ⟨j, hj⟩ := Int.dvd_trans hwide (Int.dvd_mul_right _ _)
    rw [hj] at hdiv
    omega
  · rintro rfl
    exact toTime_of_lt (by omega) ht

/-- The days that `mktime` counts for the years before the one that `gmtime_r` has filled in. -/
theorem mktime_years (hyear : 146097 * year < 2 ^ 31) :
    timeYears2days (if (year : Int) - 1900 > 1970 then (year : Int) - 1900 - 1970 else 0) =
      (146097 * (year - 3870) / 400 : Nat) := by
  rw [← timeYears2days_eq (by omega)]
  congr 1
  split_ifs <;> omega

/-- By how many days the time comes back too late. -/
theorem mktime_days (hyear : 400 * (days + 1) / 146097 = year) (hyears : 146097 * year < 2 ^ 31)
    (hdays : days = t / 86400 + 719527) :
    let off : Int := (146097 * (year - 3870) / 400 : Nat) +
      (days - (146097 * year / 400 : Nat)) - t / 86400
    (-2 ^ 23 < off ∧ off < 2 ^ 23) ∧ (off = 0 ↔ t < 365 * 86400) := by
  have hlow : 146097 * year ≤ 400 * (days + 1) := by omega
  have hhigh : 400 * (days + 1) < 146097 * (year + 1) := by omega
  have hcast : (t : Int) / 86400 = (t / 86400 : Nat) := by omega
  generalize t / 86400 = day at *
  omega

/-- **`mktime` gives back the time that `gmtime_r` was given exactly in the first 365 days of the
clock.** -/
theorem mktime_gmtime_r {bits t : Nat} (hbits : bits = 32 ∨ bits = 64) (hfits : Fits bits t) :
    mktime bits (gmtimeR bits t) = t ↔ t < 365 * 86400 := by
  obtain ⟨days, hdays⟩ : ∃ days, days = t / 86400 + 719527 := ⟨_, rfl⟩
  obtain ⟨year, hyear⟩ : ∃ year, 400 * (days + 1) / 146097 = year := ⟨_, rfl⟩
  have hyears : 146097 * year < 2 ^ 31 := by
    rw [← hyear, hdays]
    exact hfits.years
  obtain ⟨-, hhour, hmin, -, hclock⟩ := @gmtimeFill_clock bits t days year
    (toTime bits ((days : Int) - (146097 * year / 400 : Nat))) hdays
  rw [gmtimeR_eq hfits hdays hyear, mktime_eq hhour hmin hclock, gmtimeFill_yday,
    toInt_toTime hbits (by omega) (by omega)]
  obtain ⟨hoff, hright⟩ := mktime_days hyear hyears hdays
  rw [← mktime_years hyears] at hoff hright
  exact (toTime_off hbits hfits.time hoff).trans hright

/-- The theorem at noon of the last day of 1970. -/
theorem mktime_gmtime_r_first_year : mktime 32 (gmtimeR 32 31492800) = 31492800 :=
  (mktime_gmtime_r (.inl rfl) ⟨by decide, by decide, by decide⟩).2 (by decide)

/-- **1971 comes back as 1970.** -/
theorem mktime_gmtime_r_second_year :
    Fits 32 31536000 ∧ (gmtimeR 32 31536000).tmYear = 71 ∧ mktime 32 (gmtimeR 32 31536000) = 0 :=
  ⟨⟨by decide, by decide, by decide⟩, by decide, by decide⟩

end KosKernel.Libc
