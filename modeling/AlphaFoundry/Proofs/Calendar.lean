/-
# AlphaFoundry.Proofs.Calendar -- the calendar goes forward day by day

The date of a day is found by divisions.  This module ties it to the rules of the Gregorian
calendar, the lengths of the months and the leap years: the start of 1970 is the first of January
(`ofDays_zero`), and the day after a day has the next date (`ofDays_succ`), in all years.  So dates,
read as numbers of the form year, month, day, grow with the days.

A date is placed by a year that begins in March and a day in it (`march`); a year then ends with
its leap day, and the days before it are a straight line but for the leap days passed (`before`).
-/
import Mathlib
import AlphaFoundry.Calendar

namespace AlphaFoundry

set_option autoImplicit false

namespace Date

/-! ## The rules of the calendar -/

/-- Every fourth year has a leap day; of the hundreds only every fourth. -/
def IsLeap (year : ℤ) : Prop :=
  4 ∣ year ∧ (¬100 ∣ year ∨ 400 ∣ year)

instance : DecidablePred IsLeap := fun year =>
  inferInstanceAs (Decidable (4 ∣ year ∧ (¬100 ∣ year ∨ 400 ∣ year)))

def daysInMonth (year month : ℤ) : ℤ :=
  if month = 2 then if IsLeap year then 29 else 28
  else if month ∈ [4, 6, 9, 11] then 30
  else 31

theorem daysInMonth_le (year month : ℤ) : daysInMonth year month ≤ 31 := by
  unfold daysInMonth
  split_ifs <;> decide

/-- A date that the calendar has. -/
structure Proper (d : Date) : Prop where
  month : 1 ≤ d.month ∧ d.month ≤ 12
  day : 1 ≤ d.day ∧ d.day ≤ daysInMonth d.year d.month

/-- The date of the day after. -/
def next (d : Date) : Date :=
  if d.day < daysInMonth d.year d.month then { d with day := d.day + 1 }
  else if d.month < 12 then ⟨d.year, d.month + 1, 1⟩
  else ⟨d.year + 1, 1, 1⟩

/-! ## Years that begin in March -/

/-- Days from the first of March of the year 0 to the first of March of a year. -/
def before (year : ℤ) : ℤ :=
  365 * year + year / 4 - year / 100 + year / 400

/-- The length of a year that begins in March: its leap day belongs to the next year. -/
def lengthFromMarch (year : ℤ) : ℤ :=
  if IsLeap (year + 1) then 366 else 365

/-- The month of the calendar, from one that is counted from March. -/
def calendarMonth (month : ℤ) : ℤ :=
  if month < 10 then month + 3 else month - 9

/-- January and February belong to the next year. -/
def calendarYear (year month : ℤ) : ℤ :=
  year + if calendarMonth month ≤ 2 then 1 else 0

/-- The date of a day of a year that begins in March. -/
def march (year inYear : ℤ) : Date :=
  let month := (5 * inYear + 2) / 153
  ⟨calendarYear year month, calendarMonth month, inYear - daysBeforeMonth month + 1⟩

theorem before_succ (year : ℤ) : before (year + 1) = before year + lengthFromMarch year := by
  unfold before lengthFromMarch
  split
  case isTrue leap =>
    obtain ⟨fourth, hundred⟩ := leap
    omega
  case isFalse common =>
    unfold IsLeap at common
    omega

theorem lengthFromMarch_bounds (year : ℤ) :
    365 ≤ lengthFromMarch year ∧ lengthFromMarch year ≤ 366 := by
  unfold lengthFromMarch
  split <;> decide

theorem before_strictMono : StrictMono before :=
  strictMono_int_of_lt_succ fun year => by
    have := lengthFromMarch_bounds year
    rw [before_succ]
    omega

/-- A day of a year that begins in March, counted from its first day. -/
structure Falls (days year inYear : ℤ) : Prop where
  days : days + daysToEpoch = before year + inYear
  start : 0 ≤ inYear
  inside : inYear < lengthFromMarch year

variable {n year year' inYear inYear' : ℤ}

theorem Falls.year_le (falls : Falls n year inYear) (other : Falls n year' inYear') :
    year ≤ year' := by
  by_contra later
  have earlier : before (year' + 1) ≤ before year := before_strictMono.monotone (by omega)
  have := falls.days
  have := falls.start
  have := other.days
  have := other.inside
  rw [before_succ] at earlier
  omega

/-- A day falls on one day of one year. -/
theorem Falls.unique (falls : Falls n year inYear) (other : Falls n year' inYear') :
    year = year' ∧ inYear = inYear' := by
  obtain rfl : year = year' := le_antisymm (falls.year_le other) (other.year_le falls)
  have := falls.days
  have := other.days
  exact ⟨rfl, by omega⟩

theorem Falls.succ (falls : Falls n year inYear) :
    if inYear + 1 < lengthFromMarch year then Falls (n + 1) year (inYear + 1)
    else Falls (n + 1) (year + 1) 0 := by
  have days := falls.days
  have start := falls.start
  have inside := falls.inside
  split
  · exact ⟨by omega, by omega, by omega⟩
  · have := lengthFromMarch_bounds (year + 1)
    refine ⟨?_, le_rfl, by omega⟩
    rw [before_succ]
    omega

/-! ## The year of a day -/

theorem yearOfCycle_le_succ (start : 0 ≤ n) (inside : n + 1 < daysInCycle) :
    yearOfCycle n ≤ yearOfCycle (n + 1) := by
  unfold daysInCycle at inside
  have le : n - n / 1460 + n / 36524 - n / 146096
      ≤ n + 1 - (n + 1) / 1460 + (n + 1) / 36524 - (n + 1) / 146096 := by
    by_cases last : n + 1 = 146096
    · obtain rfl : n = 146095 := by omega
      decide
    · omega
  unfold yearOfCycle
  omega

theorem yearOfCycle_mono {m : ℤ} (start : 0 ≤ m) (le : m ≤ n) (inside : n < daysInCycle) :
    yearOfCycle m ≤ yearOfCycle n := by
  induction n, le using Int.leInduction with
  | base => exact le_rfl
  | succ n le ih => exact (ih (by omega)).trans (yearOfCycle_le_succ (by omega) inside)

theorem yearOfCycle_table : ∀ year : Fin 400,
    yearOfCycle (before year.val) = year.val ∧
      yearOfCycle (before (year.val + 1) - 1) = year.val := by
  decide +kernel

/-- The first and the last day of a year of a cycle have its number. -/
theorem yearOfCycle_ends (year : ℤ) (start : 0 ≤ year) (inside : year < 400) :
    yearOfCycle (before year) = year ∧ yearOfCycle (before (year + 1) - 1) = year := by
  lift year to ℕ using start
  exact yearOfCycle_table ⟨year, by omega⟩

/-- A day of a cycle is a day of the year that is found for it. -/
theorem before_yearOfCycle_le (start : 0 ≤ n) (inside : n < daysInCycle) :
    before (yearOfCycle n) ≤ n ∧ n < before (yearOfCycle n + 1) := by
  have low : 0 ≤ yearOfCycle n := yearOfCycle_mono le_rfl start inside
  have high : yearOfCycle n ≤ 399 :=
    yearOfCycle_mono start (Int.le_sub_one_of_lt inside) (by decide)
  constructor
  · by_contra! early
    have positive : 0 < yearOfCycle n := before_strictMono.lt_iff_lt.1 (start.trans_lt early)
    have last := (yearOfCycle_ends (yearOfCycle n - 1) (by omega) (by omega)).2
    have inCycle : before (yearOfCycle n) ≤ before 399 := before_strictMono.monotone high
    have le := yearOfCycle_mono start (Int.le_sub_one_of_lt early)
      ((Int.sub_one_lt_of_le inCycle).trans (by decide))
    rw [sub_add_cancel] at last
    omega
  · by_contra! late
    have within : yearOfCycle n + 1 < 400 := before_strictMono.lt_iff_lt.1 (late.trans_lt inside)
    have first := (yearOfCycle_ends (yearOfCycle n + 1) (by omega) within).1
    have positive : before 0 ≤ before (yearOfCycle n + 1) :=
      before_strictMono.monotone (by omega)
    have le := yearOfCycle_mono positive late inside
    omega

theorem before_cycles (year cycles : ℤ) :
    before (year + 400 * cycles) = before year + daysInCycle * cycles := by
  unfold before daysInCycle
  omega

/-- The date of a day is that of the day of the year that it falls on. -/
theorem exists_falls (n : ℤ) :
    ∃ year inYear, Falls n year inYear ∧ ofDays n = march year inYear := by
  have start := Int.emod_nonneg (n + daysToEpoch) (show daysInCycle ≠ 0 by decide)
  have inside := Int.emod_lt_of_pos (n + daysToEpoch) (show 0 < daysInCycle by decide)
  have whole := Int.emod_add_mul_ediv (n + daysToEpoch) daysInCycle
  have low : 0 ≤ yearOfCycle _ := yearOfCycle_mono le_rfl start inside
  have high : yearOfCycle _ ≤ 399 :=
    yearOfCycle_mono start (Int.le_sub_one_of_lt inside) (by decide)
  obtain ⟨first, last⟩ := before_yearOfCycle_le start inside
  refine ⟨_, _, ?_, rfl⟩
  generalize (n + daysToEpoch) % daysInCycle = inCycle at *
  generalize (n + daysToEpoch) / daysInCycle = cycles at *
  generalize yearOfCycle inCycle = year at *
  have same : daysBefore year = before year := by
    unfold daysBefore before
    omega
  rw [same]
  refine ⟨?_, by omega, ?_⟩
  · rw [before_cycles]
    omega
  · have length := before_succ (year + 400 * cycles)
    rw [add_right_comm, before_cycles, before_cycles] at length
    omega

/-! ## From day to day -/

/-- The day of a year lies in a month, both counted from March. -/
structure InMonth (month inYear : ℤ) : Prop where
  low : 0 ≤ month
  high : month ≤ 11
  first : daysBeforeMonth month ≤ inYear
  last : inYear < daysBeforeMonth (month + 1)

variable {month : ℤ}

theorem exists_month (start : 0 ≤ inYear) (inside : inYear < lengthFromMarch year) :
    ∃ month, InMonth month inYear := by
  have := lengthFromMarch_bounds year
  refine ⟨(5 * inYear + 2) / 153, by omega, by omega, ?_, ?_⟩
  · unfold daysBeforeMonth
    omega
  · unfold daysBeforeMonth
    omega

theorem march_of_month (inMonth : InMonth month inYear) : march year inYear
    = ⟨calendarYear year month, calendarMonth month, inYear - daysBeforeMonth month + 1⟩ := by
  have first := inMonth.first
  have last := inMonth.last
  have found : (5 * inYear + 2) / 153 = month := by
    unfold daysBeforeMonth at first last
    omega
  unfold march
  rw [found]

/-- The rounded line gives the lengths of the months, but for February, which ends the year. -/
theorem daysInMonth_calendar (year : ℤ) (low : 0 ≤ month) (high : month ≤ 11) :
    daysInMonth (calendarYear year month) (calendarMonth month)
      = min (daysBeforeMonth (month + 1)) (lengthFromMarch year) - daysBeforeMonth month := by
  have := lengthFromMarch_bounds year
  obtain february | earlier := high.eq_or_lt
  · subst february
    show (if IsLeap (year + 1) then 29 else 28) = min 367 (lengthFromMarch year) - 337
    unfold lengthFromMarch
    split <;> rfl
  · have line : daysInMonth (calendarYear year month) (calendarMonth month)
        = daysBeforeMonth (month + 1) - daysBeforeMonth month := by
      interval_cases month <;> rfl
    have inside : daysBeforeMonth (month + 1) ≤ 365 := by
      unfold daysBeforeMonth
      omega
    rw [line, min_eq_left (by omega)]

theorem march_proper (start : 0 ≤ inYear) (inside : inYear < lengthFromMarch year) :
    (march year inYear).Proper := by
  obtain ⟨month, inMonth⟩ := exists_month start inside
  have ⟨low, high, first, last⟩ := inMonth
  have length := daysInMonth_calendar year low high
  rw [march_of_month inMonth]
  refine ⟨?_, ?_⟩
  · unfold calendarMonth
    dsimp only
    split <;> omega
  · dsimp only
    omega

theorem march_next (start : 0 ≤ inYear) (inside : inYear < lengthFromMarch year) :
    (march year inYear).next = if inYear + 1 < lengthFromMarch year then march year (inYear + 1)
      else march (year + 1) 0 := by
  obtain ⟨month, inMonth⟩ := exists_month start inside
  have ⟨low, high, first, last⟩ := inMonth
  have length := daysInMonth_calendar year low high
  have := lengthFromMarch_bounds year
  rw [march_of_month inMonth, next]
  dsimp only
  rw [length]
  split
  case isTrue within =>
    have same : InMonth month (inYear + 1) := ⟨low, high, by omega, by omega⟩
    rw [if_pos (by omega), march_of_month same, add_sub_right_comm]
  case isFalse ends =>
    by_cases more : inYear + 1 < lengthFromMarch year
    · have start : inYear + 1 = daysBeforeMonth (month + 1) := by omega
      have following : InMonth (month + 1) (inYear + 1) := by
        unfold daysBeforeMonth at start
        refine ⟨by omega, by omega, by unfold daysBeforeMonth; omega, ?_⟩
        unfold daysBeforeMonth
        omega
      rw [if_pos more, march_of_month following, start, sub_self]
      have within : month ≤ 10 := Int.le_of_lt_add_one (Int.lt_of_add_one_le following.high)
      interval_cases month <;> simp [calendarMonth, calendarYear]
    · have february : month = 11 := by
        by_contra other
        have : daysBeforeMonth (month + 1) ≤ daysBeforeMonth 11 := by
          unfold daysBeforeMonth
          omega
        have : daysBeforeMonth 11 = 337 := rfl
        omega
      have march : InMonth 0 0 := ⟨le_rfl, by decide, by decide, by decide⟩
      rw [if_neg more, march_of_month march, february]
      simp [calendarMonth, calendarYear, daysBeforeMonth]

theorem ofDays_zero : ofDays 0 = ⟨1970, 1, 1⟩ := by
  decide

/-- The day after a day has the next date. -/
theorem ofDays_succ (n : ℤ) : ofDays (n + 1) = (ofDays n).next := by
  obtain ⟨year, inYear, falls, date⟩ := exists_falls n
  obtain ⟨year', inYear', falls', date'⟩ := exists_falls (n + 1)
  rw [date, date', march_next falls.start falls.inside]
  have after := falls.succ
  split at after
  case isTrue within =>
    obtain ⟨rfl, rfl⟩ := falls'.unique after
    rw [if_pos within]
  case isFalse last =>
    obtain ⟨rfl, rfl⟩ := falls'.unique after
    rw [if_neg last]

theorem ofDays_proper (n : ℤ) : (ofDays n).Proper := by
  obtain ⟨year, inYear, falls, date⟩ := exists_falls n
  rw [date]
  exact march_proper falls.start falls.inside

/-! ## Dates as numbers -/

/-- A date as the number that its digits make up, as in 20240229. -/
def number (d : Date) : ℤ :=
  10000 * d.year + 100 * d.month + d.day

theorem Proper.number_lt_next {d : Date} (proper : d.Proper) : d.number < d.next.number := by
  obtain ⟨⟨-, december⟩, -, last⟩ := proper
  have month := daysInMonth_le d.year d.month
  unfold next
  split_ifs <;> simp only [number] <;> omega

/-- Dates, read as numbers, grow with the days. -/
theorem number_strictMono : StrictMono fun n => (ofDays n).number :=
  strictMono_int_of_lt_succ fun n => by
    rw [ofDays_succ]
    exact (ofDays_proper n).number_lt_next

end Date

end AlphaFoundry
