/-
# AlphaFoundry.Calendar -- points in time as dates

Moments are milliseconds of the Gregorian calendar in UTC, extended to all years.  A year is counted
from March, so that a leap day is its last day: then the days before a month are a straight line,
rounded.
-/
import AlphaFoundry.Number.Binary
import AlphaFoundry.Text.Units

namespace AlphaFoundry

set_option autoImplicit false

/-- Moments lie within 100 million days of the start of 1970. -/
def momentLimit : Nat := 8640000000000000

/-- Milliseconds since the start of 1970. -/
structure Moment where
  ms : Int
  inRange : ms.natAbs ≤ momentLimit
deriving Repr, DecidableEq

namespace Moment

/-- A moment by its milliseconds, fractions dropped. -/
def ofFloat? (x : Float) : Option Moment :=
  (Number.Binary.ofFloat? x).bind fun b =>
    if h : b.whole.natAbs ≤ momentLimit then some ⟨b.whole, h⟩ else none

def epoch : Moment := ⟨0, by decide⟩

/-- Whole seconds since the start of 1970. -/
def seconds (t : Moment) : Int :=
  t.ms / 1000

/-- Whole days since the start of 1970. -/
def days (t : Moment) : Int :=
  t.seconds / 86400

/-- Seconds since the start of the day. -/
def secondOfDay (t : Moment) : Int :=
  t.seconds % 86400

end Moment

structure Date where
  year : Int
  month : Int
  day : Int
deriving Repr, DecidableEq

namespace Date

/-- Days from the first of March of the year 0 to the start of 1970. -/
def daysToEpoch : Int := 719468

/-- Days in 400 years. -/
def daysInCycle : Int := 146097

/-- The year, counted from March, of a day in a cycle of 400 years. -/
def yearOfCycle (day : Int) : Int :=
  (day - day / 1460 + day / 36524 - day / 146096) / 365

/-- Days before a year of a cycle. -/
def daysBefore (year : Int) : Int :=
  365 * year + year / 4 - year / 100

/-- Days before a month of a year, both counted from March. -/
def daysBeforeMonth (month : Int) : Int :=
  (153 * month + 2) / 5

/-- The date of a day, counted from the start of 1970. -/
def ofDays (days : Int) : Date :=
  let shifted := days + daysToEpoch
  let inCycle := shifted % daysInCycle
  let year := yearOfCycle inCycle
  let inYear := inCycle - daysBefore year
  let month := (5 * inYear + 2) / 153
  let calendarMonth := if month < 10 then month + 3 else month - 9
  { year := year + 400 * (shifted / daysInCycle) + if calendarMonth ≤ 2 then 1 else 0
    month := calendarMonth
    day := inYear - daysBeforeMonth month + 1 }

end Date

namespace Moment

/-- Two digits at least. -/
def two (n : Int) : String :=
  Text.padZeros 2 (toString n)

/-- Year, month and day without separators; the year has no padding. -/
def dateDigits (t : Moment) : String :=
  let d := Date.ofDays t.days
  toString d.year ++ two d.month ++ two d.day

/-- Hour, minute and second, with separators. -/
def clock (separator : String) (t : Moment) : String :=
  let s := t.secondOfDay
  separator.intercalate [two (s / 3600), two (s / 60 % 60), two (s % 60)]

/-- Date and time of day in the form of log lines. -/
def iso (t : Moment) : String :=
  let d := Date.ofDays t.days
  let year := toString d.year.natAbs
  let padded :=
    if 0 ≤ d.year ∧ d.year ≤ 9999 then Text.padZeros 4 year
    else (if d.year < 0 then "-" else "+") ++ Text.padZeros 6 year
  padded ++ "-" ++ two d.month ++ "-" ++ two d.day ++ "T" ++ t.clock ":" ++ "."
    ++ Text.padZeros 3 (toString (t.ms % 1000)) ++ "Z"

end Moment

end AlphaFoundry
