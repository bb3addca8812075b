import Mathlib.Algebra.Order.Ring.Int

/-!
# Calendar time

`gmtime_r` and `mktime` of `libs/libc/time`, with `CONFIG_GREGORIAN_TIME` and without it, in both
cases without `CONFIG_JULIAN_TIME`. `int` and `long` values are integers, divided as C divides
them; a `time_t` is reduced modulo `2 ^ 32`.
-/

namespace NuttxRtos.Calendar

/-- `CONFIG_GREGORIAN_TIME`, or the simplified code. -/
inductive Build where
  | gregorian
  | simple
  deriving DecidableEq

structure Tm where
  year : ℤ
  mon : ℤ
  mday : ℤ
  hour : ℤ
  min : ℤ
  sec : ℤ
  wday : ℤ
  yday : ℤ
  isdst : ℤ

/-- A calendar date, with months from 1 to 12. -/
structure Date where
  year : ℤ
  month : ℤ
  day : ℤ
  deriving DecidableEq

/-- The conversion to `time_t`, a `uint32_t`. -/
def toTime (x : ℤ) : ℤ := x % 2 ^ 32

def jdOfEpoch : ℤ := 2440588

def clockIsleapyear (year : ℤ) : Bool :=
  if year.tmod 400 ≠ 0 then (if year.tmod 100 ≠ 0 then year.tmod 4 = 0 else false) else true

def daysbeforemonthTable : List ℤ := [0, 31, 59, 90, 120, 151, 181, 212, 243, 273, 304, 334, 365]

def clockDaysbeforemonth (month : ℤ) (leapyear : Bool) : ℤ :=
  let retval := daysbeforemonthTable.getD month.toNat 0
  if 2 ≤ month ∧ leapyear = true then retval + 1 else retval

def clockDayoftheweek (mday month year : ℤ) : ℤ :=
  let (month, year) := if month ≤ 2 then (month + 12, year - 1) else (month, year)
  let month := month - 2
  (mday + year + year.tdiv 4 - year.tdiv 100 + year.tdiv 400 + (31 * month).tdiv 12).tmod 7

/-! ## From days to a date -/

def clockUtc2gregorian (jd : ℤ) : Date :=
  let l := jd + 68569
  let n := (4 * l).tdiv 146097
  let l := l - (146097 * n + 3).tdiv 4
  let i := (4000 * (l + 1)).tdiv 1461001
  let l := l - (1461 * i).tdiv 4 + 31
  let j := (80 * l).tdiv 2447
  let d := l - (2447 * j).tdiv 80
  let l := j.tdiv 11
  ⟨100 * (n - 49) + i + l, j + 2 - 12 * l, d⟩

def yearLoop : ℕ → ℤ → ℤ → Option (ℤ × ℤ)
  | 0, _, _ => none
  | fuel + 1, value, days =>
    let tmp := if clockIsleapyear (value + 1970) then 366 else 365
    if tmp ≤ days then yearLoop fuel (value + 1) (days - tmp) else some (value, days)

def monthLoop : ℕ → ℤ → ℤ → ℤ → Bool → Option ℤ
  | 0, _, _, _, _ => none
  | fuel + 1, min, max, days, leapyear =>
    let value := (min + max) / 2
    if days < clockDaysbeforemonth (value + 1) leapyear then
      if days < clockDaysbeforemonth value leapyear then
        if min < value - 1 then monthLoop fuel min (value - 1) days leapyear else some min
      else some value
    else if value + 1 < max then monthLoop fuel (value + 1) max days leapyear
    else some (value + 1)

/-- The simplified `clock_utc2calendar`. Fewer than 1461 days are left of the four-year periods, so
five passes of the first loop are enough, and the second one halves 12 months. -/
def clockUtc2calendarSimple (days : ℤ) : Option Date := do
  let value := days.tdiv (4 * 365 + 1)
  let (value, days) ← yearLoop 5 (value * 4) (days - value * (4 * 365 + 1))
  let leapyear := clockIsleapyear (value + 1970)
  let month ← monthLoop 5 0 11 days leapyear
  return ⟨1970 + value, month + 1, days - clockDaysbeforemonth month leapyear + 1⟩

def clockUtc2calendar : Build → ℤ → Option Date
  | .gregorian, utc => some (clockUtc2gregorian (toTime (utc + jdOfEpoch)))
  | .simple, days => clockUtc2calendarSimple days

def gmtimeR (build : Build) (timer : ℤ) : Option Tm := do
  let jdn := timer / 86400
  let epoch := timer - 86400 * jdn
  let hour := epoch / 3600
  let epoch := epoch - 3600 * hour
  let min := epoch / 60
  let sec := epoch - 60 * min
  let date ← clockUtc2calendar build jdn
  return {
    year := date.year - 1900
    mon := date.month - 1
    mday := date.day
    hour := hour
    min := min
    sec := sec
    wday := clockDayoftheweek date.day date.month date.year
    yday := date.day + clockDaysbeforemonth (date.month - 1) (clockIsleapyear date.year)
    isdst := 0 }

/-! ## From a date to days -/

def clockGregorian2utc (year month day : ℤ) : ℤ :=
  let temp := if month ≤ 2 then -1 else 0
  toTime ((1461 * (year + 4800 + temp)).tdiv 4 + (367 * (month - 2 - 12 * temp)).tdiv 12 -
    (3 * (year + 4900 + temp).tdiv 100).tdiv 4 + day - 32075)

/-- `clock_calendar2utc` of a Gregorian build, with months from 1 to 12. -/
def clockCalendar2utcGregorian (year month day : ℤ) : ℤ :=
  let dyear := (month - 1).tdiv 12
  let month := month - 12 * dyear
  let year := year + dyear
  if month < 1 then toTime (clockGregorian2utc (year - 1) (month + 12) day - jdOfEpoch)
  else toTime (clockGregorian2utc year month day - jdOfEpoch)

/-- The simplified `clock_calendar2utc`, with months from 0 to 11. -/
def clockCalendar2utcSimple (year month day : ℤ) : ℤ :=
  let days := toTime ((year - 1970) * 365)
  let days := toTime (days + (year - 1969) / 4)
  let days := toTime (days + clockDaysbeforemonth month (clockIsleapyear year))
  toTime (days + (day - 1))

def clockCalendar2utc : Build → ℤ → ℤ → ℤ → ℤ
  | .gregorian => clockCalendar2utcGregorian
  | .simple => clockCalendar2utcSimple

def mktime (build : Build) (tp : Tm) : ℤ :=
  let jdn := clockCalendar2utc build (tp.year + 1900) tp.mon tp.mday
  toTime (((jdn * 24 + tp.hour) * 60 + tp.min) * 60 + tp.sec)

end NuttxRtos.Calendar
