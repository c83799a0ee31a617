import C2Engine.Python.Number

/-!
# Dates and times

`datetime` values by the time their clock shows, the calendar date of that time, and
`datetime.fromtimestamp(t, tz=UTC)` with the range of years it accepts.

## Main definitions

* `Datetime`: a point of time on a clock, with the clock's offset from UTC if it is known.
* `civilDate`: the year, the month and the day of a day number.
* `Datetime.strftimeDate`: `strftime('%Y-%m-%d')`.
* `fromtimestampInt`, `fromtimestampFloat`: `datetime.fromtimestamp(t, tz=UTC)` of an `int` or a
  `float`.
-/

namespace C2Engine.Python

/-- A `datetime`: the time its clock shows, in microseconds from 1970-01-01T00:00:00 of that
clock, and the offset of the clock from UTC in microseconds, `none` for a naive one. -/
structure Datetime where
  wall : ℤ
  offset : Option ℤ
  deriving DecidableEq

/-- Microseconds in a second. -/
def usPerSecond : ℤ := 1000000

/-- Microseconds in a day. -/
def usPerDay : ℤ := 86400 * usPerSecond

/-- The date of a day number, counted from 1970-01-01, in the proleptic Gregorian calendar. The
years of the computation begin in March, so that a leap day ends one. -/
def civilDate (days : ℤ) : ℤ × ℤ × ℤ :=
  let z := days + 719468
  let era := z / 146097
  let doe := z % 146097
  let yoe := (doe - doe / 1460 + doe / 36524 - doe / 146096) / 365
  let doy := doe - (365 * yoe + yoe / 4 - yoe / 100)
  let mp := (5 * doy + 2) / 153
  let day := doy - (153 * mp + 2) / 5 + 1
  let month := if mp < 10 then mp + 3 else mp - 9
  (yoe + era * 400 + (if month ≤ 2 then 1 else 0), month, day)

/-- A number with at least two digits. -/
def twoDigits (n : ℕ) : PyStr := if n < 10 then cp '0' :: PyStr.ofNat n else PyStr.ofNat n

/-- `dt.strftime('%Y-%m-%d')`, on the clock of `dt`; the C library does not pad the year. -/
def Datetime.strftimeDate (dt : Datetime) : PyStr :=
  let (y, m, d) := civilDate (dt.wall / usPerDay)
  PyStr.ofNat y.toNat ++ str "-" ++ twoDigits m.toNat ++ str "-" ++ twoDigits d.toNat

/-- The first second of year 1. -/
def minSecond : ℤ := -62135596800

/-- The second after the last one of year 9999. -/
def endSecond : ℤ := 253402300800

/-- The time of a number of microseconds, if its year is one `datetime` has. -/
def ofMicroseconds (us : ℤ) : Except PyExc Datetime :=
  if minSecond * usPerSecond ≤ us ∧ us < endSecond * usPerSecond then .ok ⟨us, some 0⟩
  else .error .valueError

/-- `datetime.fromtimestamp(t, tz=UTC)` of an integer; a number that is no `time_t` overflows. -/
def fromtimestampInt (t : ℤ) : Except PyExc Datetime :=
  if -2 ^ 63 ≤ t ∧ t < 2 ^ 63 then ofMicroseconds (t * usPerSecond) else .error .overflowError

/-- `datetime.fromtimestamp(t, tz=UTC)` of a float, rounded to the microsecond. -/
def fromtimestampFloat : PyFloat → Except PyExc Datetime
  | .finite q =>
    let us := roundHalfEven (q * usPerSecond)
    if -2 ^ 63 ≤ us / usPerSecond ∧ us / usPerSecond < 2 ^ 63 then ofMicroseconds us
    else .error .overflowError
  | .inf _ => .error .overflowError
  | .nan => .error .valueError

example : (⟨1780660800 * usPerSecond, some 0⟩ : Datetime).strftimeDate = str "2026-06-05" := by
  decide

end C2Engine.Python
