/-!
# Instants

A moment in universal time, to the nanosecond. The calendar date is
computed in the proleptic Gregorian calendar, whose years number on
through zero into negative ones.

A leap second is kept as the second before it with a billion nanoseconds
or more, and is shown as second 60.
-/

namespace KindQuery

/-- A moment: seconds since the start of 1970 and nanoseconds within the
second. -/
structure Instant where
  seconds : Int
  nanos : Nat
deriving DecidableEq, Repr, Inhabited

/-- A date of the calendar. -/
structure Date where
  year : Int
  month : Nat
  day : Nat
deriving DecidableEq, Repr

namespace Date

/-- The date that lies `days` after the first of January 1970. Years are
counted from March, so that a leap day is the last of its year; four
hundred of them have 146097 days. -/
def ofDays (days : Int) : Date :=
  let shifted := days + 719468
  let era := shifted.fdiv 146097
  let dayOfEra := (shifted.fmod 146097).toNat
  let yearOfEra := (dayOfEra - dayOfEra / 1460 + dayOfEra / 36524 - dayOfEra / 146096) / 365
  let dayOfYear := dayOfEra - (365 * yearOfEra + yearOfEra / 4 - yearOfEra / 100)
  let fromMarch := (5 * dayOfYear + 2) / 153
  let month := if fromMarch < 10 then fromMarch + 3 else fromMarch - 9
  ⟨yearOfEra + era * 400 + (if month ≤ 2 then 1 else 0), month,
    dayOfYear - (153 * fromMarch + 2) / 5 + 1⟩

end Date

namespace Instant

/-- The start of 1970. -/
def epoch : Instant := ⟨0, 0⟩

/-- The earliest and the latest year that an instant computed from
milliseconds may lie in. -/
def yearRange : Int × Int := (-262143, 262142)

/-- The date of an instant. -/
def date (t : Instant) : Date := Date.ofDays (t.seconds.fdiv 86400)

/-- The moment `millis` milliseconds after the start of 1970, if its year
is within range. -/
def ofMillis? (millis : Int) : Option Instant :=
  let t : Instant := ⟨millis.fdiv 1000, (millis.fmod 1000).toNat * 1000000⟩
  if yearRange.1 ≤ t.date.year ∧ t.date.year ≤ yearRange.2 then some t else none

/-! ## Text -/

/-- A number with leading zeros up to a width. -/
def padded (width n : Nat) : String :=
  let digits := Nat.toDigits 10 n
  String.ofList (List.replicate (width - digits.length) '0' ++ digits)

/-- A year has four digits; outside of 0 to 9999 it has a sign as well. -/
def yearText (year : Int) : String :=
  if year < 0 then "-" ++ padded 4 year.natAbs
  else if year ≤ 9999 then padded 4 year.natAbs
  else "+" ++ padded 4 year.natAbs

/-- Date and time of day to the second. -/
def secondsText (t : Instant) : String :=
  let d := t.date
  let s := (t.seconds.fmod 86400).toNat
  yearText d.year ++ "-" ++ padded 2 d.month ++ "-" ++ padded 2 d.day ++ "T" ++
    padded 2 (s / 3600) ++ ":" ++ padded 2 (s / 60 % 60) ++ ":" ++
    padded 2 (s % 60 + t.nanos / 1000000000)

/-- The places of the second in groups of three, as many as are needed. -/
def fractionText (nanos : Nat) : String :=
  if nanos = 0 then ""
  else if nanos % 1000000 = 0 then "." ++ padded 3 (nanos / 1000000)
  else if nanos % 1000 = 0 then "." ++ padded 6 (nanos / 1000)
  else "." ++ padded 9 nanos

/-- An instant as display text, to the second. -/
def displayText (t : Instant) : String := t.secondsText ++ "Z"

/-- An instant with the fraction of its second. -/
def fullText (t : Instant) : String :=
  t.secondsText ++ fractionText (t.nanos % 1000000000) ++ "Z"

example : fullText ⟨1459515909, 123000000⟩ = "2016-04-01T13:05:09.123Z" := by decide
example : displayText ⟨-62167219201, 0⟩ = "-0001-12-31T23:59:59Z" := by decide
example : ofMillis? 1577934245000 = some ⟨1577934245, 0⟩ := by decide

end Instant

end KindQuery
