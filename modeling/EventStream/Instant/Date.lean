/-! Dates of the proleptic Gregorian calendar and their day numbers. The year is taken
to begin in March, so a leap day is the last day of its year, and 400 years (146097 days)
make an era. -/

namespace EventStream

/-- Day 0 is 1970-01-01. The year before year 1 is year 0. -/
structure Date where
  year : Int
  month : Nat
  day : Nat
  deriving DecidableEq, Repr

namespace Date

/-- The year of an era (from 0) that holds the era's day `d`. -/
def yearOfEra (d : Nat) : Nat := (d - d / 1460 + d / 36524 - d / 146096) / 365

/-- The number of days in an era before its year `y` begins. -/
def daysBefore (y : Nat) : Nat := 365 * y + y / 4 - y / 100

def ofDays (days : Int) : Date :=
  let shifted := days + 719468
  let dayOfEra := (shifted % 146097).toNat
  let year := yearOfEra dayOfEra
  let dayOfYear := dayOfEra - daysBefore year
  let month := (5 * dayOfYear + 2) / 153
  { year := shifted / 146097 * 400 + year + if month < 10 then 0 else 1
    month := if month < 10 then month + 3 else month - 9
    day := dayOfYear - (153 * month + 2) / 5 + 1 }

def toDays (date : Date) : Int :=
  let year := if date.month ≤ 2 then date.year - 1 else date.year
  let month := if date.month ≤ 2 then date.month + 9 else date.month - 3
  let dayOfYear := (153 * month + 2) / 5 + date.day - 1
  year / 400 * 146097 + daysBefore (year % 400).toNat + dayOfYear - 719468

end Date

end EventStream
