import EventStream.Instant
import EventStream.Instant.Date
import EventStream.Numeral

/-! Instants as RFC 3339 text in UTC: the shortest of no, three, six or nine digits of
fraction that is exact, and a leap second as second 60. -/

namespace EventStream.Instant

open Numeral (padded)

/-- Four digits; outside 0 to 9999 a sign and at least four digits. -/
def yearText (year : Int) : List Char :=
  if 0 ≤ year ∧ year ≤ 9999 then padded 4 year.toNat
  else (if year < 0 then '-' else '+') :: padded 4 year.natAbs

def dateText (date : Date) : List Char :=
  yearText date.year ++ '-' :: padded 2 date.month ++ '-' :: padded 2 date.day

def fractionText (nano : Nat) : List Char :=
  if nano = 0 then []
  else if nano % 1000000 = 0 then '.' :: padded 3 (nano / 1000000)
  else if nano % 1000 = 0 then '.' :: padded 6 (nano / 1000)
  else '.' :: padded 9 nano

/-- The time of the day that begins `second` seconds earlier. -/
def clockText (second nano : Nat) : List Char :=
  let leap := nano / 1000000000
  padded 2 (second / 3600) ++ ':' :: padded 2 (second / 60 % 60) ++ ':' ::
    padded 2 (second % 60 + leap) ++ fractionText (nano % 1000000000)

def rfc3339 (t : Instant) : String :=
  String.ofList (dateText (.ofDays (t.second / 86400)) ++ 'T' ::
    clockText (t.second % 86400).toNat t.nano ++ ['Z'])

end EventStream.Instant
