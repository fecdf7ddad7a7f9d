import EventStream.Instant.Date
import EventStream.Toml.Text

/-! TOML's numbers, and its dates and times. -/

namespace EventStream.Toml

open Numeral (hexValue? decimal?)

/-! ### Numbers -/

/-- An underscore must stand between two digits. -/
def wellSpaced : List Char → Bool
  | [] => false
  | [c] => c ≠ '_'
  | c :: '_' :: rest => c ≠ '_' && wellSpaced rest
  | c :: rest => c ≠ '_' && wellSpaced rest

/-- A nonempty run of digits of the base. -/
def digits? (base : Nat) (s : List Char) : Option (List Char × List Char) :=
  let run := s.takeWhile fun c => c = '_' || (hexValue? c).any (·.val < base)
  if wellSpaced run then some (run.filter (· ≠ '_'), s.drop run.length) else none

def valueOf (base : Nat) (digits : List Char) : Nat :=
  (digits.filterMap hexValue?).foldl (fun n d => base * n + d.val) 0

/-- Integers have 64 bits. -/
def integer? (n : Int) : Option Node :=
  if -Int.pow 2 63 ≤ n ∧ n < Int.pow 2 63 then some (.integer n) else none

def radix? (base : Nat) (s : List Char) : Option (Node × List Char) := do
  let (digits, s) ← digits? base s
  return (← integer? (valueOf base digits), s)

/-- Whether a sign stands there that is a minus, and what follows the sign, if any. -/
def sign : List Char → Bool × List Char
  | '-' :: s => (true, s)
  | '+' :: s => (false, s)
  | s => (false, s)

/-- Whether the nearest double is infinite. -/
def overflows (whole fraction : List Char) (exponent : Int) : Bool :=
  let n := valueOf 10 (whole ++ fraction)
  let power := exponent - fraction.length
  let size := (Nat.toDigits 10 n).length + power
  let bound := Nat.pow 2 1024 - Nat.pow 2 970
  n != 0 && decide (308 < size) &&
    (decide (309 < size) ||
      decide (bound * Nat.pow 10 (-power).toNat ≤ n * Nat.pow 10 power.toNat))

/-- The power of ten after an `e`. -/
def exponent? (s : List Char) : Option (Int × List Char) := do
  let (negative, s) := sign s
  let (digits, s) ← digits? 10 s
  let n := valueOf 10 digits
  return (if negative then -(n : Int) else n, s)

/-- A decimal number, which is no integer if it has a point or a power of ten. Only the
number zero starts with a zero. -/
def number? (s : List Char) : Option (Node × List Char) := do
  let (negative, s) := sign s
  match s with
  | 'i' :: 'n' :: 'f' :: s => return (.float, s)
  | 'n' :: 'a' :: 'n' :: s => return (.float, s)
  | s =>
    let (whole, s) ← digits? 10 s
    if whole.head? = some '0' ∧ whole ≠ ['0'] then none
    else
      let (fraction, s) ← match s with
        | '.' :: s => (digits? 10 s)
        | s => some ([], s)
      let (exponent, s) ← match s with
        | 'e' :: s => (exponent? s).map fun (n, s) => (some n, s)
        | 'E' :: s => (exponent? s).map fun (n, s) => (some n, s)
        | s => some (none, s)
      if fraction = [] ∧ exponent = none then
        let n := valueOf 10 whole
        return (← integer? (if negative then -(n : Int) else n), s)
      else if !negative && overflows whole fraction (exponent.getD 0) then none
      else return (.float, s)

/-! ### Dates and times -/

/-- A number of exactly so many digits. -/
def fixed? (width : Nat) (s : List Char) : Option (Nat × List Char) := do
  let n ← decimal? (s.take width)
  if width ≤ s.length then some (n, s.drop width) else none

def after? (c : Char) : List Char → Option (List Char)
  | d :: rest => if d = c then some rest else none
  | [] => none

/-- A date exists if its day has a number that leads back to it. -/
def date? (s : List Char) : Option (List Char) := do
  let (year, s) ← fixed? 4 s
  let (month, s) ← fixed? 2 (← after? '-' s)
  let (day, s) ← fixed? 2 (← after? '-' s)
  let date : Date := ⟨year, month, day⟩
  if .ofDays date.toDays = date then some s else none

/-- Hours and minutes of a day. -/
def hourMinute? (s : List Char) : Option (List Char) := do
  let (hour, s) ← fixed? 2 s
  let (minute, s) ← fixed? 2 (← after? ':' s)
  if hour < 24 ∧ minute < 60 then some s else none

/-- A time of day, to the leap second, with any number of digits of fraction. -/
def time? (s : List Char) : Option (List Char) := do
  let s ← hourMinute? s
  let (second, s) ← fixed? 2 (← after? ':' s)
  if 60 < second then none
  else
    match s with
    | '.' :: d :: rest => if d.isDigit then some (rest.dropWhile Char.isDigit) else some s
    | s => some s

/-- The distance from UTC, if one stands there. -/
def offset (s : List Char) : List Char :=
  match s with
  | 'Z' :: rest => rest
  | 'z' :: rest => rest
  | '+' :: rest => (hourMinute? rest).getD s
  | '-' :: rest => (hourMinute? rest).getD s
  | _ => s

/-- A date, a time, or a date and a time with or without an offset. -/
def moment? (s : List Char) : Option (List Char) :=
  match date? s with
  | none => time? s
  | some (c :: rest) =>
    if c = 'T' ∨ c = 't' ∨ c = ' ' then ((time? rest).map offset).getD (c :: rest)
    else some (c :: rest)
  | some [] => some []

end EventStream.Toml
