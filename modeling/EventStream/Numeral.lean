/-! Numbers as text: decimal digits padded to a width, signed and unsigned decimals,
and single hexadecimal digits. -/

namespace EventStream.Numeral

/-- The decimal digits of `n`, filled up with zeros on the left to `width`. -/
def padded (width n : Nat) : List Char :=
  let digits := Nat.toDigits 10 n
  List.replicate (width - digits.length) '0' ++ digits

/-- The value of a nonempty run of decimal digits. -/
def decimal? (cs : List Char) : Option Nat :=
  if cs ≠ [] ∧ cs.all Char.isDigit then some (Nat.ofDigitChars 10 cs 0) else none

/-- Decimal digits after an optional plus sign. -/
def unsigned? : List Char → Option Nat
  | '+' :: cs => decimal? cs
  | cs => decimal? cs

/-- Decimal digits after an optional sign. -/
def signed? : List Char → Option Int
  | '-' :: cs => (decimal? cs).map fun n => -(n : Int)
  | cs => (unsigned? cs).map fun n => (n : Int)

/-- The value of a hexadecimal digit of either case. -/
def hexValue? (c : Char) : Option (Fin 16) :=
  match c with
  | '0' => some 0 | '1' => some 1 | '2' => some 2 | '3' => some 3
  | '4' => some 4 | '5' => some 5 | '6' => some 6 | '7' => some 7
  | '8' => some 8 | '9' => some 9
  | 'a' | 'A' => some 10 | 'b' | 'B' => some 11 | 'c' | 'C' => some 12
  | 'd' | 'D' => some 13 | 'e' | 'E' => some 14 | 'f' | 'F' => some 15
  | _ => none

/-- The lowest four bits. -/
def nibble (n : Nat) : Fin 16 := Fin.ofNat 16 n

/-- The lower-case hexadecimal digit of a value. -/
def hexChar (d : Fin 16) : Char := Nat.digitChar d

theorem hexValue?_hexChar (d : Fin 16) : hexValue? (hexChar d) = some d := by
  revert d; decide

/-- The value of hexadecimal digits read from the left, onto `start`. -/
def hexFold (start : Nat) (ds : List (Fin 16)) : Nat :=
  ds.foldl (fun n d => 16 * n + d.val) start

end EventStream.Numeral
