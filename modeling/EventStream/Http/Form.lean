import EventStream.Numeral

/-! Query strings in form encoding: pairs between ampersands, a plus for a blank, and any
byte as a percent sign and two hexadecimal digits. -/

namespace EventStream.Http.Form

open Numeral (hexValue? hexFold)

/-- The pieces of `s` between the characters `sep`. -/
def split (sep : Char) : List Char → List (List Char)
  | [] => [[]]
  | c :: cs =>
    if c = sep then [] :: split sep cs
    else
      match split sep cs with
      | [] => [[c]]
      | piece :: pieces => (c :: piece) :: pieces

/-- The bytes that `s` stands for; a percent sign without two digits is itself. -/
def bytes : List Char → List UInt8
  | [] => []
  | '%' :: a :: b :: rest =>
    match hexValue? a, hexValue? b with
    | some x, some y => .ofNat (hexFold 0 [x, y]) :: bytes rest
    | _, _ => 37 :: bytes (a :: b :: rest)
  | '+' :: rest => 32 :: bytes rest
  | c :: rest => (String.singleton c).toUTF8.toList ++ bytes rest

/-- The text that `s` stands for, if its bytes are UTF-8. -/
def decode? (s : List Char) : Option String :=
  String.fromUTF8? ⟨(bytes s).toArray⟩

/-- The names and values of a query string; a piece without an equals sign is a name with
an empty value. -/
def pairs (query : List Char) : List (Option String × Option String) :=
  ((split '&' query).filter (· ≠ [])).map fun piece =>
    (decode? (piece.takeWhile (· ≠ '=')), decode? ((piece.dropWhile (· ≠ '=')).drop 1))

/-- The value of a 64-bit integer that is given at most once. -/
def integer? (name : String) (pairs : List (Option String × Option String)) :
    Option (Option Int) :=
  match pairs.filter (·.1 = some name) with
  | [] => some none
  | [(_, value)] => do
    let n ← Numeral.signed? (← value).toList
    if -Int.pow 2 63 ≤ n ∧ n < Int.pow 2 63 then return some n else none
  | _ => none

end EventStream.Http.Form
