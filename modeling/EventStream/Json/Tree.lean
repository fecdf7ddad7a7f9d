import EventStream.Numeral

/-! JSON documents as written. A tree keeps the digits of numbers and the escapes of
strings, and leaves out the blanks between tokens. -/

namespace EventStream.Json

/-- A character of a string: one that is written as itself or by a two-character escape,
or one UTF-16 unit written in four hexadecimal digits. -/
inductive Piece where
  | char (c : Char)
  | unit (value : Nat)
  deriving DecidableEq, Repr

/-- A number: the digits before and after the point, and the power of ten, if one is
written. -/
structure Number where
  negative : Bool
  whole : List Char
  fraction : List Char
  exponent : Option Int
  deriving DecidableEq, Repr

inductive Tree where
  | null
  | bool (value : Bool)
  | number (value : Number)
  | string (pieces : List Piece)
  | array (items : List Tree)
  | object (members : List (List Piece × Tree))
  deriving Inhabited, Repr

end EventStream.Json
