import EventStream.Json.Tree

/-! A reader for RFC 8259 JSON. Each function takes its part off the front of the text
and returns what is left. -/

namespace EventStream.Json

open Numeral (hexValue? hexFold)

def isBlank (c : Char) : Bool := c = ' ' || c = '\t' || c = '\n' || c = '\r'

def skipBlanks (s : List Char) : List Char := s.dropWhile isBlank

/-- What a two-character escape stands for. -/
def escaped? : Char → Option Char
  | '"' => some '"'
  | '\\' => some '\\'
  | '/' => some '/'
  | 'b' => some '\x08'
  | 'f' => some '\x0c'
  | 'n' => some '\n'
  | 'r' => some '\r'
  | 't' => some '\t'
  | _ => none

def unit? (a b c d : Char) : Option Nat := do
  return hexFold 0 [← hexValue? a, ← hexValue? b, ← hexValue? c, ← hexValue? d]

/-- The rest of a string whose opening quote has been taken. Control characters must be
escaped. -/
def quoted? : List Char → Option (List Piece × List Char)
  | '"' :: rest => some ([], rest)
  | '\\' :: 'u' :: a :: b :: c :: d :: rest => do
    let u ← unit? a b c d
    let (pieces, rest) ← quoted? rest
    return (.unit u :: pieces, rest)
  | '\\' :: e :: rest => do
    let c ← escaped? e
    let (pieces, rest) ← quoted? rest
    return (.char c :: pieces, rest)
  | c :: rest =>
    if c = '\\' ∨ c.toNat < 32 then none
    else do
      let (pieces, rest) ← quoted? rest
      return (.char c :: pieces, rest)
  | [] => none

/-- A nonempty run of digits. -/
def digits? (s : List Char) : Option (List Char × List Char) :=
  if s.takeWhile Char.isDigit = [] then none
  else some (s.takeWhile Char.isDigit, s.dropWhile Char.isDigit)

/-- A zero that stands alone, or digits that start with another. -/
def whole? : List Char → Option (List Char × List Char)
  | '0' :: rest => some (['0'], rest)
  | s => digits? s

def fraction? : List Char → Option (List Char × List Char)
  | '.' :: rest => digits? rest
  | s => some ([], s)

def power? (s : List Char) : Option (Int × List Char) :=
  let value (ds : List Char) : Int := Nat.ofDigitChars 10 ds 0
  match s with
  | '-' :: rest => (digits? rest).map fun (ds, rest) => (-value ds, rest)
  | '+' :: rest => (digits? rest).map fun (ds, rest) => (value ds, rest)
  | _ => (digits? s).map fun (ds, rest) => (value ds, rest)

def exponent? : List Char → Option (Option Int × List Char)
  | 'e' :: rest => (power? rest).map fun (n, rest) => (some n, rest)
  | 'E' :: rest => (power? rest).map fun (n, rest) => (some n, rest)
  | s => some (none, s)

def magnitude? (negative : Bool) (s : List Char) : Option (Number × List Char) := do
  let (whole, s) ← whole? s
  let (fraction, s) ← fraction? s
  let (exponent, s) ← exponent? s
  return ({ negative, whole, fraction, exponent }, s)

def number? : List Char → Option (Number × List Char)
  | '-' :: rest => magnitude? true rest
  | s => magnitude? false s

mutual

/-- The value at the very front of the text. Two units of fuel per character suffice. -/
def value? : Nat → List Char → Option (Tree × List Char)
  | 0, _ => none
  | fuel + 1, s =>
    match s with
    | 'n' :: 'u' :: 'l' :: 'l' :: rest => some (.null, rest)
    | 't' :: 'r' :: 'u' :: 'e' :: rest => some (.bool true, rest)
    | 'f' :: 'a' :: 'l' :: 's' :: 'e' :: rest => some (.bool false, rest)
    | '"' :: rest => (quoted? rest).map fun (pieces, rest) => (.string pieces, rest)
    | '[' :: rest =>
      match skipBlanks rest with
      | ']' :: rest => some (.array [], rest)
      | s => (items? fuel s).map fun (items, rest) => (.array items, rest)
    | '{' :: rest =>
      match skipBlanks rest with
      | '}' :: rest => some (.object [], rest)
      | s => (members? fuel s).map fun (members, rest) => (.object members, rest)
    | s => (number? s).map fun (n, rest) => (.number n, rest)

/-- The items of an array from one item on, with the closing bracket. -/
def items? : Nat → List Char → Option (List Tree × List Char)
  | 0, _ => none
  | fuel + 1, s => do
    let (item, s) ← value? fuel s
    match skipBlanks s with
    | ',' :: rest =>
      let (items, rest) ← items? fuel (skipBlanks rest)
      return (item :: items, rest)
    | ']' :: rest => return ([item], rest)
    | _ => none

/-- The members of an object from one member on, with the closing brace. -/
def members? : Nat → List Char → Option (List (List Piece × Tree) × List Char)
  | 0, _ => none
  | fuel + 1, s => do
    let '"' :: s := s | none
    let (key, s) ← quoted? s
    let ':' :: s := skipBlanks s | none
    let (item, s) ← value? fuel (skipBlanks s)
    match skipBlanks s with
    | ',' :: rest =>
      let (members, rest) ← members? fuel (skipBlanks rest)
      return ((key, item) :: members, rest)
    | '}' :: rest => return ([(key, item)], rest)
    | _ => none

end

/-- The value at the front of the text, after blanks. -/
def read? (s : List Char) : Option (Tree × List Char) :=
  let s := skipBlanks s
  value? (2 * s.length + 2) s

/-- The tree of a text that is one value and otherwise blank. -/
def document? (s : List Char) : Option Tree := do
  let (tree, rest) ← read? s
  if skipBlanks rest = [] then return tree else none

/-- The text of the one value in `s`, without the blanks around it. -/
def verbatim? (s : List Char) : Option (List Char) := do
  let (_, rest) ← read? s
  if skipBlanks rest = [] then
    return (skipBlanks s).take ((skipBlanks s).length - rest.length)
  else none

end EventStream.Json
