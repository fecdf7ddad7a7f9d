import EventStream.Numeral
import EventStream.Toml.Node

/-! The parts of TOML that are text: blanks, comments, strings and keys. Each function takes
its part off the front of the text and returns what is left. -/

namespace EventStream.Toml

open Numeral (hexValue? hexFold)

def isBlank (c : Char) : Bool := c = ' ' || c = '\t'

def skipBlanks (s : List Char) : List Char := s.dropWhile isBlank

/-- Control characters other than the tab are never written as themselves. -/
def isPlain (c : Char) : Bool := c = '\t' || (32 ≤ c.toNat && c.toNat ≠ 127)

def newline? : List Char → Option (List Char)
  | '\n' :: rest => some rest
  | '\r' :: '\n' :: rest => some rest
  | _ => none

/-- What may stand after a statement: blanks, a comment, and the end of the line. -/
def endOfLine? (s : List Char) : Option (List Char) :=
  let s := skipBlanks s
  match if s.head? = some '#' then s.dropWhile isPlain else s with
  | [] => some []
  | s => newline? s

/-- The text after blanks, newlines and comments; at first within a comment or not. -/
def skipVoid (comment : Bool) : List Char → List Char
  | [] => []
  | '\r' :: '\n' :: rest => skipVoid false rest
  | c :: rest =>
    if c = '\n' then skipVoid false rest
    else if c = '#' || (comment && isPlain c) then skipVoid true rest
    else if isBlank c then skipVoid false rest
    else c :: rest

/-! ### Strings -/

/-- What a two-character escape stands for. -/
def escaped? : Char → Option Char
  | '"' => some '"'
  | '\\' => some '\\'
  | 'b' => some '\x08'
  | 'f' => some '\x0c'
  | 'n' => some '\n'
  | 'r' => some '\r'
  | 't' => some '\t'
  | _ => none

/-- The character of that code point in hexadecimal digits; surrogates are no characters. -/
def codePoint? (digits : List Char) : Option Char := do
  let n := hexFold 0 (← digits.mapM hexValue?)
  if n.isValidChar then some (.ofNat n) else none

/-- The rest of a basic string whose opening quote has been taken. -/
def basic? : List Char → Option (List Char × List Char)
  | '"' :: rest => some ([], rest)
  | '\\' :: 'u' :: a :: b :: c :: d :: rest => do
    let char ← codePoint? [a, b, c, d]
    let (text, rest) ← basic? rest
    return (char :: text, rest)
  | '\\' :: 'U' :: a :: b :: c :: d :: e :: f :: g :: h :: rest => do
    let char ← codePoint? [a, b, c, d, e, f, g, h]
    let (text, rest) ← basic? rest
    return (char :: text, rest)
  | '\\' :: e :: rest => do
    let char ← escaped? e
    let (text, rest) ← basic? rest
    return (char :: text, rest)
  | c :: rest =>
    if c ≠ '\\' ∧ isPlain c then (basic? rest).map fun (text, rest) => (c :: text, rest)
    else none
  | [] => none

/-- The rest of a basic string in three quotes. Up to two quotes more may end its text. A
backslash at the end of a line trims what is blank up to the next character. -/
def longBasic? (trim : Bool) : List Char → Option (List Char × List Char)
  | '"' :: '"' :: '"' :: '"' :: '"' :: rest => some (['"', '"'], rest)
  | '"' :: '"' :: '"' :: '"' :: rest => some (['"'], rest)
  | '"' :: '"' :: '"' :: rest => some ([], rest)
  | '\\' :: 'u' :: a :: b :: c :: d :: rest => do
    let char ← codePoint? [a, b, c, d]
    let (text, rest) ← longBasic? false rest
    return (char :: text, rest)
  | '\\' :: 'U' :: a :: b :: c :: d :: e :: f :: g :: h :: rest => do
    let char ← codePoint? [a, b, c, d, e, f, g, h]
    let (text, rest) ← longBasic? false rest
    return (char :: text, rest)
  | '\\' :: e :: rest =>
    if (newline? (skipBlanks (e :: rest))).isSome then longBasic? true rest
    else do
      let char ← escaped? e
      let (text, rest) ← longBasic? false rest
      return (char :: text, rest)
  | '\r' :: '\n' :: rest =>
    if trim then longBasic? true rest
    else (longBasic? false rest).map fun (text, rest) => ('\n' :: text, rest)
  | c :: rest =>
    if trim ∧ (isBlank c ∨ c = '\n') then longBasic? true rest
    else if c ≠ '\\' ∧ (isPlain c ∨ c = '\n') then
      (longBasic? false rest).map fun (text, rest) => (c :: text, rest)
    else none
  | [] => none

/-- The rest of a literal string whose opening apostrophe has been taken. -/
def literal? (s : List Char) : Option (List Char × List Char) :=
  let text := s.takeWhile fun c => isPlain c && c ≠ '\''
  match s.drop text.length with
  | '\'' :: rest => some (text, rest)
  | _ => none

/-- The rest of a literal string in three apostrophes. -/
def longLiteral? : List Char → Option (List Char × List Char)
  | '\'' :: '\'' :: '\'' :: '\'' :: '\'' :: rest => some (['\'', '\''], rest)
  | '\'' :: '\'' :: '\'' :: '\'' :: rest => some (['\''], rest)
  | '\'' :: '\'' :: '\'' :: rest => some ([], rest)
  | '\r' :: '\n' :: rest => (longLiteral? rest).map fun (text, rest) => ('\n' :: text, rest)
  | c :: rest =>
    if isPlain c ∨ c = '\n' then (longLiteral? rest).map fun (text, rest) => (c :: text, rest)
    else none
  | [] => none

/-- A string of any kind. A newline right after three quotes is no part of it. -/
def string? : List Char → Option (String × List Char)
  | '"' :: '"' :: '"' :: s => named (longBasic? false ((newline? s).getD s))
  | '"' :: s => named (basic? s)
  | '\'' :: '\'' :: '\'' :: s => named (longLiteral? ((newline? s).getD s))
  | '\'' :: s => named (literal? s)
  | _ => none
where
  named : Option (List Char × List Char) → Option (String × List Char) :=
    Option.map fun (text, rest) => (String.ofList text, rest)

/-! ### Keys -/

def isBare (c : Char) : Bool := c.isAlphanum || c = '-' || c = '_'

/-- One part of a key: bare, or a string on one line. -/
def keyPart? : List Char → Option (String × List Char)
  | '"' :: s => (basic? s).map fun (text, rest) => (String.ofList text, rest)
  | '\'' :: s => (literal? s).map fun (text, rest) => (String.ofList text, rest)
  | s =>
    let name := s.takeWhile isBare
    if name = [] then none else some (String.ofList name, s.drop name.length)

/-- Parts with points between them, at most so many, and the blanks around each. -/
def keyParts? : Nat → List Char → Option (List String × List Char)
  | 0, _ => none
  | most + 1, s => do
    let (part, s) ← keyPart? (skipBlanks s)
    match skipBlanks s with
    | '.' :: s => do
      let (parts, s) ← keyParts? most s
      return (part :: parts, s)
    | s => return ([part], s)

/-- Keys have fewer than 80 parts, and containers nest less than 80 deep. -/
def maxDepth : Nat := 79

def key? (s : List Char) : Option (Key × List Char) := do
  let (parts, s) ← keyParts? maxDepth s
  return (← Key.ofParts? parts, s)

end EventStream.Toml
