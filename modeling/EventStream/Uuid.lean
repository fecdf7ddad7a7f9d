import EventStream.Numeral

/-! Universally unique identifiers and the spellings in which they are read. -/

namespace EventStream

/-- A UUID is 32 hexadecimal digits. -/
structure Uuid where
  digits : List (Fin 16)
  length_eq : digits.length = 32
  deriving DecidableEq

namespace Uuid

open Numeral (hexChar hexValue?)

/-- The sizes of the groups between hyphens. -/
def groups : List Nat := [8, 4, 4, 4, 12]

/-- `cs` cut into groups of the given sizes, a hyphen between two groups. -/
def hyphenate : List Nat → List Char → List Char
  | [], cs => cs
  | [_], cs => cs
  | n :: sizes, cs => cs.take n ++ '-' :: hyphenate sizes (cs.drop n)

/-- The characters between the hyphens, if the hyphens stand after groups of the given
sizes and nowhere else is cut. -/
def unhyphenate? : List Nat → List Char → Option (List Char)
  | [], [] => some []
  | [], _ => none
  | [n], cs => if cs.length = n then some cs else none
  | n :: sizes, cs =>
    match cs.drop n with
    | '-' :: rest => (unhyphenate? sizes rest).map (cs.take n ++ ·)
    | _ => none

def ofHex? (cs : List Char) : Option Uuid := do
  let digits ← cs.mapM hexValue?
  if h : digits.length = 32 then some ⟨digits, h⟩ else none

def ofHyphenated? (cs : List Char) : Option Uuid :=
  unhyphenate? groups cs >>= ofHex?

/-- Lower-case hexadecimal in groups of 8, 4, 4, 4 and 12. -/
def hyphenated (u : Uuid) : String :=
  String.ofList (hyphenate groups (u.digits.map hexChar))

instance : ToString Uuid := ⟨hyphenated⟩

/-- Bare digits, the hyphenated form, that form in braces, or that form after
`urn:uuid:`; letters of either case throughout. -/
def parse? (s : String) : Option Uuid :=
  let cs := s.toList
  match cs with
  | '{' :: inner =>
    if inner.getLast? = some '}' then ofHyphenated? inner.dropLast else none
  | _ =>
    if cs.length = 32 then ofHex? cs
    else if (cs.take 9).map Char.toLower = "urn:uuid:".toList then ofHyphenated? (cs.drop 9)
    else ofHyphenated? cs

end Uuid

end EventStream
