import EventStream.Numeral

/-! IPv4 and IPv6 addresses, read from text and written in their shortest form. -/

namespace EventStream

inductive IpAddress where
  | v4 (octets : Vector UInt8 4)
  | v6 (groups : Vector UInt16 8)
  deriving DecidableEq

namespace IpAddress

open Numeral (hexValue? hexFold)

def loopback : IpAddress := v4 #v[127, 0, 0, 1]

/-! ### Reading -/

/-- Up to three digits below 256, without a leading zero. -/
def octet? (s : List Char) : Option (UInt8 × List Char) :=
  let digits := s.takeWhile Char.isDigit
  let n := Nat.ofDigitChars 10 digits 0
  if digits = [] ∨ 3 < digits.length ∨ 255 < n then none
  else if digits.head? = some '0' ∧ digits ≠ ['0'] then none
  else some (.ofNat n, s.drop digits.length)

/-- Octets with points between them, as many as asked for. -/
def octets? : Nat → List Char → Option (List UInt8 × List Char)
  | 0, s => some ([], s)
  | n + 1, s => do
    let (octet, s) ← octet? s
    if n = 0 then return ([octet], s)
    let '.' :: s := s | none
    let (octets, s) ← octets? n s
    return (octet :: octets, s)

/-- Up to four hexadecimal digits. -/
def group? (s : List Char) : Option (UInt16 × List Char) :=
  let digits := s.takeWhile (hexValue? · |>.isSome)
  if digits = [] ∨ 4 < digits.length then none
  else some (.ofNat (hexFold 0 (digits.filterMap hexValue?)), s.drop digits.length)

def pair (a b : UInt8) : UInt16 := a.toUInt16 * 256 + b.toUInt16

/-- As many groups with colons between them as there are, up to a number of them, and
whether they end in the octets of an IPv4 address, which take the place of two. -/
def groups : Nat → (first : Bool) → List Char → List UInt16 × Bool × List Char
  | 0, _, s => ([], false, s)
  | n + 1, first, s =>
    let (rest, found) :=
      match first, s with
      | true, s => (s, true)
      | false, ':' :: s => (s, true)
      | false, s => (s, false)
    if !found then ([], false, s)
    else
      match if n = 0 then none else octets? 4 rest with
      | some ([a, b, c, d], rest) => ([pair a b, pair c d], true, rest)
      | _ =>
        match group? rest with
        | none => ([], false, s)
        | some (g, rest) =>
          let (gs, embedded, rest) := groups n false rest
          (g :: gs, embedded, rest)

/-- Eight groups; a double colon stands for the zeros that are missing, at least one. -/
def v6? (s : List Char) : Option (List UInt16 × List Char) :=
  match groups 8 true s with
  | (head, embedded, s) =>
    if head.length = 8 then some (head, s)
    else if embedded then none
    else
      match s with
      | ':' :: ':' :: s =>
        let (tail, _, s) := groups (7 - head.length) true s
        some (head ++ List.replicate (8 - head.length - tail.length) 0 ++ tail, s)
      | _ => none

def parse? (text : String) : Option IpAddress :=
  let s := text.toList
  match octets? 4 s with
  | some (octets, rest) =>
    if h : octets.length = 4 then
      if rest = [] then some (v4 ⟨octets.toArray, by simpa using h⟩) else none
    else none
  | none =>
    match v6? s with
    | some (groups, []) =>
      if h : groups.length = 8 then some (v6 ⟨groups.toArray, by simpa using h⟩) else none
    | _ => none

/-! ### Writing -/

def dotted (octets : List UInt8) : String := ".".intercalate (octets.map (toString ·.toNat))

def colons (groups : List UInt16) : String :=
  ":".intercalate (groups.map fun g => String.ofList (Nat.toDigits 16 g.toNat))

/-- Start and length of the longest run of zeros, the first of several. -/
def zeroRun (groups : List UInt16) : Nat × Nat :=
  (List.range groups.length).foldl (fun (start, length) i =>
    let run := ((groups.drop i).takeWhile (· = 0)).length
    if length < run then (i, run) else (start, length)) (0, 0)

/-- A run of two or more zeros becomes a double colon. -/
def v6Text (groups : List UInt16) : String :=
  match groups with
  | [0, 0, 0, 0, 0, 0xffff, a, b] =>
    "::ffff:" ++ dotted [(a / 256).toUInt8, a.toUInt8, (b / 256).toUInt8, b.toUInt8]
  | _ =>
    let (start, length) := zeroRun groups
    if length < 2 then colons groups
    else colons (groups.take start) ++ "::" ++ colons (groups.drop (start + length))

def text : IpAddress → String
  | v4 octets => dotted octets.toList
  | v6 groups => v6Text groups.toList

end IpAddress

end EventStream
