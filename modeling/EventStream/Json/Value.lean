import EventStream.Json.Tree

/-! What a JSON tree means where a program looks at it. Meaning is narrower than grammar:
surrogates must come in pairs, numbers must fit a double, and containers may nest only so
deep. -/

namespace EventStream.Json

/-! ### Strings -/

/-- The characters of a string; a surrogate unit is read only in a pair, high before low. -/
def characters? : List Piece → Option (List Char)
  | [] => some []
  | .char c :: rest => (characters? rest).map (c :: ·)
  | .unit u :: rest =>
    if u < 0xD800 ∨ 0xDFFF < u then (characters? rest).map (Char.ofNat u :: ·)
    else
      match rest with
      | .unit v :: rest =>
        if u < 0xDC00 ∧ 0xDC00 ≤ v ∧ v ≤ 0xDFFF then
          (characters? rest).map
            (Char.ofNat (0x10000 + (u - 0xD800) * 0x400 + (v - 0xDC00)) :: ·)
        else none
      | _ => none

def text? (pieces : List Piece) : Option String := (characters? pieces).map String.ofList

/-! ### Numbers -/

/-- `n` rounded to 53 significant bits, a half to the even neighbour. -/
def roundDouble (n : Nat) : Nat :=
  let unit := Nat.pow 2 (n.log2 + 1 - 53)
  let low := n % unit
  let up := unit < 2 * low ∨ (2 * low = unit ∧ n / unit % 2 = 1)
  (n / unit + if up then 1 else 0) * unit

namespace Number

/-- Digits are taken into the significand as long as it fits 64 bits; every digit of the
whole part that is left out counts one power of ten. -/
def takeWhole : Nat → List Char → Nat × Nat
  | significand, [] => (significand, 0)
  | significand, d :: ds =>
    let next := 10 * significand + (d.toNat - '0'.toNat)
    if next < Nat.pow 2 64 then takeWhole next ds else (significand, ds.length + 1)

/-- Digits of the fraction; the first that does not fit ends them. -/
def takeFraction : Nat → List Char → Nat × Nat
  | significand, [] => (significand, 0)
  | significand, d :: ds =>
    let next := 10 * significand + (d.toNat - '0'.toNat)
    if next < Nat.pow 2 64 then
      let (significand, taken) := takeFraction next ds
      (significand, taken + 1)
    else (significand, 0)

/-- The number is read as a significand and a power of ten, both rounded to doubles, and
their product is beyond the largest double. -/
def overflows (n : Number) : Bool :=
  let (significand, left) := takeWhole 0 n.whole
  let (significand, taken) := takeFraction significand n.fraction
  let power : Int := left - taken + n.exponent.getD 0
  significand != 0 && decide (0 ≤ power) &&
    (decide (308 < power) ||
      decide (Nat.pow 2 1024 - Nat.pow 2 970 ≤
        roundDouble significand * roundDouble (Nat.pow 10 power.toNat)))

/-- The integer, if the number is written without point and exponent and fits 64 bits,
signed or unsigned. Minus zero is not an integer. -/
def integer? (n : Number) : Option Int :=
  let size := Nat.ofDigitChars 10 n.whole 0
  if n.fraction ≠ [] ∨ n.exponent.isSome then none
  else if n.negative then if size ≠ 0 ∧ size ≤ Nat.pow 2 63 then some (-(size : Int)) else none
  else if size < Nat.pow 2 64 then some size else none

end Number

/-! ### Values -/

inductive Value where
  | null
  | bool (value : Bool)
  | integer (value : Int)
  /-- A number that is not a 64-bit integer. -/
  | real (value : Number)
  | string (value : String)
  | array (items : List Value)
  /-- Members in the order written; of two with one key the later counts. -/
  | object (members : List (String × Value))
  deriving Inhabited

/-- A first member of this key says that an object stands for a document in its string. -/
def embeddingKey : String := "$serde_json::private::RawValue"

def isEmbedding : List (List Piece × Tree) → Bool
  | (key, _) :: _ => text? key = some embeddingKey
  | [] => false

/-- The text of an embedded document, beside which the object has nothing. -/
def embeddedText? : List (List Piece × Tree) → Option String
  | [(_, .string pieces)] => text? pieces
  | _ => none

mutual

/-- The meaning of a tree whose containers nest at most `depth` deep, where `embedded?` is
the meaning of the text of an embedded document. -/
def Tree.valueWith? (embedded? : String → Option Value) (depth : Nat) : Tree → Option Value
  | .null => some .null
  | .bool b => some (.bool b)
  | .number n =>
    match n.integer? with
    | some i => some (.integer i)
    | none => if n.overflows then none else some (.real n)
  | .string pieces => (text? pieces).map .string
  | .array items =>
    match depth with
    | 0 => none
    | depth + 1 => (itemValues? embedded? depth items).map .array
  | .object members =>
    match depth with
    | 0 => none
    | depth + 1 =>
      if isEmbedding members then embeddedText? members >>= embedded?
      else (memberValues? embedded? depth members).map .object

def Tree.itemValues? (embedded? : String → Option Value) (depth : Nat) :
    List Tree → Option (List Value)
  | [] => some []
  | t :: ts => do
    return (← t.valueWith? embedded? depth) :: (← Tree.itemValues? embedded? depth ts)

def Tree.memberValues? (embedded? : String → Option Value) (depth : Nat) :
    List (List Piece × Tree) → Option (List (String × Value))
  | [] => some []
  | (key, t) :: ts => do
    return (← text? key, ← t.valueWith? embedded? depth) ::
      (← Tree.memberValues? embedded? depth ts)

end

/-- The value of the last member of that key. -/
def member? (key : String) (members : List (String × Value)) : Option Value :=
  (members.reverse.find? (·.1 = key)).map (·.2)

end EventStream.Json
