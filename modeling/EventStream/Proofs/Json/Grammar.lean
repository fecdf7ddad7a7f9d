import EventStream.Json.Reader

/-! The grammar of RFC 8259. Each rule says which text spells what, without saying how it is
read. -/

namespace EventStream.Json

/-- Blanks may stand between tokens. -/
def IsBlanks (b : List Char) : Prop := ∀ c ∈ b, isBlank c = true

/-! ### Strings -/

/-- The escapes of two characters: the one after the backslash, and what it stands for. -/
def escapes : List (Char × Char) :=
  [('"', '"'), ('\\', '\\'), ('/', '/'), ('b', '\x08'), ('f', '\x0c'), ('n', '\n'), ('r', '\r'),
    ('t', '\t')]

/-- A string from behind its opening quote on, with the closing quote. -/
inductive StringText : List Char → List Piece → Prop where
  | close : StringText ['"'] []
  | plain {c cs pieces} (hquote : c ≠ '"') (hslash : c ≠ '\\') (hcontrol : 32 ≤ c.toNat)
      (h : StringText cs pieces) : StringText (c :: cs) (.char c :: pieces)
  | escape {e c cs pieces} (he : (e, c) ∈ escapes) (h : StringText cs pieces) :
      StringText ('\\' :: e :: cs) (.char c :: pieces)
  | unit {a b c d u cs pieces} (hu : unit? a b c d = some u) (h : StringText cs pieces) :
      StringText ('\\' :: 'u' :: a :: b :: c :: d :: cs) (.unit u :: pieces)

/-! ### Numbers -/

def IsDigits (ds : List Char) : Prop := ds ≠ [] ∧ ∀ c ∈ ds, c.isDigit = true

/-- No digit stands behind a leading zero. -/
def IsWhole (ds : List Char) : Prop := ds = ['0'] ∨ IsDigits ds ∧ ds.head? ≠ some '0'

inductive FractionText : List Char → List Char → Prop where
  | absent : FractionText [] []
  | present {ds} (h : IsDigits ds) : FractionText ('.' :: ds) ds

inductive PowerText : List Char → Int → Prop where
  | unsigned {ds} (h : IsDigits ds) : PowerText ds (Nat.ofDigitChars 10 ds 0)
  | plus {ds} (h : IsDigits ds) : PowerText ('+' :: ds) (Nat.ofDigitChars 10 ds 0)
  | minus {ds} (h : IsDigits ds) : PowerText ('-' :: ds) (-(Nat.ofDigitChars 10 ds 0 : Int))

inductive ExponentText : List Char → Option Int → Prop where
  | absent : ExponentText [] none
  | lower {cs n} (h : PowerText cs n) : ExponentText ('e' :: cs) (some n)
  | upper {cs n} (h : PowerText cs n) : ExponentText ('E' :: cs) (some n)

/-- A number from behind its sign on. -/
inductive MagnitudeText (negative : Bool) : List Char → Number → Prop where
  | mk {whole point fraction power exponent} (hw : IsWhole whole)
      (hf : FractionText point fraction) (he : ExponentText power exponent) :
      MagnitudeText negative (whole ++ (point ++ power)) { negative, whole, fraction, exponent }

inductive NumberText : List Char → Number → Prop where
  | positive {cs n} (h : MagnitudeText false cs n) : NumberText cs n
  | negative {cs n} (h : MagnitudeText true cs n) : NumberText ('-' :: cs) n

/-! ### Values -/

mutual

inductive ValueText : List Char → Tree → Prop where
  | null : ValueText ['n', 'u', 'l', 'l'] .null
  | true : ValueText ['t', 'r', 'u', 'e'] (.bool true)
  | false : ValueText ['f', 'a', 'l', 's', 'e'] (.bool false)
  | number {cs n} (h : NumberText cs n) : ValueText cs (.number n)
  | string {cs pieces} (h : StringText cs pieces) : ValueText ('"' :: cs) (.string pieces)
  | noItems {b} (hb : IsBlanks b) : ValueText ('[' :: (b ++ [']'])) (.array [])
  | array {b cs items} (hb : IsBlanks b) (h : ItemsText cs items) :
      ValueText ('[' :: (b ++ cs)) (.array items)
  | noMembers {b} (hb : IsBlanks b) : ValueText ('{' :: (b ++ ['}'])) (.object [])
  | object {b cs members} (hb : IsBlanks b) (h : MembersText cs members) :
      ValueText ('{' :: (b ++ cs)) (.object members)

/-- The items of an array from one item on, with the closing bracket. -/
inductive ItemsText : List Char → List Tree → Prop where
  | last {cs item b} (h : ValueText cs item) (hb : IsBlanks b) :
      ItemsText (cs ++ (b ++ [']'])) [item]
  | more {cs item b b' rest items} (h : ValueText cs item) (hb : IsBlanks b) (hb' : IsBlanks b')
      (hrest : ItemsText rest items) : ItemsText (cs ++ (b ++ ',' :: (b' ++ rest))) (item :: items)

/-- The members of an object from one member on, with the closing brace. -/
inductive MembersText : List Char → List (List Piece × Tree) → Prop where
  | last {name key a b cs item d} (hkey : StringText name key) (ha : IsBlanks a)
      (hb : IsBlanks b) (h : ValueText cs item) (hd : IsBlanks d) :
      MembersText ('"' :: (name ++ (a ++ ':' :: (b ++ (cs ++ (d ++ ['}'])))))) [(key, item)]
  | more {name key a b cs item d d' rest members} (hkey : StringText name key) (ha : IsBlanks a)
      (hb : IsBlanks b) (h : ValueText cs item) (hd : IsBlanks d) (hd' : IsBlanks d')
      (hrest : MembersText rest members) :
      MembersText ('"' :: (name ++ (a ++ ':' :: (b ++ (cs ++ (d ++ ',' :: (d' ++ rest)))))))
        ((key, item) :: members)

end

/-- One value with blanks around it. -/
def DocumentText (s : List Char) (t : Tree) : Prop :=
  ∃ b cs b', IsBlanks b ∧ IsBlanks b' ∧ s = b ++ (cs ++ b') ∧ ValueText cs t

/-! ### The texts of members -/

/-- The members of an object from one member on, their values as they are written. -/
inductive MemberTexts : List Char → List (List Piece × List Char) → Prop where
  | last {name key a b cs item d} (hkey : StringText name key) (ha : IsBlanks a)
      (hb : IsBlanks b) (h : ValueText cs item) (hd : IsBlanks d) :
      MemberTexts ('"' :: (name ++ (a ++ ':' :: (b ++ (cs ++ (d ++ ['}'])))))) [(key, cs)]
  | more {name key a b cs item d d' rest members} (hkey : StringText name key) (ha : IsBlanks a)
      (hb : IsBlanks b) (h : ValueText cs item) (hd : IsBlanks d) (hd' : IsBlanks d')
      (hrest : MemberTexts rest members) :
      MemberTexts ('"' :: (name ++ (a ++ ':' :: (b ++ (cs ++ (d ++ ',' :: (d' ++ rest)))))))
        ((key, cs) :: members)

/-- An object, the values of its members as they are written. -/
inductive ObjectText : List Char → List (List Piece × List Char) → Prop where
  | empty {b} (hb : IsBlanks b) : ObjectText ('{' :: (b ++ ['}'])) []
  | members {b cs members} (hb : IsBlanks b) (h : MemberTexts cs members) :
      ObjectText ('{' :: (b ++ cs)) members

end EventStream.Json
