import EventStream.Json.Value
import EventStream.Json.Writer
import EventStream.Proofs.Json.Values
import EventStream.Proofs.Numeral

/-! What is written spells what was meant. -/

namespace EventStream.Json

open Numeral (hexChar nibble hexValue?_hexChar)

/-! ### Texts of strings -/

/-- The text is a string that means `s`. -/
def SpellsString (cs : List Char) (s : String) : Prop :=
  ∃ pieces, ValueText cs (.string pieces) ∧ text? pieces = some s

/-- The text is a string that means `s`, or `null` in its place. -/
inductive SpellsNullable : List Char → Option String → Prop where
  | null : SpellsNullable ['n', 'u', 'l', 'l'] none
  | string {cs s} (h : SpellsString cs s) : SpellsNullable cs (some s)

theorem SpellsString.unique {cs : List Char} {s s' : String} (h : SpellsString cs s)
    (h' : SpellsString cs s') : s = s' := by
  obtain ⟨pieces, htext, hs⟩ := h
  obtain ⟨pieces', htext', hs'⟩ := h'
  cases htext.unique htext'
  exact Option.some.inj (hs.symm.trans hs')

theorem SpellsNullable.unique {cs : List Char} {s s' : Option String} (h : SpellsNullable cs s)
    (h' : SpellsNullable cs s') : s = s' := by
  cases h with
  | null =>
      cases h' with
      | null => rfl
      | string h =>
          obtain ⟨pieces, htext, -⟩ := h
          cases ValueText.null.unique htext
  | string h =>
      cases h' with
      | null =>
          obtain ⟨pieces, htext, -⟩ := h
          cases ValueText.null.unique htext
      | string h' => exact congrArg some (h.unique h')

theorem SpellsNullable.valueText {cs : List Char} {s : Option String} (h : SpellsNullable cs s) :
    ∃ t, ValueText cs t := by
  cases h with
  | null => exact ⟨_, .null⟩
  | string h =>
      obtain ⟨_, h, -⟩ := h
      exact ⟨_, h⟩

/-! ### Strings -/

/-- The piece that a character is written as. -/
def pieceOf (c : Char) : Piece :=
  if c.toNat < 32 ∧ c ∉ ['\x08', '\x0c', '\n', '\r', '\t'] then .unit c.toNat else .char c

theorem unit?_hexChar {n : Nat} (hn : n < 32) :
    unit? '0' '0' (hexChar (nibble (n / 16))) (hexChar (nibble n)) = some n := by
  have hzero : Numeral.hexValue? '0' = some 0 := rfl
  simp only [unit?, hzero, hexValue?_hexChar, Option.bind_eq_bind, Option.bind_some,
    Option.pure_def, Option.some.injEq, Numeral.hexFold, List.foldl_cons, List.foldl_nil, nibble,
    Fin.val_ofNat, Fin.val_zero]
  omega

theorem stringText_escape (c : Char) {cs : List Char} {pieces : List Piece}
    (h : StringText cs pieces) : StringText (escape c ++ cs) (pieceOf c :: pieces) := by
  unfold escape
  split
  · exact .escape (by decide) h
  · exact .escape (by decide) h
  · exact .escape (by decide) h
  · exact .escape (by decide) h
  · exact .escape (by decide) h
  · exact .escape (by decide) h
  · exact .escape (by decide) h
  · next hquote hslash hb hf hn hr ht =>
    split
    · next hlt =>
      have hlong : c ∉ ['\x08', '\x0c', '\n', '\r', '\t'] := by
        simpa using ⟨hb, hf, hn, hr, ht⟩
      rw [pieceOf, if_pos ⟨hlt, hlong⟩]
      exact .unit (unit?_hexChar hlt) h
    · next hlt =>
      rw [pieceOf, if_neg fun h => hlt h.1]
      exact .plain hquote hslash (Nat.not_lt.mp hlt) h

theorem characters?_pieceOf (c : Char) {pieces : List Piece} {cs : List Char}
    (h : characters? pieces = some cs) : characters? (pieceOf c :: pieces) = some (c :: cs) := by
  unfold pieceOf
  split
  · next hcontrol =>
    have hplain : c.toNat < 0xD800 ∨ 0xDFFF < c.toNat := .inl (Nat.lt_trans hcontrol.1 (by decide))
    rw [characters?.eq_def]
    simp only [if_pos hplain, h, Option.map_some, Char.ofNat_toNat]
  · rw [characters?, h, Option.map_some]

theorem stringText_flatMap (cs : List Char) :
    StringText (cs.flatMap escape ++ ['"']) (cs.map pieceOf) := by
  induction cs with
  | nil => exact .close
  | cons c cs ih =>
      rw [List.flatMap_cons, List.append_assoc]
      exact stringText_escape c ih

theorem characters?_map_pieceOf (cs : List Char) : characters? (cs.map pieceOf) = some cs := by
  induction cs with
  | nil => rfl
  | cons c cs ih => exact characters?_pieceOf c ih

theorem spellsString_quote (s : String) : SpellsString (quote s).toList s := by
  refine ⟨s.toList.map pieceOf, ?_, ?_⟩
  · rw [quote, String.toList_ofList]
    exact .string (stringText_flatMap s.toList)
  · rw [text?, characters?_map_pieceOf, Option.map_some, String.ofList_toList]

theorem spellsNullable_quote? (s : Option String) : SpellsNullable (quote? s).toList s := by
  cases s with
  | none => exact .null
  | some s => exact .string (spellsString_quote s)

/-! ### Integers -/

theorem isDigits_toDigits (n : Nat) : IsDigits (Nat.toDigits 10 n) :=
  ⟨Nat.toDigits_ne_nil, fun _ => Numeral.isDigit_of_mem_toDigits⟩

theorem head?_toDigits {n : Nat} (hn : 0 < n) : (Nat.toDigits 10 n).head? ≠ some '0' := by
  induction n using Nat.strongRecOn with
  | ind n ih =>
      by_cases hlt : n < 10
      · have hdigit : ∀ d < 10, 0 < d → Nat.digitChar d ≠ '0' := by decide
        rw [Nat.toDigits_of_lt_base hlt, List.head?_cons]
        exact fun h => hdigit n hlt hn (Option.some.inj h)
      · have hle : 10 ≤ n := Nat.not_lt.mp hlt
        obtain ⟨d, ds, hds⟩ :=
          List.exists_cons_of_ne_nil (Nat.toDigits_ne_nil (b := 10) (n := n / 10))
        have hhead := ih (n / 10) (by omega) (by omega)
        rw [hds] at hhead
        rw [Nat.toDigits_of_base_le (by decide) hle, hds]
        exact hhead

theorem isWhole_toDigits (n : Nat) : IsWhole (Nat.toDigits 10 n) := by
  rcases Nat.eq_zero_or_pos n with rfl | hn
  · exact .inl rfl
  · exact .inr ⟨isDigits_toDigits n, head?_toDigits hn⟩

/-- The number that an integer is written as. -/
def numberOf (i : Int) : Number :=
  { negative := i < 0, whole := Nat.toDigits 10 i.natAbs, fraction := [], exponent := none }

theorem numberText_numberOf (i : Int) : NumberText (toString i).toList (numberOf i) := by
  have hmagnitude (negative : Bool) : MagnitudeText negative (Nat.toDigits 10 i.natAbs)
      { negative, whole := Nat.toDigits 10 i.natAbs, fraction := [], exponent := none } := by
    have hmk : MagnitudeText negative (_ ++ ([] ++ [])) _ :=
      .mk (isWhole_toDigits i.natAbs) .absent .absent
    rwa [List.append_nil, List.append_nil] at hmk
  rw [Numeral.toList_toString]
  by_cases hneg : i < 0
  · rw [if_pos hneg, numberOf, decide_eq_true hneg]
    exact .negative (hmagnitude true)
  · rw [if_neg hneg, numberOf, decide_eq_false hneg]
    exact .positive (hmagnitude false)

theorem numberText_toString (i : Int) : ∃ n, NumberText (toString i).toList n :=
  ⟨_, numberText_numberOf i⟩

theorem integer?_numberOf {i : Int} (h : -Int.pow 2 63 ≤ i ∧ i < Int.pow 2 64) :
    (numberOf i).integer? = some i := by
  simp only [Number.integer?, numberOf, Nat.ofDigitChars_ten_toDigits, ne_eq, not_true_eq_false,
    Option.isSome_none, Bool.false_eq_true, or_self, ite_false, decide_eq_true_eq]
  have hlow : Int.pow 2 63 = (Nat.pow 2 63 : Nat) := by decide
  have hhigh : Int.pow 2 64 = (Nat.pow 2 64 : Nat) := by decide
  by_cases hneg : i < 0
  · rw [if_pos hneg, if_pos (by omega)]
    exact congrArg some (by omega)
  · rw [if_neg hneg, if_pos (by omega)]
    exact congrArg some (by omega)

end EventStream.Json
