import Mathlib.Algebra.GroupWithZero.Nat
import EventStream.Uuid

/-! A UUID is read back from its hyphenated form. -/

namespace EventStream.Uuid

open Numeral (hexChar hexValue? hexValue?_hexChar)

/-! ### Hyphens -/

theorem length_hyphenate (sizes : List Nat) (cs : List Char) (h : sizes.sum ≤ cs.length) :
    (hyphenate sizes cs).length = cs.length + (sizes.length - 1) := by
  fun_induction hyphenate sizes cs with
  | case1 => rfl
  | case2 => rfl
  | case3 cs n sizes hne ih =>
      obtain ⟨m, sizes, rfl⟩ := List.exists_cons_of_ne_nil hne
      simp only [List.sum_cons, List.length_cons] at h ih ⊢
      rw [List.length_append, List.length_cons, ih (by rw [List.length_drop]; omega),
        List.length_take, List.length_drop]
      omega

theorem unhyphenate?_hyphenate (sizes : List Nat) (cs : List Char) (h : sizes.sum = cs.length) :
    unhyphenate? sizes (hyphenate sizes cs) = some cs := by
  fun_induction hyphenate sizes cs with
  | case1 cs =>
      rw [List.eq_nil_of_length_eq_zero h.symm, unhyphenate?]
  | case2 cs n =>
      rw [unhyphenate?, if_pos (by simpa using h.symm)]
  | case3 n sizes cs hne ih =>
      rw [List.sum_cons] at h
      have hlength : (cs.take n).length = n := by
        rw [List.length_take]
        omega
      have hdrop := ih (by rw [List.length_drop]; omega)
      rw [unhyphenate?]
      · rw [List.drop_left' hlength, List.take_left' hlength]
        simp only [hdrop, Option.map_some, List.take_append_drop]
      · exact hne

/-! ### Digits -/

theorem mapM_hexValue? (ds : List (Fin 16)) : (ds.map hexChar).mapM hexValue? = some ds := by
  induction ds with
  | nil => rfl
  | cons d ds ih =>
      rw [List.map_cons, List.mapM_cons, hexValue?_hexChar, ih]
      rfl

theorem ofHex?_digits (u : Uuid) : ofHex? (u.digits.map hexChar) = some u := by
  simp only [ofHex?, mapM_hexValue?, Option.bind_eq_bind, Option.bind_some, dif_pos u.length_eq]

/-- A hexadecimal digit starts none of the other spellings. -/
theorem hexChar_ne : ∀ d, hexChar d ≠ '{' ∧ (hexChar d).toLower ≠ 'u' := by decide

theorem parse?_hyphenated (u : Uuid) : parse? u.hyphenated = some u := by
  have hsum : groups.sum = (u.digits.map hexChar).length := by
    rw [List.length_map, u.length_eq]
    rfl
  have hlength := length_hyphenate groups (u.digits.map hexChar) (Nat.le_of_eq hsum)
  have hread : ofHyphenated? (hyphenate groups (u.digits.map hexChar)) = some u := by
    simp only [ofHyphenated?, unhyphenate?_hyphenate groups _ hsum, Option.bind_eq_bind,
      Option.bind_some, ofHex?_digits]
  obtain ⟨d, ds, hds⟩ : ∃ d ds, u.digits = d :: ds := by
    cases h : u.digits with
    | nil => exact absurd u.length_eq (by rw [h]; decide)
    | cons d ds => exact ⟨d, ds, rfl⟩
  have hfirst : ∃ rest, hyphenate groups (u.digits.map hexChar) = hexChar d :: rest := by
    rw [hds]
    exact ⟨_, rfl⟩
  obtain ⟨rest, hrest⟩ := hfirst
  rw [u.digits.length_map, u.length_eq] at hlength
  rw [hrest] at hlength hread
  rw [parse?, hyphenated, String.toList_ofList, hrest]
  split
  · next heq => exact absurd (List.cons.inj heq).1 (hexChar_ne d).1
  · rw [if_neg (by rw [hlength]; decide), if_neg, hread]
    intro h
    exact (hexChar_ne d).2 (List.cons.inj h).1

end EventStream.Uuid
