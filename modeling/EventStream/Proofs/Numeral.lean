import Mathlib.Algebra.GroupWithZero.Nat
import EventStream.Numeral

/-! Decimals are read back as they are written. -/

namespace EventStream.Numeral

/-! ### Runs of digits -/

theorem isDigit_of_mem_toDigits {n : Nat} {c : Char} (h : c ∈ Nat.toDigits 10 n) :
    c.isDigit = true :=
  Nat.isDigit_of_mem_toDigits (by decide) (by decide) h

theorem isDigit_of_mem_padded {width n : Nat} {c : Char} (h : c ∈ padded width n) :
    c.isDigit = true := by
  simp only [padded, List.mem_append, List.mem_replicate] at h
  rcases h with ⟨-, rfl⟩ | h
  · rfl
  · exact isDigit_of_mem_toDigits h

theorem padded_ne_nil (width n : Nat) : padded width n ≠ [] := by
  simp [padded, Nat.toDigits_ne_nil]

/-- Zeros in front do not count. -/
theorem ofDigitChars_padded (width n : Nat) : Nat.ofDigitChars 10 (padded width n) 0 = n := by
  rw [padded, Nat.ofDigitChars_append, Nat.ofDigitChars_replicate_zero, Nat.mul_zero,
    Nat.ofDigitChars_ten_toDigits]

theorem length_padded {width n : Nat} (hwidth : 0 < width) (hn : n < 10 ^ width) :
    (padded width n).length = width := by
  have hlength := (Nat.length_toDigits_le_iff (by decide) hwidth).mpr hn
  simp only [padded, List.length_append, List.length_replicate]
  omega

theorem le_length_padded (width n : Nat) : width ≤ (padded width n).length := by
  simp only [padded, List.length_append, List.length_replicate]
  omega

/-! ### Decimals -/

theorem decimal?_toDigits (n : Nat) : decimal? (Nat.toDigits 10 n) = some n := by
  have hall : (Nat.toDigits 10 n).all Char.isDigit = true :=
    List.all_eq_true.mpr fun _ h => isDigit_of_mem_toDigits h
  rw [decimal?, if_pos ⟨Nat.toDigits_ne_nil, hall⟩, Nat.ofDigitChars_ten_toDigits]

/-- A digit is not a sign. -/
theorem exists_toDigits (n : Nat) :
    ∃ d ds, Nat.toDigits 10 n = d :: ds ∧ d ≠ '-' ∧ d ≠ '+' := by
  cases h : Nat.toDigits 10 n with
  | nil => exact absurd h Nat.toDigits_ne_nil
  | cons d ds =>
      have hd : d.isDigit = true := isDigit_of_mem_toDigits (n := n) (h ▸ List.mem_cons_self)
      refine ⟨d, ds, rfl, ?_, ?_⟩ <;> (rintro rfl; cases hd)

theorem toList_toString (i : Int) :
    (toString i).toList =
      if i < 0 then '-' :: Nat.toDigits 10 i.natAbs else Nat.toDigits 10 i.natAbs := by
  cases i with
  | ofNat n =>
      have hpos : ¬ Int.ofNat n < 0 := Int.not_lt.mpr (Int.natCast_nonneg n)
      change (Nat.repr n).toList = _
      rw [if_neg hpos, Nat.repr_eq_ofList_toDigits, String.toList_ofList]
      rfl
  | negSucc n =>
      change ("-" ++ Nat.repr (n + 1)).toList = _
      rw [if_pos (Int.negSucc_lt_zero n), Nat.repr_eq_ofList_toDigits, String.toList_append,
        String.toList_ofList]
      simp

theorem signed?_toString (i : Int) : signed? (toString i).toList = some i := by
  rw [toList_toString]
  split
  · simp only [signed?, decimal?_toDigits, Option.bind_eq_bind, Option.bind_some, Option.pure_def,
      Option.map_some, Option.some.injEq]
    omega
  · obtain ⟨d, ds, hds, hminus, hplus⟩ := exists_toDigits i.natAbs
    have hdecimal := decimal?_toDigits i.natAbs
    rw [hds] at hdecimal ⊢
    rw [signed?.eq_2 _ fun _ h => hminus (List.cons.inj h).1,
      unsigned?.eq_2 _ fun _ h => hplus (List.cons.inj h).1, hdecimal]
    simp only [Option.bind_eq_bind, Option.bind_some, Option.pure_def, Option.map_some,
      Option.some.injEq]
    omega

end EventStream.Numeral
