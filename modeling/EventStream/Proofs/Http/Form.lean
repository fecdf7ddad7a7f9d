import EventStream.Http.Form
import EventStream.Proofs.Frame

/-! Query strings whose names and values need no escapes are read as they stand. -/

namespace EventStream

/-- The bytes taken out one by one are those that are there. -/
theorem toList_byteArray (b : ByteArray) : b.toList = b.data.toList := by
  have hloop (i : Nat) (r : List UInt8) :
      ByteArray.toList.loop b i r = r.reverse ++ b.data.toList.drop i := by
    fun_induction ByteArray.toList.loop b i r with
    | case1 i r h ih =>
        have hlt : i < b.data.toList.length := h
        rw [ih, List.drop_eq_getElem_cons hlt]
        simp [ByteArray.get!, getElem!_pos b.data i h]
    | case2 i r h =>
        have hle : b.data.toList.length ≤ i := Nat.not_lt.mp h
        simp [List.drop_eq_nil_of_le hle]
  exact hloop 0 []

namespace Http.Form

/-- Text that stands for itself, also as a name or a value. -/
def IsPlain (s : List Char) : Prop := ∀ c ∈ s, c ≠ '%' ∧ c ≠ '+' ∧ c ≠ '&' ∧ c ≠ '='

-- Of the instances that decide this, the one that goes through the characters of `s` alone.
instance (s : List Char) : Decidable (IsPlain s) := List.decidableBAll _ s

theorem IsPlain.of_isDigit {s : List Char} (h : ∀ c ∈ s, c.isDigit = true ∨ c = '-') :
    IsPlain s := by
  intro c hc
  rcases h c hc with hd | rfl
  · refine ⟨?_, ?_, ?_, ?_⟩ <;> (rintro rfl; cases hd)
  · decide

/-! ### Pieces -/

section Split

variable {sep : Char} {s : List Char}

theorem split_of_notMem (h : sep ∉ s) : split sep s = [s] := by
  induction s with
  | nil => rfl
  | cons c s ih =>
      obtain ⟨hc, hs⟩ := not_or.mp (mt List.mem_cons.mpr h)
      rw [split, if_neg (Ne.symm hc), ih hs]

theorem split_append (h : sep ∉ s) (rest : List Char) :
    split sep (s ++ sep :: rest) = s :: split sep rest := by
  induction s with
  | nil => rw [List.nil_append, split, if_pos rfl]
  | cons c s ih =>
      obtain ⟨hc, hs⟩ := not_or.mp (mt List.mem_cons.mpr h)
      rw [List.cons_append, split, if_neg (Ne.symm hc), ih hs]

end Split

/-! ### Names and values -/

section Pairs

variable {s name value : List Char}

theorem IsPlain.bytes_eq (h : IsPlain s) : bytes s = (String.ofList s).toUTF8.data.toList := by
  induction s with
  | nil => rfl
  | cons c s ih =>
      obtain ⟨⟨hpercent, hplus, -⟩, hs⟩ := List.forall_mem_cons.mp h
      rw [bytes.eq_4 c s (fun _ _ _ hc => absurd hc hpercent) hplus, ih hs, toList_byteArray,
        String.ofList_cons, String.toUTF8_eq_toByteArray, String.toUTF8_eq_toByteArray,
        String.toUTF8_eq_toByteArray, String.toByteArray_append, ByteArray.toList_data_append]

theorem IsPlain.decode? (h : IsPlain s) : decode? s = some (String.ofList s) := by
  rw [Form.decode?, h.bytes_eq, fromUTF8?_eq_some_iff]

theorem IsPlain.notMem (h : IsPlain s) : '&' ∉ s ∧ '=' ∉ s :=
  ⟨fun hc => (h _ hc).2.2.1 rfl, fun hc => (h _ hc).2.2.2 rfl⟩

/-- What a piece of a query string is read as. -/
theorem pair_eq (hn : IsPlain name) (hv : IsPlain value) :
    (decode? ((name ++ '=' :: value).takeWhile (· ≠ '=')),
      decode? (((name ++ '=' :: value).dropWhile (· ≠ '=')).drop 1)) =
      (some (String.ofList name), some (String.ofList value)) := by
  have hname : ∀ c ∈ name, decide (c ≠ '=') = true := fun c hc =>
    decide_eq_true fun heq => hn.notMem.2 (heq ▸ hc)
  rw [List.takeWhile_append_of_pos hname, List.dropWhile_append_of_pos hname]
  simp [hn.decode?, hv.decode?]

theorem pairs_single (hn : IsPlain name) (hv : IsPlain value) :
    pairs (name ++ '=' :: value) = [(some (String.ofList name), some (String.ofList value))] := by
  have hnot : '&' ∉ name ++ '=' :: value := by
    simp [hn.notMem.1, hv.notMem.1]
  rw [pairs, split_of_notMem hnot, ← pair_eq hn hv]
  simp

theorem pairs_cons (hn : IsPlain name) (hv : IsPlain value) (rest : List Char) :
    pairs ((name ++ '=' :: value) ++ '&' :: rest) =
      (some (String.ofList name), some (String.ofList value)) :: pairs rest := by
  have hnot : '&' ∉ name ++ '=' :: value := by
    simp [hn.notMem.1, hv.notMem.1]
  rw [pairs, split_append hnot, ← pair_eq hn hv, pairs]
  simp

/-- A name that is given once with a number as its value. -/
theorem integer?_of_filter {pairs : List (Option String × Option String)} {name value : String}
    {n : Int} (hf : pairs.filter (·.1 = some name) = [(some name, some value)])
    (hv : Numeral.signed? value.toList = some n) :
    integer? name pairs =
      if -Int.pow 2 63 ≤ n ∧ n < Int.pow 2 63 then some (some n) else none := by
  simp only [integer?, hf, Option.bind_eq_bind, Option.bind_some, hv]
  rfl

end Pairs

end Http.Form

end EventStream
