import EventStream.Proofs.Json.Grammar

/-! Strings and numbers: the reader takes exactly what the grammar spells off the front of a
text. -/

namespace EventStream.Json

/-! ### Blanks -/

theorem skipBlanks_append {b : List Char} (hb : IsBlanks b) (s : List Char) :
    skipBlanks (b ++ s) = skipBlanks s := by
  induction b with
  | nil => rfl
  | cons c b ih =>
      have hc : isBlank c = true := hb c List.mem_cons_self
      rw [List.cons_append, skipBlanks, List.dropWhile_cons, if_pos hc]
      exact ih fun d hd => hb d (List.mem_cons_of_mem _ hd)

theorem skipBlanks_cons {c : Char} (hc : isBlank c = false) (s : List Char) :
    skipBlanks (c :: s) = c :: s := by
  simp [skipBlanks, hc]

theorem exists_blanks {s rest : List Char} (h : skipBlanks s = rest) :
    ∃ b, IsBlanks b ∧ s = b ++ rest :=
  ⟨s.takeWhile isBlank, List.all_eq_true.mp List.all_takeWhile,
    h ▸ List.takeWhile_append_dropWhile.symm⟩

/-! ### Strings -/

theorem escaped?_eq_some {e c : Char} : escaped? e = some c ↔ (e, c) ∈ escapes := by
  constructor
  · intro h
    unfold escaped? at h
    split at h <;> first | (cases h; decide) | cases h
  · intro h
    simp only [escapes, List.mem_cons, Prod.mk.injEq, List.not_mem_nil, or_false] at h
    rcases h with ⟨rfl, rfl⟩ | ⟨rfl, rfl⟩ | ⟨rfl, rfl⟩ | ⟨rfl, rfl⟩ | ⟨rfl, rfl⟩ | ⟨rfl, rfl⟩ |
      ⟨rfl, rfl⟩ | ⟨rfl, rfl⟩ <;> rfl

theorem stringText_of_quoted? {s rest : List Char} {pieces : List Piece}
    (h : quoted? s = some (pieces, rest)) : ∃ cs, s = cs ++ rest ∧ StringText cs pieces := by
  fun_induction quoted? s generalizing pieces rest with
  | case1 =>
      cases h
      exact ⟨['"'], rfl, .close⟩
  | case2 a b c d s ih =>
      simp only [Option.bind_eq_bind, Option.bind_eq_some_iff, Prod.exists, Option.pure_def,
        Option.some.injEq, Prod.mk.injEq] at h
      obtain ⟨u, hu, ps, left, hs, rfl, rfl⟩ := h
      obtain ⟨cs, rfl, hcs⟩ := ih hs
      exact ⟨_, rfl, .unit hu hcs⟩
  | case3 e s _ ih =>
      simp only [Option.bind_eq_bind, Option.bind_eq_some_iff, Prod.exists, Option.pure_def,
        Option.some.injEq, Prod.mk.injEq] at h
      obtain ⟨c, hc, ps, left, hs, rfl, rfl⟩ := h
      obtain ⟨cs, rfl, hcs⟩ := ih hs
      exact ⟨_, rfl, .escape (escaped?_eq_some.mp hc) hcs⟩
  | case4 => cases h
  | case5 c s hquote _ _ hplain ih =>
      simp only [Option.bind_eq_bind, Option.bind_eq_some_iff, Prod.exists, Option.pure_def,
        Option.some.injEq, Prod.mk.injEq] at h
      obtain ⟨ps, left, hs, rfl, rfl⟩ := h
      obtain ⟨cs, rfl, hcs⟩ := ih hs
      rw [not_or] at hplain
      exact ⟨_, rfl, .plain hquote hplain.1 (Nat.not_lt.mp hplain.2) hcs⟩
  | case6 => cases h

theorem StringText.quoted? {cs : List Char} {pieces : List Piece} (h : StringText cs pieces)
    (rest : List Char) : quoted? (cs ++ rest) = some (pieces, rest) := by
  induction h with
  | close => rfl
  | @plain c cs pieces hquote hslash hcontrol _ ih =>
      have hplain : ¬ (c = '\\' ∨ c.toNat < 32) := by
        rintro (h | h)
        · exact hslash h
        · exact Nat.not_lt.mpr hcontrol h
      rw [List.cons_append, Json.quoted?.eq_4 _ _ hquote (fun _ _ _ _ _ h => absurd h hslash)
        (fun _ _ h => absurd h hslash), if_neg hplain, ih]
      rfl
  | @escape e c cs pieces he _ ih =>
      have hu : e ≠ 'u' := by
        rintro rfl
        simp [escapes] at he
      rw [List.cons_append, List.cons_append,
        Json.quoted?.eq_3 _ _ (fun _ _ _ _ _ h => absurd h hu), escaped?_eq_some.mpr he, ih]
      rfl
  | unit hu _ ih =>
      simp only [List.cons_append, Json.quoted?, hu, ih]
      rfl

/-! ### Numbers -/

/-- What may stand behind a number: nothing that would go on with it. -/
def Ends (rest : List Char) : Prop :=
  ∀ c ∈ rest.head?, c.isDigit = false ∧ c ≠ '.' ∧ c ≠ 'e' ∧ c ≠ 'E'

/-- No digit stands in front. -/
def NoDigit (rest : List Char) : Prop := ∀ c ∈ rest.head?, c.isDigit = false

theorem isDigits_of_digits? {s ds rest : List Char} (h : digits? s = some (ds, rest)) :
    s = ds ++ rest ∧ IsDigits ds := by
  unfold digits? at h
  split at h
  · cases h
  · next hne =>
    cases h
    exact ⟨List.takeWhile_append_dropWhile.symm, hne, List.all_eq_true.mp List.all_takeWhile⟩

theorem IsDigits.digits? {ds rest : List Char} (h : IsDigits ds) (hrest : NoDigit rest) :
    digits? (ds ++ rest) = some (ds, rest) := by
  have hstop : rest.takeWhile Char.isDigit = [] ∧ rest.dropWhile Char.isDigit = rest := by
    cases rest with
    | nil => exact ⟨rfl, rfl⟩
    | cons c rest =>
        have hc : c.isDigit = false := hrest c rfl
        simp [hc]
  have htake : (ds ++ rest).takeWhile Char.isDigit = ds := by
    rw [List.takeWhile_append_of_pos h.2, hstop.1, List.append_nil]
  have hdrop : (ds ++ rest).dropWhile Char.isDigit = rest := by
    rw [List.dropWhile_append_of_pos h.2, hstop.2]
  rw [Json.digits?, htake, hdrop, if_neg h.1]

theorem isWhole_of_whole? {s ds rest : List Char} (h : whole? s = some (ds, rest)) :
    s = ds ++ rest ∧ IsWhole ds := by
  unfold whole? at h
  split at h
  · cases h
    exact ⟨rfl, .inl rfl⟩
  · next hzero =>
    obtain ⟨rfl, hds⟩ := isDigits_of_digits? h
    refine ⟨rfl, .inr ⟨hds, fun hhead => ?_⟩⟩
    cases ds with
    | nil => cases hhead
    | cons d ds => cases hhead; exact hzero _ rfl

theorem IsWhole.whole? {ds rest : List Char} (h : IsWhole ds) (hrest : NoDigit rest) :
    whole? (ds ++ rest) = some (ds, rest) := by
  rcases h with rfl | ⟨hds, hzero⟩
  · rfl
  · cases ds with
    | nil => exact absurd rfl hds.1
    | cons d ds =>
        have hd : d ≠ '0' := fun h => hzero (congrArg some h)
        rw [List.cons_append, Json.whole?.eq_2 _ fun _ h => absurd (List.cons.inj h).1 hd]
        exact hds.digits? hrest

theorem fractionText_of_fraction? {s ds rest : List Char} (h : fraction? s = some (ds, rest)) :
    ∃ cs, s = cs ++ rest ∧ FractionText cs ds := by
  unfold fraction? at h
  split at h
  · obtain ⟨rfl, hds⟩ := isDigits_of_digits? h
    exact ⟨_, rfl, .present hds⟩
  · cases h
    exact ⟨[], rfl, .absent⟩

theorem FractionText.fraction? {cs ds rest : List Char} (h : FractionText cs ds)
    (hrest : NoDigit rest) (hpoint : rest.head? ≠ some '.') :
    fraction? (cs ++ rest) = some (ds, rest) := by
  cases h with
  | absent =>
      rw [List.nil_append, Json.fraction?.eq_2]
      rintro s rfl
      exact hpoint rfl
  | present hds => exact hds.digits? hrest

theorem powerText_of_power? {s rest : List Char} {n : Int} (h : power? s = some (n, rest)) :
    ∃ cs, s = cs ++ rest ∧ PowerText cs n := by
  simp only [power?] at h
  split at h
  · simp only [Option.map_eq_some_iff, Prod.exists, Prod.mk.injEq] at h
    obtain ⟨ds, left, hds, rfl, rfl⟩ := h
    obtain ⟨rfl, hdigits⟩ := isDigits_of_digits? hds
    exact ⟨_, rfl, .minus hdigits⟩
  · simp only [Option.map_eq_some_iff, Prod.exists, Prod.mk.injEq] at h
    obtain ⟨ds, left, hds, rfl, rfl⟩ := h
    obtain ⟨rfl, hdigits⟩ := isDigits_of_digits? hds
    exact ⟨_, rfl, .plus hdigits⟩
  · simp only [Option.map_eq_some_iff, Prod.exists, Prod.mk.injEq] at h
    obtain ⟨ds, left, hds, rfl, rfl⟩ := h
    obtain ⟨rfl, hdigits⟩ := isDigits_of_digits? hds
    exact ⟨_, rfl, .unsigned hdigits⟩

theorem IsDigits.exists_cons {ds : List Char} (h : IsDigits ds) :
    ∃ d rest, ds = d :: rest ∧ d.isDigit = true := by
  cases ds with
  | nil => exact absurd rfl h.1
  | cons d rest => exact ⟨d, rest, rfl, h.2 d List.mem_cons_self⟩

theorem PowerText.power? {cs rest : List Char} {n : Int} (h : PowerText cs n)
    (hrest : NoDigit rest) : power? (cs ++ rest) = some (n, rest) := by
  cases h with
  | unsigned hds =>
      obtain ⟨d, ds, rfl, hd⟩ := hds.exists_cons
      have hread := hds.digits? hrest
      rw [List.cons_append] at hread ⊢
      have hminus : d ≠ '-' := by rintro rfl; cases hd
      have hplus : d ≠ '+' := by rintro rfl; cases hd
      simp only [Json.power?]
      split
      · next heq => exact absurd (List.cons.inj heq).1 hminus
      · next heq => exact absurd (List.cons.inj heq).1 hplus
      · rw [hread, Option.map_some]
  | plus hds => simp only [List.cons_append, Json.power?, hds.digits? hrest, Option.map_some]
  | minus hds => simp only [List.cons_append, Json.power?, hds.digits? hrest, Option.map_some]

theorem exponentText_of_exponent? {s rest : List Char} {n : Option Int}
    (h : exponent? s = some (n, rest)) : ∃ cs, s = cs ++ rest ∧ ExponentText cs n := by
  unfold exponent? at h
  split at h
  · simp only [Option.map_eq_some_iff, Prod.exists, Prod.mk.injEq] at h
    obtain ⟨m, left, hm, rfl, rfl⟩ := h
    obtain ⟨cs, rfl, hcs⟩ := powerText_of_power? hm
    exact ⟨_, rfl, .lower hcs⟩
  · simp only [Option.map_eq_some_iff, Prod.exists, Prod.mk.injEq] at h
    obtain ⟨m, left, hm, rfl, rfl⟩ := h
    obtain ⟨cs, rfl, hcs⟩ := powerText_of_power? hm
    exact ⟨_, rfl, .upper hcs⟩
  · cases h
    exact ⟨[], rfl, .absent⟩

theorem Ends.noDigit {rest : List Char} (h : Ends rest) : NoDigit rest := fun c hc => (h c hc).1

theorem ExponentText.exponent? {cs rest : List Char} {n : Option Int} (h : ExponentText cs n)
    (hrest : Ends rest) : exponent? (cs ++ rest) = some (n, rest) := by
  cases h with
  | absent =>
      rw [List.nil_append, Json.exponent?.eq_3]
      · rintro s rfl
        exact (hrest _ rfl).2.2.1 rfl
      · rintro s rfl
        exact (hrest _ rfl).2.2.2 rfl
  | lower hn =>
      simp only [List.cons_append, Json.exponent?, hn.power? hrest.noDigit, Option.map_some]
  | upper hn =>
      simp only [List.cons_append, Json.exponent?, hn.power? hrest.noDigit, Option.map_some]

/-- The exponent does not go on with the digits before it. -/
theorem ExponentText.stops {cs rest : List Char} {n : Option Int} (h : ExponentText cs n)
    (hrest : Ends rest) : NoDigit (cs ++ rest) ∧ (cs ++ rest).head? ≠ some '.' := by
  cases h with
  | absent => exact ⟨hrest.noDigit, fun hhead => (hrest _ hhead).2.1 rfl⟩
  | lower | upper => exact ⟨fun c hc => by cases hc; rfl, by simp⟩

theorem FractionText.noDigit {cs ds rest : List Char} (h : FractionText cs ds)
    (hrest : NoDigit rest) : NoDigit (cs ++ rest) := by
  cases h with
  | absent => exact hrest
  | present => exact fun c hc => by cases hc; rfl

theorem magnitudeText_of_magnitude? {negative : Bool} {s rest : List Char} {n : Number}
    (h : magnitude? negative s = some (n, rest)) :
    ∃ cs, s = cs ++ rest ∧ MagnitudeText negative cs n := by
  simp only [magnitude?, Option.bind_eq_bind, Option.bind_eq_some_iff, Prod.exists,
    Option.pure_def, Option.some.injEq, Prod.mk.injEq] at h
  obtain ⟨whole, s₁, hw, fraction, s₂, hf, exponent, s₃, he, rfl, rfl⟩ := h
  obtain ⟨rfl, hwhole⟩ := isWhole_of_whole? hw
  obtain ⟨point, rfl, hpoint⟩ := fractionText_of_fraction? hf
  obtain ⟨power, rfl, hpower⟩ := exponentText_of_exponent? he
  exact ⟨whole ++ (point ++ power), by simp, .mk hwhole hpoint hpower⟩

theorem MagnitudeText.magnitude? {negative : Bool} {cs rest : List Char} {n : Number}
    (h : MagnitudeText negative cs n) (hrest : Ends rest) :
    magnitude? negative (cs ++ rest) = some (n, rest) := by
  cases h with
  | mk hw hf he =>
      have hstops := he.stops hrest
      simp only [List.append_assoc, Json.magnitude?, hw.whole? (hf.noDigit hstops.1),
        hf.fraction? hstops.1 hstops.2, he.exponent? hrest, Option.bind_eq_bind, Option.bind_some,
        Option.pure_def]

theorem IsWhole.exists_cons {ds : List Char} (h : IsWhole ds) :
    ∃ d rest, ds = d :: rest ∧ d.isDigit = true := by
  rcases h with rfl | ⟨h, -⟩
  · exact ⟨'0', [], rfl, rfl⟩
  · exact h.exists_cons

theorem MagnitudeText.exists_cons {negative : Bool} {cs : List Char} {n : Number}
    (h : MagnitudeText negative cs n) : ∃ d rest, cs = d :: rest ∧ d.isDigit = true := by
  cases h with
  | mk hw =>
      obtain ⟨d, rest, rfl, hd⟩ := hw.exists_cons
      exact ⟨d, _, rfl, hd⟩

theorem numberText_of_number? {s rest : List Char} {n : Number}
    (h : number? s = some (n, rest)) : ∃ cs, s = cs ++ rest ∧ NumberText cs n := by
  unfold number? at h
  split at h
  · obtain ⟨cs, rfl, hcs⟩ := magnitudeText_of_magnitude? h
    exact ⟨_, rfl, .negative hcs⟩
  · obtain ⟨cs, rfl, hcs⟩ := magnitudeText_of_magnitude? h
    exact ⟨_, rfl, .positive hcs⟩

theorem NumberText.number? {cs rest : List Char} {n : Number} (h : NumberText cs n)
    (hrest : Ends rest) : number? (cs ++ rest) = some (n, rest) := by
  cases h with
  | positive h =>
      obtain ⟨d, ds, rfl, hd⟩ := h.exists_cons
      rw [Json.number?.eq_2]
      · exact h.magnitude? hrest
      · intro s heq
        rw [(List.cons.inj heq).1] at hd
        cases hd
  | negative h => exact h.magnitude? hrest

/-- A number starts with its sign or with a digit. -/
theorem NumberText.exists_cons {cs : List Char} {n : Number} (h : NumberText cs n) :
    ∃ c rest, cs = c :: rest ∧ ∀ d, d ≠ '-' ∧ d.isDigit = false → c ≠ d := by
  cases h with
  | positive h =>
      obtain ⟨c, rest, rfl, hc⟩ := h.exists_cons
      exact ⟨c, rest, rfl, fun d hd hcd => Bool.false_ne_true (hd.2 ▸ hcd ▸ hc)⟩
  | negative h => exact ⟨'-', _, rfl, fun d hd hcd => hd.1 hcd.symm⟩

end EventStream.Json
