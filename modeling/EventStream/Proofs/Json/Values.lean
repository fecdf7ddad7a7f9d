import EventStream.Proofs.Json.Tokens

/-! Values and documents: the reader takes exactly what the grammar spells. -/

namespace EventStream.Json

/-! ### Values -/

section

variable {fuel : Nat}
  (hvalue : ∀ {s rest t}, value? fuel s = some (t, rest) → ∃ cs, s = cs ++ rest ∧ ValueText cs t)
  (hitems : ∀ {s rest ts}, items? fuel s = some (ts, rest) →
    ∃ cs, s = cs ++ rest ∧ ItemsText cs ts)
  (hmembers : ∀ {s rest ms}, members? fuel s = some (ms, rest) →
    ∃ cs, s = cs ++ rest ∧ MembersText cs ms)

include hvalue hitems in
theorem itemsText_of_items?_succ {s rest : List Char} {ts : List Tree}
    (h : items? (fuel + 1) s = some (ts, rest)) : ∃ cs, s = cs ++ rest ∧ ItemsText cs ts := by
  simp only [items?, Option.bind_eq_bind, Option.bind_eq_some_iff, Prod.exists] at h
  obtain ⟨item, left, hitem, h⟩ := h
  obtain ⟨cs, rfl, hcs⟩ := hvalue hitem
  split at h
  · next next hnext =>
    simp only [Option.bind_eq_some_iff, Prod.exists, Option.pure_def, Option.some.injEq,
      Prod.mk.injEq] at h
    obtain ⟨items, rest, hread, rfl, rfl⟩ := h
    obtain ⟨b, hb, rfl⟩ := exists_blanks hnext
    obtain ⟨b', hb', hskip⟩ := exists_blanks (s := next) rfl
    obtain ⟨ts, hts, hrest⟩ := hitems hread
    rw [hts] at hskip
    exact ⟨cs ++ (b ++ ',' :: (b' ++ ts)), by simp [hskip], .more hcs hb hb' hrest⟩
  · next next hnext =>
    cases h
    obtain ⟨b, hb, rfl⟩ := exists_blanks hnext
    exact ⟨cs ++ (b ++ [']']), by simp, .last hcs hb⟩
  · cases h

include hvalue hmembers in
theorem membersText_of_members?_succ {s rest : List Char} {ms : List (List Piece × Tree)}
    (h : members? (fuel + 1) s = some (ms, rest)) :
    ∃ cs, s = cs ++ rest ∧ MembersText cs ms := by
  unfold members? at h
  split at h
  · simp only [Option.bind_eq_bind, Option.bind_eq_some_iff, Prod.exists] at h
    obtain ⟨key, left, hkey, h⟩ := h
    obtain ⟨name, rfl, hname⟩ := stringText_of_quoted? hkey
    split at h
    · next behind hbehind =>
      obtain ⟨a, ha, rfl⟩ := exists_blanks hbehind
      obtain ⟨b, hb, hskip⟩ := exists_blanks (s := behind) rfl
      simp only [Option.bind_eq_some_iff, Prod.exists] at h
      obtain ⟨item, left, hitem, h⟩ := h
      obtain ⟨cs, hcs, hvalue⟩ := hvalue hitem
      rw [hcs] at hskip
      subst hskip
      split at h
      · next next hnext =>
        simp only [Option.bind_eq_some_iff, Prod.exists, Option.pure_def, Option.some.injEq,
          Prod.mk.injEq] at h
        obtain ⟨members, rest, hread, rfl, rfl⟩ := h
        obtain ⟨d, hd, rfl⟩ := exists_blanks hnext
        obtain ⟨d', hd', hskip⟩ := exists_blanks (s := next) rfl
        obtain ⟨ms, hms, hrest⟩ := hmembers hread
        rw [hms] at hskip
        exact ⟨'"' :: (name ++ (a ++ ':' :: (b ++ (cs ++ (d ++ ',' :: (d' ++ ms)))))),
          by simp [hskip], .more hname ha hb hvalue hd hd' hrest⟩
      · next next hnext =>
        cases h
        obtain ⟨d, hd, rfl⟩ := exists_blanks hnext
        exact ⟨'"' :: (name ++ (a ++ ':' :: (b ++ (cs ++ (d ++ ['}']))))), by simp,
          .last hname ha hb hvalue hd⟩
      · cases h
    · cases h
  · cases h

include hitems hmembers in
theorem valueText_of_value?_succ {s rest : List Char} {t : Tree}
    (h : value? (fuel + 1) s = some (t, rest)) : ∃ cs, s = cs ++ rest ∧ ValueText cs t := by
  unfold value? at h
  split at h
  · cases h; exact ⟨_, rfl, .null⟩
  · cases h; exact ⟨_, rfl, .true⟩
  · cases h; exact ⟨_, rfl, .false⟩
  · simp only [Option.map_eq_some_iff, Prod.exists, Prod.mk.injEq] at h
    obtain ⟨pieces, rest, hread, rfl, rfl⟩ := h
    obtain ⟨cs, rfl, hcs⟩ := stringText_of_quoted? hread
    exact ⟨_, rfl, .string hcs⟩
  · split at h
    · next hclose =>
      cases h
      obtain ⟨b, hb, rfl⟩ := exists_blanks hclose
      exact ⟨'[' :: (b ++ [']']), by simp, .noItems hb⟩
    · next s _ _ =>
      simp only [Option.map_eq_some_iff, Prod.exists, Prod.mk.injEq] at h
      obtain ⟨items, rest, hread, rfl, rfl⟩ := h
      obtain ⟨b, hb, hskip⟩ := exists_blanks (s := s) rfl
      obtain ⟨cs, hcs, hitems⟩ := hitems hread
      rw [hcs] at hskip
      exact ⟨'[' :: (b ++ cs), by simp [hskip], .array hb hitems⟩
  · split at h
    · next hclose =>
      cases h
      obtain ⟨b, hb, rfl⟩ := exists_blanks hclose
      exact ⟨'{' :: (b ++ ['}']), by simp, .noMembers hb⟩
    · next s _ _ =>
      simp only [Option.map_eq_some_iff, Prod.exists, Prod.mk.injEq] at h
      obtain ⟨members, rest, hread, rfl, rfl⟩ := h
      obtain ⟨b, hb, hskip⟩ := exists_blanks (s := s) rfl
      obtain ⟨cs, hcs, hmembers⟩ := hmembers hread
      rw [hcs] at hskip
      exact ⟨'{' :: (b ++ cs), by simp [hskip], .object hb hmembers⟩
  · simp only [Option.map_eq_some_iff, Prod.exists, Prod.mk.injEq] at h
    obtain ⟨n, rest, hread, rfl, rfl⟩ := h
    obtain ⟨cs, rfl, hcs⟩ := numberText_of_number? hread
    exact ⟨cs, rfl, .number hcs⟩

end

/-- Whatever the fuel, what is taken off the front is spelled by the grammar. -/
theorem text_of_read (fuel : Nat) :
    (∀ {s rest t}, value? fuel s = some (t, rest) → ∃ cs, s = cs ++ rest ∧ ValueText cs t) ∧
    (∀ {s rest ts}, items? fuel s = some (ts, rest) → ∃ cs, s = cs ++ rest ∧ ItemsText cs ts) ∧
    (∀ {s rest ms}, members? fuel s = some (ms, rest) →
      ∃ cs, s = cs ++ rest ∧ MembersText cs ms) := by
  induction fuel with
  | zero => exact ⟨fun h => (nomatch h), fun h => (nomatch h), fun h => (nomatch h)⟩
  | succ fuel ih =>
      obtain ⟨hvalue, hitems, hmembers⟩ := ih
      exact ⟨valueText_of_value?_succ hitems hmembers, itemsText_of_items?_succ hvalue hitems,
        membersText_of_members?_succ hvalue hmembers⟩

/-- A value starts with none of the characters that end or separate values. -/
theorem ValueText.exists_cons {cs : List Char} {t : Tree} (h : ValueText cs t) :
    ∃ c rest, cs = c :: rest ∧ isBlank c = Bool.false ∧ c ≠ ']' ∧ c ≠ '}' := by
  cases h with
  | null | true | false => exact ⟨_, _, rfl, by decide⟩
  | string | noItems | array | noMembers | object => exact ⟨_, _, rfl, by decide⟩
  | number h =>
      obtain ⟨c, rest, rfl, hc⟩ := h.exists_cons
      refine ⟨c, rest, rfl, ?_, hc _ (by decide), hc _ (by decide)⟩
      simp only [isBlank, Bool.or_eq_false_iff, decide_eq_false_iff_not]
      exact ⟨⟨⟨hc _ (by decide), hc _ (by decide)⟩, hc _ (by decide)⟩, hc _ (by decide)⟩

theorem ends_cons {c : Char} (hc : c.isDigit = false ∧ c ≠ '.' ∧ c ≠ 'e' ∧ c ≠ 'E')
    (s : List Char) : Ends (c :: s) := fun d hd => by cases hd; exact hc

theorem ends_nil : Ends [] := fun _ h => (nomatch h)

theorem IsBlanks.ends {b s : List Char} (hb : IsBlanks b) (hs : Ends s) : Ends (b ++ s) := by
  cases b with
  | nil => exact hs
  | cons c b =>
      refine ends_cons ?_ _
      have hc : isBlank c = true := hb c List.mem_cons_self
      simp only [isBlank, Bool.or_eq_true, decide_eq_true_eq] at hc
      rcases hc with ((rfl | rfl) | rfl) | rfl <;> decide

theorem ItemsText.exists_cons {cs : List Char} {ts : List Tree} (h : ItemsText cs ts) :
    ∃ c rest, cs = c :: rest ∧ isBlank c = false ∧ c ≠ ']' := by
  cases h with
  | last h | more h =>
      obtain ⟨c, rest, rfl, hc⟩ := h.exists_cons
      exact ⟨c, _, rfl, hc.1, hc.2.1⟩

theorem MembersText.exists_cons {cs : List Char} {ms : List (List Piece × Tree)}
    (h : MembersText cs ms) : ∃ rest, cs = '"' :: rest := by
  cases h with
  | last | more => exact ⟨_, rfl⟩

theorem ValueText.skip {b cs : List Char} {t : Tree} (h : ValueText cs t) (hb : IsBlanks b)
    (rest : List Char) : skipBlanks (b ++ (cs ++ rest)) = cs ++ rest := by
  obtain ⟨c, cs, rfl, hc, -⟩ := h.exists_cons
  rw [skipBlanks_append hb, List.cons_append, skipBlanks_cons hc]

theorem ItemsText.skip {b cs : List Char} {ts : List Tree} (h : ItemsText cs ts)
    (hb : IsBlanks b) (rest : List Char) : skipBlanks (b ++ (cs ++ rest)) = cs ++ rest := by
  obtain ⟨c, cs, rfl, hc, -⟩ := h.exists_cons
  rw [skipBlanks_append hb, List.cons_append, skipBlanks_cons hc]

theorem MembersText.skip {b cs : List Char} {ms : List (List Piece × Tree)}
    (h : MembersText cs ms) (hb : IsBlanks b) (rest : List Char) :
    skipBlanks (b ++ (cs ++ rest)) = cs ++ rest := by
  obtain ⟨cs, rfl⟩ := h.exists_cons
  rw [skipBlanks_append hb, List.cons_append, skipBlanks_cons rfl]

theorem NumberText.value? {cs rest : List Char} {n : Number} (h : NumberText cs n)
    (hrest : Ends rest) (fuel : Nat) :
    value? (fuel + 1) (cs ++ rest) = some (.number n, rest) := by
  obtain ⟨c, cs, rfl, hc⟩ := h.exists_cons
  have hread := h.number? hrest
  rw [List.cons_append] at hread ⊢
  unfold Json.value?
  split <;> first
    | rw [hread, Option.map_some]
    | next heq => exact absurd (List.cons.inj heq).1 (hc _ (by decide))

mutual

/-- With two units of fuel per character the reader takes a value off the front. -/
theorem ValueText.value? {cs : List Char} {t : Tree} (h : ValueText cs t) (fuel : Nat)
    (hfuel : 2 * cs.length ≤ fuel) {rest : List Char} (hrest : Ends rest) :
    value? fuel (cs ++ rest) = some (t, rest) := by
  obtain ⟨fuel, rfl⟩ : ∃ n, fuel = n + 1 := by
    obtain ⟨c, cs, rfl, -⟩ := h.exists_cons
    exact ⟨fuel - 1, by rw [List.length_cons] at hfuel; omega⟩
  match h with
  | .null | .true | .false => rfl
  | .number h => exact h.value? hrest fuel
  | .string h => simp only [List.cons_append, Json.value?, h.quoted? rest, Option.map_some]
  | .noItems hb =>
      rw [List.cons_append, List.append_assoc, Json.value?]
      rw [skipBlanks_append hb]
      rfl
  | .array hb h =>
      have hread := h.items? fuel (by simp at hfuel; omega) rest
      obtain ⟨c, cs, rfl, hc⟩ := h.exists_cons
      rw [List.cons_append] at hread
      rw [List.cons_append, List.append_assoc, Json.value?, h.skip hb]
      simp only [List.cons_append]
      split
      · next heq => exact absurd (List.cons.inj heq).1 hc.2
      · rw [hread, Option.map_some]
  | .noMembers hb =>
      rw [List.cons_append, List.append_assoc, Json.value?]
      rw [skipBlanks_append hb]
      rfl
  | .object hb h =>
      have hread := h.members? fuel (by simp at hfuel; omega) rest
      obtain ⟨cs, rfl⟩ := h.exists_cons
      rw [List.cons_append] at hread
      rw [List.cons_append, List.append_assoc, Json.value?, h.skip hb]
      simp only [List.cons_append]
      split
      · next heq => exact absurd (List.cons.inj heq).1 (by decide)
      · rw [hread, Option.map_some]

theorem ItemsText.items? {cs : List Char} {ts : List Tree} (h : ItemsText cs ts) (fuel : Nat)
    (hfuel : 2 * cs.length < fuel) (rest : List Char) :
    items? fuel (cs ++ rest) = some (ts, rest) := by
  obtain ⟨fuel, rfl⟩ : ∃ n, fuel = n + 1 := ⟨fuel - 1, by omega⟩
  match h with
  | .last h hb =>
      have hread := h.value? fuel (by simp at hfuel; omega)
        (hb.ends (ends_cons (c := ']') (by decide) rest))
      simp only [List.append_assoc, List.cons_append, List.nil_append, Json.items?, hread,
        Option.bind_eq_bind, Option.bind_some, skipBlanks_append hb]
      rfl
  | @ItemsText.more _ _ _ b' more _ h hb hb' hmore =>
      have hread := h.value? fuel (by simp at hfuel; omega)
        (hb.ends (ends_cons (c := ',') (by decide) (b' ++ (more ++ rest))))
      have hnext := hmore.items? fuel (by simp at hfuel; omega) rest
      simp only [List.append_assoc, List.cons_append, Json.items?, hread,
        Option.bind_eq_bind, Option.bind_some, skipBlanks_append hb, skipBlanks_cons (c := ',') rfl,
        hmore.skip hb', hnext, Option.pure_def]

theorem MembersText.members? {cs : List Char} {ms : List (List Piece × Tree)}
    (h : MembersText cs ms) (fuel : Nat) (hfuel : 2 * cs.length < fuel) (rest : List Char) :
    members? fuel (cs ++ rest) = some (ms, rest) := by
  obtain ⟨fuel, rfl⟩ : ∃ n, fuel = n + 1 := ⟨fuel - 1, by omega⟩
  match h with
  | .last hkey ha hb h hd =>
      have hread := h.value? fuel (by simp at hfuel; omega)
        (hd.ends (ends_cons (c := '}') (by decide) rest))
      simp only [List.append_assoc, List.cons_append, List.nil_append, Json.members?,
        hkey.quoted?, Option.bind_eq_bind, Option.bind_some, skipBlanks_append ha,
        skipBlanks_cons (c := ':') rfl, h.skip hb, hread, skipBlanks_append hd]
      rfl
  | @MembersText.more _ _ _ _ _ _ _ d' more _ hkey ha hb h hd hd' hmore =>
      have hread := h.value? fuel (by simp at hfuel; omega)
        (hd.ends (ends_cons (c := ',') (by decide) (d' ++ (more ++ rest))))
      have hnext := hmore.members? fuel (by simp at hfuel; omega) rest
      simp only [List.append_assoc, List.cons_append, Json.members?,
        hkey.quoted?, Option.bind_eq_bind, Option.bind_some, skipBlanks_append ha,
        skipBlanks_cons (c := ':') rfl, h.skip hb, hread, skipBlanks_append hd,
        skipBlanks_cons (c := ',') rfl, hmore.skip hd', hnext, Option.pure_def]

end

/-! ### Documents -/

theorem isBlanks_nil : IsBlanks [] := fun _ h => (nomatch h)

theorem IsBlanks.skipBlanks {b : List Char} (hb : IsBlanks b) : skipBlanks b = [] := by
  have hskip := skipBlanks_append hb []
  rwa [List.append_nil] at hskip

theorem IsBlanks.ends_self {b : List Char} (hb : IsBlanks b) : Ends b := by
  simpa using hb.ends ends_nil

theorem ValueText.read? {b cs rest : List Char} {t : Tree} (h : ValueText cs t)
    (hb : IsBlanks b) (hrest : Ends rest) : read? (b ++ (cs ++ rest)) = some (t, rest) := by
  rw [Json.read?, h.skip hb]
  exact h.value? _ (by simp; omega) hrest

theorem exists_text_of_read? {s rest : List Char} {t : Tree} (h : read? s = some (t, rest)) :
    ∃ b cs, IsBlanks b ∧ s = b ++ (cs ++ rest) ∧ ValueText cs t := by
  obtain ⟨cs, hcs, htext⟩ := (text_of_read _).1 h
  obtain ⟨b, hb, hs⟩ := exists_blanks (s := s) rfl
  exact ⟨b, cs, hb, hcs ▸ hs, htext⟩

/-- The reader takes exactly the documents. -/
theorem document?_eq_some_iff {s : List Char} {t : Tree} :
    document? s = some t ↔ DocumentText s t := by
  constructor
  · intro h
    simp only [document?, Option.bind_eq_bind, Option.bind_eq_some_iff, Prod.exists] at h
    obtain ⟨tree, rest, hread, h⟩ := h
    split at h
    · next hblank =>
      cases h
      obtain ⟨b, cs, hb, rfl, htext⟩ := exists_text_of_read? hread
      obtain ⟨b', hb', rfl⟩ := exists_blanks hblank
      exact ⟨b, cs, _, hb, by simpa using hb', rfl, htext⟩
    · cases h
  · rintro ⟨b, cs, b', hb, hb', rfl, htext⟩
    simp only [document?, htext.read? hb hb'.ends_self, Option.bind_eq_bind, Option.bind_some,
      hb'.skipBlanks, if_true, Option.pure_def]

/-- The text of a document's value is what stands between its blanks. -/
theorem verbatim?_eq_some_iff {s cs : List Char} :
    verbatim? s = some cs ↔
      ∃ b b' t, IsBlanks b ∧ IsBlanks b' ∧ s = b ++ (cs ++ b') ∧ ValueText cs t := by
  have htake : ∀ cs rest : List Char,
      (cs ++ rest).take ((cs ++ rest).length - rest.length) = cs := by simp
  constructor
  · intro h
    simp only [verbatim?, Option.bind_eq_bind, Option.bind_eq_some_iff, Prod.exists] at h
    obtain ⟨tree, rest, hread, h⟩ := h
    split at h
    · next hblank =>
      obtain ⟨b, cs', hb, rfl, htext⟩ := exists_text_of_read? hread
      rw [htext.skip hb, htake] at h
      cases h
      obtain ⟨b', hb', hrest⟩ := exists_blanks hblank
      exact ⟨b, rest, tree, hb, by simpa [hrest] using hb', rfl, htext⟩
    · cases h
  · rintro ⟨b, b', t, hb, hb', rfl, htext⟩
    simp only [verbatim?, htext.read? hb hb'.ends_self, Option.bind_eq_bind, Option.bind_some,
      hb'.skipBlanks, if_true, Option.pure_def, htext.skip hb, htake]

/-! ### No text spells two things -/

theorem StringText.append_inj {cs cs' rest rest' : List Char} {pieces pieces' : List Piece}
    (h : StringText cs pieces) (h' : StringText cs' pieces') (heq : cs ++ rest = cs' ++ rest') :
    pieces = pieces' ∧ rest = rest' := by
  have hread := h.quoted? rest
  rw [heq, h'.quoted? rest'] at hread
  cases hread
  exact ⟨rfl, rfl⟩

theorem ValueText.append_inj {cs cs' rest rest' : List Char} {t t' : Tree} (h : ValueText cs t)
    (h' : ValueText cs' t') (hrest : Ends rest) (hrest' : Ends rest')
    (heq : cs ++ rest = cs' ++ rest') : t = t' ∧ cs = cs' ∧ rest = rest' := by
  have hread := h.read? isBlanks_nil hrest
  rw [List.nil_append, heq] at hread
  have hread' := h'.read? isBlanks_nil hrest'
  rw [List.nil_append, hread] at hread'
  cases hread'
  exact ⟨rfl, List.append_cancel_right heq, rfl⟩

theorem ValueText.unique {cs : List Char} {t t' : Tree} (h : ValueText cs t)
    (h' : ValueText cs t') : t = t' :=
  (h.append_inj h' ends_nil ends_nil rfl).1

end EventStream.Json
