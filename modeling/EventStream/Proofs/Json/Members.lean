import EventStream.Proofs.Json.Values

/-! Objects member by member, with the texts of their values. -/

namespace EventStream.Json

theorem MemberTexts.membersText {cs : List Char} {members : List (List Piece × List Char)}
    (h : MemberTexts cs members) : ∃ trees, MembersText cs trees := by
  induction h with
  | last hkey ha hb h hd => exact ⟨_, .last hkey ha hb h hd⟩
  | more hkey ha hb h hd hd' _ ih =>
      obtain ⟨trees, htrees⟩ := ih
      exact ⟨_, .more hkey ha hb h hd hd' htrees⟩

theorem MemberTexts.exists_cons {cs : List Char} {members : List (List Piece × List Char)}
    (h : MemberTexts cs members) : ∃ rest, cs = '"' :: rest := by
  cases h with
  | last | more => exact ⟨_, rfl⟩

theorem ObjectText.valueText {cs : List Char} {members : List (List Piece × List Char)}
    (h : ObjectText cs members) : ∃ trees, ValueText cs (.object trees) := by
  cases h with
  | empty hb => exact ⟨[], .noMembers hb⟩
  | members hb h =>
      obtain ⟨trees, htrees⟩ := h.membersText
      exact ⟨trees, .object hb htrees⟩

/-! ### The members of a text are determined -/

/-- Behind equal fronts of blanks stands the same, if it starts with no blank. -/
theorem IsBlanks.append_inj {b b' s s' : List Char} {c c' : Char} (hb : IsBlanks b)
    (hb' : IsBlanks b') (hc : isBlank c = false) (hc' : isBlank c' = false)
    (heq : b ++ c :: s = b' ++ c' :: s') : c = c' ∧ s = s' := by
  have hskip := congrArg Json.skipBlanks heq
  rw [skipBlanks_append hb, skipBlanks_append hb', skipBlanks_cons hc, skipBlanks_cons hc'] at hskip
  exact List.cons.inj hskip

/-- Two members from their keys on, with whatever stands behind them. -/
theorem member_inj {name name' a a' b b' cs cs' d d' s s' : List Char} {key key' : List Piece}
    {item item' : Tree} {c c' : Char} (hkey : StringText name key) (hkey' : StringText name' key')
    (ha : IsBlanks a) (ha' : IsBlanks a') (hb : IsBlanks b) (hb' : IsBlanks b')
    (h : ValueText cs item) (h' : ValueText cs' item') (hd : IsBlanks d) (hd' : IsBlanks d')
    (hc : c = ',' ∨ c = '}') (hc' : c' = ',' ∨ c' = '}')
    (heq : name ++ (a ++ ':' :: (b ++ (cs ++ (d ++ c :: s)))) =
      name' ++ (a' ++ ':' :: (b' ++ (cs' ++ (d' ++ c' :: s'))))) :
    key = key' ∧ cs = cs' ∧ c = c' ∧ s = s' := by
  have hends : ∀ {c : Char}, c = ',' ∨ c = '}' → isBlank c = false ∧
      (c.isDigit = false ∧ c ≠ '.' ∧ c ≠ 'e' ∧ c ≠ 'E') := by
    rintro c (rfl | rfl) <;> decide
  obtain ⟨rfl, hbehind⟩ := hkey.append_inj hkey' heq
  obtain ⟨-, hitem⟩ := ha.append_inj ha' (by decide) (by decide) hbehind
  have hskip := congrArg skipBlanks hitem
  rw [h.skip hb, h'.skip hb'] at hskip
  obtain ⟨-, rfl, hnext⟩ := h.append_inj h' (hd.ends (ends_cons (hends hc).2 s))
    (hd'.ends (ends_cons (hends hc').2 s')) hskip
  obtain ⟨rfl, rfl⟩ := hd.append_inj hd' (hends hc).1 (hends hc').1 hnext
  exact ⟨rfl, rfl, rfl, rfl⟩

theorem MemberTexts.unique {cs : List Char} {members members' : List (List Piece × List Char)}
    (h : MemberTexts cs members) (h' : MemberTexts cs members') : members = members' := by
  induction h generalizing members' with
  | last hkey ha hb h hd =>
      generalize hcs : '"' :: _ = text at h'
      cases h' with
      | last hkey' ha' hb' h' hd' =>
          obtain ⟨rfl, rfl, -⟩ := member_inj hkey hkey' ha ha' hb hb' h h' hd hd' (.inr rfl)
            (.inr rfl) (List.cons.inj hcs).2
          rfl
      | more hkey' ha' hb' h' hd' =>
          obtain ⟨-, -, hc, -⟩ := member_inj hkey hkey' ha ha' hb hb' h h' hd hd' (.inr rfl)
            (.inl rfl) (List.cons.inj hcs).2
          exact absurd hc (by decide)
  | more hkey ha hb h hd hd₂ hmore ih =>
      generalize hcs : '"' :: _ = text at h'
      cases h' with
      | last hkey' ha' hb' h' hd' =>
          obtain ⟨-, -, hc, -⟩ := member_inj hkey hkey' ha ha' hb hb' h h' hd hd' (.inl rfl)
            (.inr rfl) (List.cons.inj hcs).2
          exact absurd hc (by decide)
      | more hkey' ha' hb' h' hd' hd₂' hmore' =>
          obtain ⟨rfl, rfl, -, hnext⟩ := member_inj hkey hkey' ha ha' hb hb' h h' hd hd' (.inl rfl)
            (.inl rfl) (List.cons.inj hcs).2
          obtain ⟨rest, hs⟩ := hmore.exists_cons
          obtain ⟨rest', hs'⟩ := hmore'.exists_cons
          rw [hs, hs'] at hnext
          obtain ⟨-, rfl⟩ := hd₂.append_inj hd₂' (by decide) (by decide) hnext
          rw [ih (hs ▸ hs' ▸ hmore')]

theorem ObjectText.unique {cs : List Char} {members members' : List (List Piece × List Char)}
    (h : ObjectText cs members) (h' : ObjectText cs members') : members = members' := by
  generalize hcs : cs = text at h'
  cases h with
  | empty hb =>
      cases h' with
      | empty => rfl
      | members hb' h' =>
          obtain ⟨_, rfl⟩ := h'.exists_cons
          exact absurd (hb.append_inj hb' (by decide) (by decide) (List.cons.inj hcs).2).1
            (by decide)
  | members hb h =>
      obtain ⟨rest, rfl⟩ := h.exists_cons
      cases h' with
      | empty hb' =>
          exact absurd (hb.append_inj hb' (by decide) (by decide) (List.cons.inj hcs).2).1
            (by decide)
      | members hb' h' =>
          obtain ⟨rest', rfl⟩ := h'.exists_cons
          obtain ⟨-, rfl⟩ := hb.append_inj hb' (by decide) (by decide) (List.cons.inj hcs).2
          exact h.unique h'

theorem ObjectText.eq_iff {cs : List Char} {members : List (List Piece × List Char)}
    (h : ObjectText cs members) (ms : List (List Piece × List Char)) :
    ObjectText cs ms ↔ ms = members :=
  ⟨fun hms => hms.unique h, fun hms => hms ▸ h⟩

/-! ### Members written without blanks -/

/-- A key whose characters stand for themselves. -/
def plain (key : String) : List Piece := key.toList.map .char

/-- No character of the key has to be escaped. -/
def isPlain (key : String) : Bool :=
  key.toList.all fun c => c ≠ '"' && c ≠ '\\' && decide (32 ≤ c.toNat)

theorem stringText_plain {key : String} (h : isPlain key = true) :
    StringText (key.toList ++ ['"']) (plain key) := by
  unfold plain
  unfold isPlain at h
  generalize key.toList = cs at h ⊢
  induction cs with
  | nil => exact .close
  | cons c cs ih =>
      simp only [List.all_cons, Bool.and_eq_true, decide_eq_true_eq] at h
      exact .plain h.1.1.1 h.1.1.2 h.1.2 (ih h.2)

section

variable {key : String} {cs : List Char} {t : Tree} (hkey : isPlain key = true) (h : ValueText cs t)

include hkey h

theorem memberTexts_last :
    MemberTexts ('"' :: (key.toList ++ '"' :: ':' :: (cs ++ ['}']))) [(plain key, cs)] := by
  simpa using MemberTexts.last (stringText_plain hkey) isBlanks_nil isBlanks_nil h isBlanks_nil

theorem memberTexts_more {rest : List Char} {members : List (List Piece × List Char)}
    (hrest : MemberTexts rest members) :
    MemberTexts ('"' :: (key.toList ++ '"' :: ':' :: (cs ++ ',' :: rest)))
      ((plain key, cs) :: members) := by
  simpa using MemberTexts.more (stringText_plain hkey) isBlanks_nil isBlanks_nil h isBlanks_nil
    isBlanks_nil hrest

theorem membersText_last :
    MembersText ('"' :: (key.toList ++ '"' :: ':' :: (cs ++ ['}']))) [(plain key, t)] := by
  simpa using MembersText.last (stringText_plain hkey) isBlanks_nil isBlanks_nil h isBlanks_nil

theorem membersText_more {rest : List Char} {members : List (List Piece × Tree)}
    (hrest : MembersText rest members) :
    MembersText ('"' :: (key.toList ++ '"' :: ':' :: (cs ++ ',' :: rest)))
      ((plain key, t) :: members) := by
  simpa using MembersText.more (stringText_plain hkey) isBlanks_nil isBlanks_nil h isBlanks_nil
    isBlanks_nil hrest

end

end EventStream.Json
