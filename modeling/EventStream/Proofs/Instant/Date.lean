import EventStream.Instant.Date

/-! Dates and day numbers: every day number is that of its date. -/

namespace EventStream.Date

/-- A day of an era lies in the year that `yearOfEra` gives. -/
theorem yearOfEra_spec {d : Nat} (hd : d < 146097) :
    yearOfEra d < 400 ∧ daysBefore (yearOfEra d) ≤ d ∧ d < daysBefore (yearOfEra d) + 366 := by
  unfold daysBefore yearOfEra
  rcases (by omega : d = 146096 ∨ d / 146096 = 0) with rfl | hlast
  · decide
  · rw [hlast]
    -- in each century the number of years is a linear bound away
    rcases (by omega : d / 36524 = 0 ∨ d / 36524 = 1 ∨ d / 36524 = 2 ∨ d / 36524 = 3) with
      h | h | h | h <;> rw [h] <;> generalize hy : (d - d / 1460 + _ - 0) / 365 = y
    · rcases (by omega : y / 100 = 0 ∨ y / 100 = 1) with hc | hc <;> omega
    · rcases (by omega : y / 100 = 1 ∨ y / 100 = 2) with hc | hc <;> omega
    · rcases (by omega : y / 100 = 2 ∨ y / 100 = 3) with hc | hc <;> omega
    · rcases (by omega : y / 100 = 3 ∨ y / 100 = 4) with hc | hc <;> omega

/-- The day number of a date whose year is counted from March on. -/
theorem toDays_mk (year : Int) (month day : Nat) (hmonth : month < 12) :
    toDays { year := year + if month < 10 then 0 else 1
             month := if month < 10 then month + 3 else month - 9, day } =
      year / 400 * 146097 + daysBefore (year % 400).toNat +
        ((153 * month + 2) / 5 + day - 1 : Nat) - 719468 := by
  unfold toDays
  by_cases h : month < 10
  · simp only [if_pos h, Int.add_zero]
    rw [if_neg (by omega), if_neg (by omega), Nat.add_sub_cancel]
  · simp only [if_neg h]
    rw [if_pos (by omega), if_pos (by omega), Int.add_sub_cancel, Nat.sub_add_cancel (by omega)]

theorem toDays_ofDays (days : Int) : (ofDays days).toDays = days := by
  have hera : ((days + 719468) % 146097).toNat < 146097 := by omega
  obtain ⟨hyear, hbefore, hafter⟩ := yearOfEra_spec hera
  have hdays : (((days + 719468) % 146097).toNat : Int) = (days + 719468) % 146097 := by omega
  unfold ofDays
  simp only
  rw [toDays_mk _ _ _ (by omega)]
  generalize ((days + 719468) % 146097).toNat = day at *
  generalize yearOfEra day = year at *
  have hquot : ((days + 719468) / 146097 * 400 + (year : Int)) / 400 =
      (days + 719468) / 146097 := by omega
  have hrem : (((days + 719468) / 146097 * 400 + (year : Int)) % 400).toNat = year := by omega
  have hday : (153 * ((5 * (day - daysBefore year) + 2) / 153) + 2) / 5 +
      (day - daysBefore year - (153 * ((5 * (day - daysBefore year) + 2) / 153) + 2) / 5 + 1) - 1 =
      day - daysBefore year := by omega
  rw [hquot, hrem, hday]
  omega

theorem month_ofDays (days : Int) : 1 ≤ (ofDays days).month ∧ (ofDays days).month ≤ 12 := by
  have hera : ((days + 719468) % 146097).toNat < 146097 := by omega
  obtain ⟨-, -, hafter⟩ := yearOfEra_spec hera
  simp only [ofDays]
  split <;> omega

theorem day_ofDays (days : Int) : 1 ≤ (ofDays days).day ∧ (ofDays days).day ≤ 31 := by
  simp only [ofDays]
  omega

end EventStream.Date
