import EventStream.Checkpoint
import EventStream.Task

/-! Whole microseconds. On instants that are whole and outside leap seconds, as all stored
times are, the order is that of the microseconds and the neighbours are one apart. -/

namespace EventStream

namespace Instant

/-- A whole microsecond that is no part of a leap second. -/
def IsWhole (t : Instant) : Prop := t.nano < 1000000000 ∧ t.nano % 1000 = 0

instance (t : Instant) : Decidable t.IsWhole := inferInstanceAs (Decidable (_ ∧ _))

theorem lt_iff_key {a b : Instant} : a < b ↔ a.key < b.key := Iff.rfl

theorem le_iff_key {a b : Instant} : a ≤ b ↔ a.key ≤ b.key := Iff.rfl

theorem ofUnix?_eq_some {second : Int} {nano : Nat} {t : Instant}
    (h : ofUnix? second nano = some t) : t.second = second ∧ t.nano = nano := by
  unfold ofUnix? at h
  split at h
  · cases h; exact ⟨rfl, rfl⟩
  · cases h

theorem ofUnix?_isSome_iff {second : Int} {nano : Nat} :
    (ofUnix? second nano).isSome = true ↔ InRange second nano := by
  unfold ofUnix?
  split <;> simpa

/-! ### Reading stored times -/

theorem ofMicros?_eq_some {n : Int} {t : Instant} (h : ofMicros? n = some t) :
    t.IsWhole ∧ t.micros = n := by
  obtain ⟨hs, hn⟩ := ofUnix?_eq_some h
  refine ⟨⟨?_, ?_⟩, ?_⟩
  · rw [hn]; omega
  · rw [hn]; omega
  · simp only [micros, hs, hn]; omega

theorem isWhole_of_ofMillis? {n : Int} {t : Instant} (h : ofMillis? n = some t) : t.IsWhole := by
  obtain ⟨-, hn⟩ := ofUnix?_eq_some h
  exact ⟨by rw [hn]; omega, by rw [hn]; omega⟩

/-! ### Order -/

theorem lt_of_micros_lt {a b : Instant} (hb : b.IsWhole) (h : a.micros < b.micros) : a < b := by
  have ha := a.inRange
  simp only [InRange] at ha
  simp only [IsWhole] at hb
  simp only [micros] at h
  simp only [lt_iff_key, key]
  omega

/-- The instant on the left may have a part below the microsecond. -/
theorem micros_lt_of_lt {a b : Instant} (ha : a.nano < 1000000000) (hb : b.IsWhole) (h : a < b) :
    a.micros < b.micros := by
  simp only [IsWhole] at hb
  simp only [lt_iff_key, key] at h
  simp only [micros]
  omega

theorem lt_iff_micros_lt {a b : Instant} (ha : a.IsWhole) (hb : b.IsWhole) :
    a < b ↔ a.micros < b.micros :=
  ⟨micros_lt_of_lt ha.1 hb, lt_of_micros_lt hb⟩

theorem le_iff_micros_le {a b : Instant} (ha : a.IsWhole) (hb : b.IsWhole) :
    a ≤ b ↔ a.micros ≤ b.micros := by
  have h := lt_iff_micros_lt hb ha
  simp only [lt_iff_key] at h
  simp only [le_iff_key]
  omega

/-- The instant on the right may lie in a leap second. -/
theorem micros_le_of_le {a b : Instant} (ha : a.IsWhole) (h : a ≤ b) : a.micros ≤ b.micros := by
  by_cases hlt : b.micros < a.micros
  · have := lt_of_micros_lt ha hlt
    simp only [lt_iff_key] at this
    simp only [le_iff_key] at h
    omega
  · omega

theorem max_eq (a b : Instant) : max a b = if a ≤ b then b else a := rfl

theorem max_eq_or (a b : Instant) : max a b = a ∨ max a b = b := by
  rw [max_eq]
  split
  · exact .inr rfl
  · exact .inl rfl

theorem le_max_left (a b : Instant) : a ≤ max a b := by
  rw [max_eq]
  split
  · assumption
  · exact Int.le_refl _

theorem le_max_right (a b : Instant) : b ≤ max a b := by
  rw [max_eq]
  split
  · exact Int.le_refl _
  · next h => exact Int.le_of_lt (Int.not_le.1 h)

/-! ### Neighbours -/

theorem next?_eq_some {t u : Instant} (ht : t.IsWhole) (h : t.next? = some u) :
    u.IsWhole ∧ u.micros = t.micros + 1 := by
  simp only [IsWhole] at ht
  simp only [next?, ht.1, ite_true] at h
  split at h
  · obtain ⟨hs, hn⟩ := ofUnix?_eq_some h
    refine ⟨⟨by omega, by omega⟩, ?_⟩
    simp only [micros, hs, hn]; omega
  · obtain ⟨hs, hn⟩ := ofUnix?_eq_some h
    refine ⟨⟨by omega, by omega⟩, ?_⟩
    simp only [micros, hs, hn]; omega

theorem prev?_eq_some {t u : Instant} (ht : t.IsWhole) (h : t.prev? = some u) :
    u.IsWhole ∧ u.micros = t.micros - 1 := by
  simp only [IsWhole] at ht
  simp only [prev?] at h
  split at h
  · obtain ⟨hs, hn⟩ := ofUnix?_eq_some h
    refine ⟨⟨by omega, by omega⟩, ?_⟩
    simp only [micros, hs, hn]; omega
  · obtain ⟨hs, hn⟩ := ofUnix?_eq_some h
    refine ⟨⟨by omega, by omega⟩, ?_⟩
    simp only [micros, hs, hn]; omega

end Instant

/-! ### The poller's cursor -/

namespace Checkpoint

@[simp] theorem advanceTo_announced (c : Checkpoint) (t : Instant) :
    (c.advanceTo t).announced = c.announced := by
  unfold advanceTo
  split <;> rfl

theorem advanceTo_after_eq_or (c : Checkpoint) (t : Instant) :
    (c.advanceTo t).after = c.after ∨ (c.advanceTo t).after = t := by
  unfold advanceTo
  split
  · exact .inr rfl
  · exact .inl rfl

theorem advanceTo_after_of_lt {c : Checkpoint} {t : Instant} (ht : t.IsWhole)
    (h : c.after.micros < t.micros) : (c.advanceTo t).after = t := by
  simp [advanceTo, Instant.lt_of_micros_lt ht h]

/-- Moving the cursor to a whole microsecond puts it at or after that and loses nothing. -/
theorem micros_advanceTo {c : Checkpoint} {t : Instant} (ht : t.IsWhole)
    (hc : c.after.IsWhole ∨ c.after.micros < t.micros) :
    (c.advanceTo t).after.micros = max c.after.micros t.micros := by
  rcases hc with hc | hc
  · unfold advanceTo
    split
    · next h => have := (Instant.lt_iff_micros_lt hc ht).mp h; simp only; omega
    · next h => rw [Instant.lt_iff_micros_lt hc ht] at h; omega
  · rw [advanceTo_after_of_lt ht hc]
    omega

end Checkpoint

namespace Replay

/-! ### The latest time seen -/

theorem later_eq (newest : Option Instant) (t : Instant) :
    later newest t = t ∨ newest = some (later newest t) := by
  cases newest with
  | none => exact .inl rfl
  | some u =>
      rcases Instant.max_eq_or u t with h | h
      · exact .inr (by simp [later, h])
      · exact .inl (by simp [later, h])

theorem le_later (newest : Option Instant) (t : Instant) : t ≤ later newest t := by
  cases newest with
  | none => exact Int.le_refl _
  | some u => exact Instant.le_max_right u t

theorem later_le (newest : Option Instant) (t : Instant) {u : Instant} (h : newest = some u) :
    u ≤ later newest t := by
  subst h
  exact Instant.le_max_left u t

end Replay

end EventStream
