import EventStream.Proofs.Delivery.Order

/-! Replays that go on to their end. What a query has found lies after some instant, so that
there is one just before it, and no replay breaks off for want of a floor. -/

namespace EventStream

/-- What comes after another instant has an instant just before it. -/
theorem Instant.prev?_isSome {t u : Instant} (ht : t.IsWhole) (h : u.micros < t.micros) :
    t.prev?.isSome = true := by
  have hu := u.inRange
  have hrange := t.inRange
  simp only [InRange, minSecond, maxSecond] at hu hrange
  simp only [IsWhole] at ht
  simp only [micros] at h
  unfold prev? ofUnix?
  split
  · rw [dif_pos ⟨hrange.1, hrange.2.1, by omega, by omega⟩]
    rfl
  · rw [dif_pos (by simp only [InRange, minSecond, maxSecond]; omega)]
    rfl

namespace Replay

theorem floorBelow?_isSome {newest : Option Instant} (h : ∀ t ∈ newest, t.prev?.isSome = true)
    (cursor : Instant) : (floorBelow? newest cursor).isSome = true := by
  cases newest with
  | none => rfl
  | some t => simpa [floorBelow?] using h t rfl

/-- The latest time among the events that a round has dealt with. -/
def Stage.newest? : Stage → Option Instant
  | delivering _ _ newest => newest
  | _ => none

/-- There is an instant just before each event in hand and before the latest dealt with, and
what is about to be confirmed is confirmed whatever is missing. -/
structure Stage.IsUnbroken (stage : Stage) : Prop where
  events : ∀ e ∈ stage.events, e.createdAt.prev?.isSome = true
  newest : ∀ t ∈ stage.newest?, t.prev?.isSome = true
  unasked : stage ≠ .confirming .reconciled

theorem isUnbroken_of_next {announced : Int} {request : Subscription} {stage stage' : Stage}
    {s t : Subscriber} (hn : Next announced request stage s stage' t) (h : stage.IsUnbroken) :
    stage'.IsUnbroken where
  events := fun e he => h.events e (hn.mem_events he)
  newest := by
    intro u hu
    cases hn with
    | skip | stale | queue =>
        cases hu
        rcases later_eq _ _ with heq | heq
        · rw [heq]
          exact h.events _ List.mem_cons_self
        · exact h.newest _ heq
    | _ => cases hu
  unasked := by cases hn <;> simp

end Replay

namespace World

/-- No replay can break off for want of a floor. -/
def Unbroken (w : World) : Prop := ∀ k r, w.hub.task k = .replay r → r.stage.IsUnbroken

theorem unbroken_step {w w' : World} {m : Move} (h : w.Unbroken) (he : Effect w m w') :
    w'.Unbroken := by
  intro k r hk
  have hc := he.came k
  rw [hk] at hc
  cases hc with
  | stays _ ht => exact h k r ht
  | subscribes => exact ⟨fun _ he => (nomatch he), fun _ ht => (nomatch ht), by simp⟩
  | @answersReplay q purpose a ht hs ha =>
      refine ⟨fun e hmem => ?_, fun t ht => (nomatch ht), by simp⟩
      cases a with
      | error failure => cases hmem
      | ok events =>
          obtain ⟨hheld, hafter⟩ := (mem_iff_of_mayAnswer ha).mp hmem
          exact Instant.prev?_isSome hheld.isWhole hafter
  | movesReplay ht hn => exact Replay.isUnbroken_of_next hn (h k _ ht)

theorem unbroken_of_run {capacity replays : Nat} {start : Instant} {past : List (World × Move)}
    {w : World} (run : Run Possible (.new capacity replays start) past w) : w.Unbroken := by
  induction run with
  | nil => intro k r hk; cases hk
  | cons run hm ih => exact unbroken_step ih (effect (tidy_of_run run) hm)

end World

end EventStream
