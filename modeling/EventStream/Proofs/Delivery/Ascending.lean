import EventStream.Proofs.Delivery.Due

/-! The batches of ticks in any run. The log never answers with two events of one id, so batches
ascend once they are sorted, and no tick offers an id that has not been announced. -/

namespace EventStream

namespace Tick

/-- The answer has each id once; from then on the batch is in the order of ids. -/
def Stage.IsSound : Stage → Prop
  | .answered (.ok events) => events.Pairwise (·.id ≠ ·.id)
  | stage => stage.IsOrdered

theorem Stage.IsSound.isOrdered {stage : Stage} (h : stage.IsSound)
    (ha : stage.isAnnounced = true) : stage.IsOrdered := by
  cases stage with
  | picking => exact h
  | broadcasting => exact h
  | _ => cases ha

section Next

variable {h : Hub} {stage stage' : Stage} {checkpoint : Checkpoint}
  {subscriber : ConnectionId → Subscriber}

theorem isSound_of_next (hn : Next h stage stage' checkpoint subscriber) (ho : stage.IsSound) :
    stage'.IsSound := by
  have hordered := isOrdered_of_next hn
  cases hn with
  | sort => exact Event.sortById_ascending ho
  | fail => exact .nil
  | idle => exact .nil
  | ask => exact .nil
  | _ => exact hordered ho

end Next

end Tick

namespace World

theorem pairwise_ne_of_mayAnswer {log : Log} {cursor : Instant} {events : List Event}
    (h : MayAnswer (log.eventsAfter cursor) (.ok events)) : events.Pairwise (·.id ≠ ·.id) := by
  cases hf : log.eventsAfter cursor with
  | error failure => rw [hf] at h; exact h.elim
  | ok found =>
      rw [hf] at h
      have hne : found.Pairwise (·.id ≠ ·.id) :=
        (Log.eventsAfter_ascending hf).imp fun hlt => by omega
      exact hne.perm h.symm fun hab => Ne.symm hab

/-- Batches ascend, and what a tick has begun to offer has been announced. -/
structure Ascending (w : World) : Prop where
  sound : ∀ j stage, w.hub.task j = .tick stage → stage.IsSound
  announced : ∀ j stage, w.hub.task j = .tick stage → stage.isAnnounced = true →
    ∀ x ∈ stage.batch, x.id ≤ w.hub.checkpoint.announced

theorem ascending_step {w w' : World} {m : Move} (h : w.Ascending) (he : Effect w m w') :
    w'.Ascending := by
  have hann := he.announced_le
  refine ⟨fun j stage hj => ?_, fun j stage hj ha => ?_⟩
  · have hc := he.came j
    rw [hj] at hc
    cases hc with
    | stays _ ht => exact h.sound j stage ht
    | startsTick => exact .nil
    | @answersTick after a ht hans =>
        cases a with
        | error failure => exact .nil
        | ok events => exact pairwise_ne_of_mayAnswer hans
    | movesTick ht hn => exact Tick.isSound_of_next hn (h.sound j _ ht)
  · have hc := he.came j
    rw [hj] at hc
    cases hc with
    | stays _ ht => exact fun x hx => Int.le_trans (h.announced j stage ht ha x hx) hann
    | startsTick => cases ha
    | answersTick => cases ha
    | @movesTick before _ _ _ ht hn hw =>
        rw [hw]
        have hs := h.sound j before ht
        refine Tick.id_le_of_next hn ?_ (h.announced j before ht) ha
        rcases Tick.isAnnounced_cases hn ha with hb | ⟨batch, rfl, -⟩
        · exact (hs.isOrdered hb).pairwise
        · exact hs

theorem ascending_of_run {capacity replays : Nat} {start : Instant} {past : List (World × Move)}
    {w : World} (run : Run Possible (.new capacity replays start) past w) : w.Ascending := by
  induction run with
  | nil =>
      refine ⟨fun j stage hj => ?_, fun j stage hj ha => ?_⟩
      · cases hj
        exact .nil
      · cases hj
        cases ha
  | cons run hm ih => exact ascending_step ih (effect (tidy_of_run run) hm)

end World

end EventStream
