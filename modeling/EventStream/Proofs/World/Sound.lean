import EventStream.Proofs.World.Cost
import EventStream.Proofs.World.Lock

/-! What holds however queries are answered: who is numbered, who holds the locks and which
connections are withheld from live events. -/

namespace EventStream

namespace World

variable {k : TaskId} {w : World} {m : Move} {past : List (World × Move)}

/-- Like `Possible`, but queries may bring anything. -/
def Conceivable (w : World) (m : Move) : Prop := m.answered? = none → w.Possible m

/-- Who is numbered, who holds locks and which connections are withheld is as it must be. -/
structure Sound (w : World) : Prop where
  tidy : w.hub.Tidy
  locked : w.Locked
  withheld : w.Withheld

/-- An answer takes the task whose query it is from asking to answered, and no other task
anywhere. -/
inductive AnsweredTo (j : TaskId) (a : Answer) (k : TaskId) : Task → Task → Prop where
  | stays {t} : AnsweredTo j a k t t
  | replay {r : Replay} {purpose} (hkj : k = j) (hs : r.stage = .asking purpose) :
      AnsweredTo j a k (.replay r) (.replay { r with stage := .answered purpose a })
  | tick {after} (hkj : k = j) : AnsweredTo j a k (.tick (.asking after)) (.tick (.answered a))

theorem answeredTo (w : World) (j : TaskId) (a : Answer) (k : TaskId) :
    AnsweredTo j a k (w.hub.task k) ((w.apply (.answer j a)).hub.task k) := by
  have hupdate {t : Task} (ht : AnsweredTo j a j (w.hub.task j) t) :
      AnsweredTo j a k (w.hub.task k) (update w.hub.task j t k) := by
    by_cases hkj : k = j
    · subst hkj
      rw [update_self]
      exact ht
    · rw [update_of_ne _ _ hkj]
      exact .stays
  change AnsweredTo j a k _ ((w.hub.answer j a).task k)
  cases ht : w.hub.task j with
  | tick stage =>
      cases stage with
      | asking after =>
          simp only [Hub.answer, ht]
          exact hupdate (by rw [ht]; exact .tick rfl)
      | _ => simpa only [Hub.answer, ht] using .stays
  | replay r =>
      cases hs : r.stage with
      | asking purpose =>
          simp only [Hub.answer, ht, hs]
          exact hupdate (by rw [ht]; exact .replay rfl hs)
      | _ => simpa only [Hub.answer, ht, hs] using .stays

theorem lockLine_answer (w : World) (j : TaskId) (a : Answer) :
    (w.apply (.answer j a)).hub.lockLine = w.hub.lockLine := by
  simp only [apply, onHub, Hub.answer]
  repeat' split
  all_goals rfl

theorem checkpoint_answer (w : World) (j : TaskId) (a : Answer) :
    (w.apply (.answer j a)).hub.checkpoint = w.hub.checkpoint := by
  simp only [apply, onHub, Hub.answer]
  repeat' split
  all_goals rfl

theorem Sound.answer (h : w.Sound) (j : TaskId) (a : Answer) :
    (w.apply (.answer j a)).Sound where
  tidy := h.tidy.answer j a
  locked := by
    intro k r hk hl
    have hcame := w.answeredTo j a k
    rw [hk] at hcame
    rw [lockLine_answer]
    generalize ht : w.hub.task k = t at hcame
    cases hcame with
    | stays => exact h.locked k r ht hl
    | @replay q _ _ hs => exact h.locked k q ht (by rw [hs]; rfl)
  withheld := by
    intro k r hk hb
    have hcame := w.answeredTo j a k
    rw [hk] at hcame
    change ((w.hub.answer j a).subscriber r.connection).phase.isReplaying = true
    rw [w.hub.answer_subscriber j a]
    generalize ht : w.hub.task k = t at hcame
    cases hcame with
    | stays => exact h.withheld k r ht hb
    | @replay q _ _ hs => exact h.withheld k q ht (by rw [hs]; rfl)

theorem Sound.step (h : w.Sound) (hm : w.Conceivable m) : (w.apply m).Sound := by
  cases ha : m.answered? with
  | none =>
      have he := effect h.tidy (hm ha)
      exact ⟨tidy_apply h.tidy (hm ha), locked_step h.locked he,
        withheld_step h.locked h.withheld he⟩
  | some j =>
      cases m with
      | answer j a => exact h.answer j a
      | _ => cases ha

/-- Others leave a replay where it is and, once it has begun, its subscriber's events and gate. -/
theorem Sound.stays (h : w.Sound) {r : Replay} (hk : w.hub.task k = .replay r) (hm : w.Possible m)
    (hown : m ≠ .advance k) (ha : m.answered? ≠ some k) :
    (w.apply m).hub.task k = .replay r ∧ (r.stage.hasBegun = true →
      Subscriber.Alike (w.hub.subscriber r.connection)
        ((w.apply m).hub.subscriber r.connection)) := by
  have heffect := effect h.tidy hm
  refine ⟨?_, fun hb => ?_⟩
  · rcases heffect.replay_next h.tidy hk with ht | ⟨_, _, rfl, -⟩ | ⟨_, _, rfl, -⟩
    · exact ht
    · exact absurd rfl ha
    · exact absurd rfl hown
  · rcases touches_of_hasBegun h.locked h.withheld hk hb heffect with halike | ⟨_, rfl, -⟩
    · exact halike
    · exact absurd rfl hown

/-- A replay ends by a step of its own. -/
theorem Sound.isEnded_eq (h : w.Sound) {r : Replay} (hk : w.hub.task k = .replay r)
    (hm : w.Conceivable m) (hown : m ≠ .advance k) :
    ((w.apply m).hub.task k).isEnded = (w.hub.task k).isEnded := by
  cases ha : m.answered? with
  | none => rw [(h.stays hk (hm ha) hown (by simp [ha])).1, hk]
  | some j =>
      cases m with
      | answer i a =>
          have hcame := w.answeredTo i a k
          generalize (w.apply (.answer i a)).hub.task k = t at hcame
          generalize w.hub.task k = t' at hcame
          cases hcame with
          | stays => rfl
          | replay _ hs => simp only [Task.isEnded, hs, Replay.Stage.isEnded]
          | tick => rfl
      | _ => cases ha

theorem sound_of_run {capacity replays : Nat} {start : Instant}
    (run : Run Conceivable (.new capacity replays start) past w) : w.Sound := by
  induction run with
  | nil =>
      refine ⟨Hub.tidy_new capacity replays start, ?_, ?_⟩
      all_goals
        intro k r hk
        cases hk
  | cons _ hm ih => exact ih.step hm

end World

end EventStream
