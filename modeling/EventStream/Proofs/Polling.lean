import EventStream.Proofs.Polling.Cursor

/-! What the ticks of one poller find between them: each event once, unless it lies just where
the cursor has been left. -/

namespace EventStream

namespace World

section Run

variable {capacity replays : Nat} {start : Instant} {past : List (World × Move)} {w : World}

/-- After a tick has closed none is underway. -/
theorem idle_of_closes (run : Run Polls (.new capacity replays start) past w) {m : Move}
    (hm : w.Polls m) {k : TaskId} {batch : List Event} {newest after : Instant}
    (hc : Closes w (w.apply m) k batch newest after) (j : TaskId) :
    ((w.apply m).hub.task j).isTicking = false := by
  obtain ⟨live, targets, ht⟩ := hc.stage
  have hended : ((w.apply m).hub.task k).isTicking = false := by
    rw [hc.hub]
    change (update w.hub.task k _ k).isTicking = false
    rw [update_self]
    rfl
  have hw := tidy_of_polls run
  have hk : (w.hub.task k).isTicking = true := by rw [ht]; rfl
  cases hj : ((w.apply m).hub.task j).isTicking with
  | false => rfl
  | true =>
      rcases ticking_step (effect hw hm.possible) hj with hj' | ⟨rfl, -⟩
      · obtain rfl := ticking_unique run hj' hk
        rw [hended] at hj
        cases hj
      · rw [hm.alone rfl k (hw.lt_started_of_tick ht (by simp))] at hk
        cases hk

theorem covers_of_run (run : Run Polls (.new capacity replays start) past w)
    (hs : w.log.Spaced 1 start) : Covers (Polled past w) start w := by
  induction run with
  | nil =>
      have hnone : ∀ k e, ¬ Polled [] (.new capacity replays start) k e := by
        rintro k e ⟨-, v, es, hv, -⟩
        cases hv
      refine ⟨?_, ?_, ?_, .inl rfl, ?_, ?_, ?_, ?_⟩
      · exact fun i e hp => absurd hp (hnone i e)
      · exact fun i e hp => absurd hp (hnone i e)
      · exact fun i e hp => absurd hp (hnone i e)
      · rintro e ⟨r, hr, -⟩
        cases hr
      · exact fun i j e hp => absurd hp (hnone i e)
      · exact fun i j e hp => absurd hp (hnone i e)
      · intro k stage hk hu
        cases hk
        cases hu
  | @cons past w m run hm ih =>
      have hw := tidy_of_polls run
      have he := effect hw hm.possible
      have hg := grows_apply hm.appends
      have htr := traced_of_run run
      have h := ih (hs.of_grows hg)
      by_cases hcl : ∃ k batch newest after, Closes w (w.apply m) k batch newest after
      · obtain ⟨k, batch, newest, after, hc⟩ := hcl
        obtain ⟨live, targets, ht⟩ := hc.stage
        refine h.close hg hs hc (hw.lt_started_of_tick ht (by simp)) (fun j stage hj => ?_)
          (fun i e => ?_)
        · have hidle := idle_of_closes run hm hc j
          rwa [hj] at hidle
        · rw [polled_cons_iff htr he]
          refine or_congr_right ⟨?_, ?_⟩
          · rintro ⟨batch', newest', after', hc', hb⟩
            obtain ⟨rfl, rfl⟩ := hc.unique hc' fun j hj => ticking_unique run hj (by rw [ht]; rfl)
            exact ⟨rfl, hb⟩
          · rintro ⟨rfl, hb⟩
            exact ⟨batch, newest, after, hc, hb⟩
      · simp only [not_exists] at hcl
        have heq : Polled ((w, m) :: past) (w.apply m) = Polled past w := by
          funext k e
          apply propext
          rw [polled_cons_iff htr he]
          exact or_iff_left fun ⟨_, _, _, hc, _⟩ => hcl _ _ _ _ hc
        rw [heq]
        exact h.keep hg hs he.started_le (after_eq_of_not_closes hm he hcl)
          fun k stage hk hu => h.hand_step he hk hu

/-- What has been found stays so, and with it where the cursor has been left. -/
theorem polled_or_leavesAt_cons (run : Run Polls (.new capacity replays start) past w) {m : Move}
    (hm : w.Polls m) (hs : w.log.Spaced 1 start) {i : TaskId} {e : Event} {t : Int}
    (h : Polled past w i e ∨ LeavesAt (Polled past w) i t) :
    Polled ((w, m) :: past) (w.apply m) i e ∨
      LeavesAt (Polled ((w, m) :: past) (w.apply m)) i t := by
  have hw := tidy_of_polls run
  have hiff : ∀ x, Polled ((w, m) :: past) (w.apply m) i x ↔ _ := fun x =>
    polled_cons_iff (traced_of_run run) (effect hw hm.possible)
  rcases h with hp | ⟨d, hd, hmax, ht⟩
  · exact .inl ((hiff e).mpr (.inl hp))
  · refine .inr ⟨d, (hiff d).mpr (.inl hd), fun x hx => ?_, ht⟩
    rcases (hiff x).mp hx with hx | ⟨batch, newest, after, hc, -⟩
    · exact hmax x hx
    · obtain ⟨live, targets, hk⟩ := hc.stage
      have hh := (covers_of_run run hs).hand i _ hk rfl
      exact absurd (hh.last i d hd) (Nat.lt_irrefl i)

/-- What was in the log when a tick's query was answered is in the answer, or the cursor had
passed it before. -/
theorem answered_of_run (run : Run Polls (.new capacity replays start) past w)
    (hs : w.log.Spaced 1 start) {k : TaskId} (hk : ∃ stage, w.hub.task k = .tick stage)
    {v : World} {es : List Event} (hv : (v, Move.answer k (.ok es)) ∈ past) {e : Event}
    (he : v.log.Holds e) :
    e ∈ es ∨ ∃ i < k, Polled past w i e ∨ LeavesAt (Polled past w) i e.createdAt.micros := by
  induction run with
  | nil => cases hv
  | @cons past w m run hm ih =>
      have hw := tidy_of_polls run
      have hs' := hs.of_grows (grows_apply hm.appends)
      have h := covers_of_run run hs'
      obtain ⟨stage, hk⟩ := hk
      have hcame := (effect hw hm.possible).came k
      rw [hk] at hcame
      have hstep : (∃ i < k, Polled past w i e ∨ LeavesAt (Polled past w) i e.createdAt.micros) →
          ∃ i < k, Polled ((w, m) :: past) (w.apply m) i e ∨
            LeavesAt (Polled ((w, m) :: past) (w.apply m)) i e.createdAt.micros :=
        fun ⟨i, hi, hor⟩ => ⟨i, hi, polled_or_leavesAt_cons run hm hs' hor⟩
      rcases List.mem_cons.mp hv with heq | hold
      · cases heq
        cases hcame with
        | stays hne => exact absurd rfl hne
        | @answersTick after _ ht ha =>
            have hh := h.hand k _ ht rfl
            obtain rfl := hh.asked after rfl
            by_cases hlt : v.hub.checkpoint.after.micros < e.createdAt.micros
            · exact .inl ((mem_iff_of_mayAnswer ha).mpr ⟨he, hlt⟩)
            · obtain ⟨i, hor⟩ := h.covered e he (by omega)
              refine .inr (hstep ⟨i, ?_, hor⟩)
              rcases hor with hp | ⟨d, hd, -⟩
              · exact hh.last i e hp
              · exact hh.last i d hd
      · have htick : ∃ stage, w.hub.task k = .tick stage := by
          cases hcame with
          | stays _ ht => exact ⟨_, ht⟩
          | startsTick hks =>
              have hlt := (traced_of_run run).started v k _ hold
              exact absurd hlt (Nat.not_lt.mpr (Nat.le_of_eq hks.symm))
          | answersTick ht => exact ⟨_, ht⟩
          | movesTick ht => exact ⟨_, ht⟩
        exact (ih hs' htick hold).imp_right hstep

/-- An event that was in the log when the query of a successful tick was answered belongs to
the batch of exactly one successful tick, that one or one before, unless the time of the event
is the very microsecond to which a tick before had moved the cursor. -/
theorem polled_once_iff (run : Run Polls (.new capacity replays start) past w)
    (hs : w.log.Spaced 1 start) {k : TaskId} (hk : (w.hub.task k).isPolled = true) {v : World}
    {es : List Event} (hv : (v, Move.answer k (.ok es)) ∈ past) {e : Event}
    (he : v.log.Holds e) :
    (∃ j ≤ k, Polled past w j e ∧ ∀ i, Polled past w i e → i = j) ↔
      ¬ ∃ i < k, LeavesAt (Polled past w) i e.createdAt.micros := by
  have h := covers_of_run run hs
  have htick : ∃ stage, w.hub.task k = .tick stage := by
    cases ht : w.hub.task k with
    | replay r => rw [ht] at hk; cases hk
    | tick stage => exact ⟨stage, rfl⟩
  constructor
  · rintro ⟨j, -, hj, -⟩ ⟨i, -, hi⟩
    exact h.apart j i e hj hi
  · intro hnot
    rcases answered_of_run run hs htick hv he with hmem | ⟨i, hi, hp | hl⟩
    · have hp : Polled past w k e := ⟨hk, v, es, hv, hmem⟩
      exact ⟨k, Nat.le_refl k, hp, fun j hj => h.once j k e hj hp⟩
    · exact ⟨i, Nat.le_of_lt hi, hp, fun j hj => h.once j i e hj hp⟩
    · exact absurd ⟨i, hi, hl⟩ hnot

end Run

/-- Up to the third tick's query: the first tick fails, the second one has two events. -/
def thirdQuery : List Move :=
  [Move.append (policyAt 1000), .startTick, .advance 0, .answer 0 (.error .aborted), .advance 0,
    .append (policyAt 2000), .startTick, .advance 1,
    .answer 1 (.ok [(policyAt 1000).event 1, (policyAt 2000).event 2])] ++
  List.replicate 6 (Move.advance 1) ++ [Move.append (policyAt 2002), .startTick, .advance 2]

theorem polled_once_iff_of_thirdQuery :
    let past := (new 8 8 .epoch).history [] (thirdQuery ++
      .answer 2 (.ok [(policyAt 2002).event 3]) :: List.replicate 5 (.advance 2))
    let w := (new 8 8 .epoch).applyAll (thirdQuery ++
      .answer 2 (.ok [(policyAt 2002).event 3]) :: List.replicate 5 (.advance 2))
    let e := (policyAt 2000).event 2
    Polled past w 1 e ∧
      ((∃ j ≤ 2, Polled past w j e ∧ ∀ i, Polled past w i e → i = j) ↔
        ¬ ∃ i < 2, LeavesAt (Polled past w) i e.createdAt.micros) := by
  intro past w e
  have run : Run Polls (new 8 8 .epoch) past w := Follows.run (by decide +kernel) .nil
  have hanswer : ((new 8 8 .epoch).applyAll thirdQuery,
      .answer 2 (.ok [(policyAt 2002).event 3])) ∈ past := mem_history _ _ thirdQuery _ _
  refine ⟨by decide +kernel, polled_once_iff run ?_ ?_ hanswer ?_⟩
  · decide +kernel
  · decide +kernel
  · decide +kernel

/-- Up to the second tick's query: the event that the first tick has not seen comes one
microsecond after the one that it has. -/
def nextMicrosecond : List Move :=
  [Move.connect, .subscribe 0 ⟨.systemEvents, none⟩] ++ List.replicate 5 (Move.advance 0) ++
  [Move.append (policyAt 100000), .startTick, .advance 1,
    .answer 1 (.ok [(policyAt 100000).event 1])] ++
  List.replicate 7 (Move.advance 1) ++ [Move.append (policyAt 100001), .startTick, .advance 2]

/-- A tick that succeeds can leave an event to no tick at all. -/
theorem nextMicrosecond_unpolled :
    let before := (new 8 8 .epoch).applyAll nextMicrosecond
    let past := (new 8 8 .epoch).history [] (nextMicrosecond ++ [.answer 2 (.ok []), .advance 2])
    let w := (new 8 8 .epoch).applyAll (nextMicrosecond ++ [.answer 2 (.ok []), .advance 2])
    let e := (policyAt 100001).event 2
    Run Polls (new 8 8 .epoch) past w ∧ w.log.Spaced 1 .epoch ∧
      (w.hub.task 2).isPolled = true ∧ (before, .answer 2 (.ok [])) ∈ past ∧
      before.log.Holds e ∧ ¬ ∃ j, Polled past w j e := by
  have run : Run Polls (new 8 8 .epoch)
      ((new 8 8 .epoch).history [] (nextMicrosecond ++ [.answer 2 (.ok []), .advance 2]))
      ((new 8 8 .epoch).applyAll (nextMicrosecond ++ [.answer 2 (.ok []), .advance 2])) :=
    Follows.run (by decide +kernel) .nil
  refine ⟨run, by decide +kernel, by decide +kernel, mem_history _ _ nextMicrosecond _ _,
    by decide +kernel, ?_⟩
  rintro ⟨j, hj⟩
  have hlt := (traced_of_run run).lt_started hj.2
  revert hj
  revert hlt
  revert j
  decide +kernel

end World

end EventStream
