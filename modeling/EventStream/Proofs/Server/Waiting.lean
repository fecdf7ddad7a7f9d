import EventStream.Proofs.Server.Run
import EventStream.Proofs.World.Permits

/-! What unfinished tasks wait for once no task can go on. All waiting comes down to queries whose
answers are held, so nothing is left unfinished when none is. -/

namespace EventStream

namespace Task

/-- At a query, or with an answer that has not been taken up. -/
def isInQuery : Task → Bool
  | replay { stage := .asking _, .. } => true
  | replay { stage := .answered .., .. } => true
  | tick (.asking _) => true
  | tick (.answered _) => true
  | _ => false

/-- Where a task is whose answer is held: it has not taken up what the log has found, or it was a
replay and has been dropped. -/
def isHoldable : Task → Bool
  | replay { stage := .answered _ (.ok _), .. } => true
  | replay { stage := .ended, .. } => true
  | tick (.answered (.ok _)) => true
  | _ => false

theorem isInQuery_of_isHoldable {t : Task} (h : t.isHoldable = true) (hne : t.isEnded = false) :
    t.isInQuery = true := by
  cases t with
  | replay r =>
      obtain ⟨c, request, stage⟩ := r
      cases stage with
      | answered => rfl
      | ended => cases hne
      | _ => cases h
  | tick stage =>
      cases stage with
      | answered => rfl
      | _ => cases h

theorem question?_of_isHoldable {t : Task} (h : t.isHoldable = true) : t.question? = none := by
  cases t with
  | replay r =>
      obtain ⟨c, request, stage⟩ := r
      cases stage with
      | asking => cases h
      | _ => rfl
  | tick stage =>
      cases stage with
      | asking => cases h
      | _ => rfl

end Task

namespace Gate

theorem holds_iff {g : Gate} {k : TaskId} : g.holds k = true ↔ ∃ name, (name, k) ∈ g.held := by
  simp only [holds, List.any_eq_true, decide_eq_true_eq, Prod.exists]
  constructor
  · rintro ⟨name, j, hmem, rfl⟩
    exact ⟨name, hmem⟩
  · rintro ⟨name, hmem⟩
    exact ⟨name, k, hmem, rfl⟩

/-- Letting an answer go lets no other answer be held. -/
theorem holds_of_release {g : Gate} {name : String} {k : TaskId}
    (h : ((g.release? name).getD g).holds k = true) : g.holds k = true := by
  simp only [release?] at h
  split at h
  · obtain ⟨held, hmem⟩ := holds_iff.mp h
    exact holds_iff.mpr ⟨held, List.mem_of_mem_eraseP hmem⟩
  · exact h

/-- A query adds to what is held at most its own answer, and that only if the log has given it. -/
theorem holds_of_ask {g : Gate} {log : Log} {k j : TaskId} {after : Instant}
    (h : (g.ask log k after).1.holds j = true) :
    g.holds j = true ∨ j = k ∧ ∃ events, (g.ask log k after).2 = .ok events := by
  simp only [ask] at h ⊢
  generalize g.script.headD .pass = verdict at h ⊢
  generalize log.eventsAfter after = found at h ⊢
  generalize g.armed = armed at h ⊢
  cases verdict with
  | fail => exact .inl h
  | crash => exact .inl h
  | pass =>
      cases found with
      | error e => exact .inl h
      | ok events =>
          cases armed with
          | nil => exact .inl h
          | cons name armed =>
              obtain ⟨held, hmem⟩ := holds_iff.mp h
              rcases List.mem_append.mp hmem with hmem | hmem
              · exact .inl (holds_iff.mpr ⟨held, hmem⟩)
              · cases List.mem_singleton.mp hmem
                exact .inr ⟨rfl, _, rfl⟩

end Gate

namespace Server

/-- Only answers to queries are held. -/
def Kept (s : Server) : Prop := ∀ k, s.gate.holds k = true → (s.hub.task k).isHoldable = true

theorem isHoldable_answer {h : Hub} {k : TaskId} {events : List Event} {after : Instant}
    (hq : (h.task k).question? = some after) :
    ((h.answer k (.ok events)).task k).isHoldable = true := by
  cases ht : h.task k with
  | replay r =>
      obtain ⟨c, request, stage⟩ := r
      cases stage with
      | asking purpose => simp [Hub.answer, ht, Hub.setStage, Hub.setTask, Task.isHoldable]
      | _ => rw [ht] at hq; cases hq
  | tick stage =>
      cases stage with
      | asking after => simp [Hub.answer, ht, Hub.setTick, Hub.setTask, Task.isHoldable]
      | _ => rw [ht] at hq; cases hq

/-- A replay that sees its cancellation first is dropped. -/
theorem isHoldable_advance {h : Hub} {k : TaskId} (hmay : h.mayDrop k = true) :
    (((h.toss true).advance k).task k).isHoldable = true := by
  cases ht : h.task k with
  | replay r =>
      simp only [Hub.mayDrop, ht] at hmay
      have hcan : (h.toss true).canAdvance k = true := by
        simp only [Hub.canAdvance, Hub.toss, ht]
        exact Bool.or_eq_true_iff.mpr (.inl (Bool.or_eq_true_iff.mpr (.inl hmay)))
      have hdrop : (h.toss true).isDropped k r = true := by
        simp only [Hub.isDropped, Hub.toss, Bool.true_or, Bool.and_true]
        exact hmay
      simp only [Hub.advance, hcan, ite_true, hdrop, show (h.toss true).task k = .replay r from ht]
      simp [Hub.finish, Hub.setStage, Hub.setTask, Task.isHoldable]
  | tick stage => simp [Hub.mayDrop, ht] at hmay

theorem kept_step {s : Server} {k : TaskId} (hw : s.hub.Tidy) (hk : s.canStep k = true)
    (h : s.Kept) : (s.step k).Kept := by
  obtain ⟨b, m, hm, hworld⟩ := steps_of_canStep hk
  have htossed : (s.world.apply (.toss b)).hub.Tidy := World.tidy_apply hw trivial
  have hothers : ∀ j, j ≠ k → (s.step k).hub.task j = s.hub.task j := by
    intro j hj
    change (s.step k).world.hub.task j = _
    rw [hworld]
    exact hm.task_eq htossed hj
  intro j hj
  unfold step at hj hothers ⊢
  cases hq : (s.hub.task k).question? with
  | some after =>
      simp only [hq] at hj hothers ⊢
      by_cases hjk : j = k
      · subst hjk
        rcases Gate.holds_of_ask hj with hheld | ⟨-, events, hans⟩
        · -- A query that is still to be made has no answer to be held.
          have hno := Task.question?_of_isHoldable (h j hheld)
          rw [hq] at hno
          cases hno
        · rw [hans]
          exact isHoldable_answer hq
      · rw [hothers j hjk]
        rcases Gate.holds_of_ask hj with hheld | ⟨heq, -⟩
        · exact h j hheld
        · exact absurd heq hjk
  | none =>
      simp only [hq] at hj hothers ⊢
      by_cases hjk : j = k
      · subst hjk
        have hheld : s.gate.holds j = true := hj
        simp only [canStep, hq, hheld, Option.isSome_none, Bool.false_or, Bool.not_true,
          Bool.and_eq_true] at hk
        simp only [cancelFirst, hheld, Bool.true_or]
        exact isHoldable_advance (by simpa using hk.2)
      · rw [hothers j hjk]
        exact h j hj

theorem kept_apply {s : Server} {m : Move} (hw : s.hub.Tidy) (hm : s.Possible m)
    (hne : m ≠ .settle) (h : s.Kept) : (s.apply m).Kept := by
  cases m with
  | outside m =>
      intro k hk
      have hc := (World.effect hw hm.2.2).came k
      generalize hk' : (s.world.apply m).hub.task k = t at hc
      change ((s.world.apply m).hub.task k).isHoldable = true
      have hbefore := h k hk
      rw [hk']
      cases hc with
      | stays _ ht => exact ht ▸ hbefore
      | subscribes heq =>
          rw [hw.unstarted k (Nat.le_of_eq heq.symm)] at hbefore
          cases hbefore
      | startsTick heq =>
          rw [hw.unstarted k (Nat.le_of_eq heq.symm)] at hbefore
          cases hbefore
      | answersReplay => cases hm.2.1
      | answersTick => cases hm.2.1
      | movesReplay => cases hm.1
      | movesTick => cases hm.1
  | release name => exact fun k hk => h k (Gate.holds_of_release hk)
  | step k => exact kept_step hw hm h
  | settle => exact absurd rfl hne
  | _ => exact h

theorem kept_of_reaches {capacity replays : Nat} {start : Instant} {s : Server}
    (h : Reaches Possible (.new capacity replays start) s) : s.Kept := by
  refine h.induction (P := Kept) (fun k hk => by cases hk) fun s m hs hm hne ih => ?_
  obtain ⟨past, run⟩ := hs
  exact kept_apply (World.tidy_of_run run) hm hne ih

/-! ### Servers that have settled -/

/-- The task is inside its query, the answer to which is held. -/
def IsHeld (s : Server) (k : TaskId) : Prop :=
  s.gate.holds k = true ∧ (s.hub.task k).isInQuery = true

/-- Why a replay, task `k`, does not go on where `total` permits are given. -/
inductive Waits (s : Server) (total : Nat) (k : TaskId) (r : Replay) : Prop where
  | query (h : s.IsHeld k)
  | lock {j : TaskId} {q : Replay} (hr : r.stage = .awaitingLock) (hj : s.hub.task j = .replay q)
      (hc : q.connection = r.connection) (hl : q.stage.holdsLock = true)
  | permit (hr : r.stage = .awaitingPermit) (hfull : s.hub.permitHolders.length = total)
      (h : ∀ j ∈ s.hub.permitHolders, s.IsHeld j)

section Settled

variable {s : Server} {total : Nat} {k : TaskId} {r : Replay}

theorem IsSettled.question?_eq (hs : s.IsSettled) (k : TaskId) :
    (s.hub.task k).question? = none := by
  have h := hs k
  simp only [canStep, Bool.or_eq_false_iff] at h
  simpa using h.1

/-- Where nothing goes on, a task that its hub lets go on is held back by the gate. -/
theorem IsSettled.holds (hs : s.IsSettled) (hcan : s.hub.canAdvance k = true) :
    s.gate.holds k = true := by
  have h := hs k
  simp only [canStep, hcan, Bool.true_and, Bool.or_eq_false_iff] at h
  simpa using h.2.1

theorem IsSettled.isHeld (hs : s.IsSettled) (hkept : s.Kept) (hcan : s.hub.canAdvance k = true)
    (hne : (s.hub.task k).isEnded = false) : s.IsHeld k :=
  have hholds := hs.holds hcan
  ⟨hholds, Task.isInQuery_of_isHoldable (hkept k hholds) hne⟩

/-- A replay that is about to begin or stands in a line cannot be held, so it cannot be its turn
either. -/
theorem IsSettled.not_canAdvance (hs : s.IsSettled) (hkept : s.Kept)
    (ht : s.hub.task k = .replay r)
    (hr : r.stage = .arriving ∨ r.stage = .awaitingLock ∨ r.stage = .awaitingPermit) :
    s.hub.canAdvance k = false := by
  refine Bool.eq_false_iff.mpr fun hcan => ?_
  have hholdable := hkept k (hs.holds hcan)
  rw [ht] at hholdable
  obtain ⟨c, request, stage⟩ := r
  rcases hr with hr | hr | hr <;> cases hr <;> cases hholdable

theorem IsSettled.isHeld_of_tick (hs : s.IsSettled) (hkept : s.Kept)
    (htick : (s.hub.task k).isTick = true) (hne : (s.hub.task k).isEnded = false) :
    s.IsHeld k := by
  refine hs.isHeld hkept ?_ hne
  have hq := hs.question?_eq k
  cases ht : s.hub.task k with
  | replay r => rw [ht] at htick; cases htick
  | tick stage =>
      rw [ht] at hq hne
      cases stage with
      | asking => cases hq
      | ended => cases hne
      | _ => simp only [Hub.canAdvance, ht]

theorem IsSettled.isHeld_of_holdsPermit (hs : s.IsSettled) (hkept : s.Kept)
    (ht : s.hub.task k = .replay r) (hp : r.stage.holdsPermit = true) : s.IsHeld k := by
  have hq := hs.question?_eq k
  obtain ⟨c, request, stage⟩ := r
  rw [ht] at hq
  refine hs.isHeld hkept ?_ ?_
  · cases stage with
    | asking => cases hq
    | arriving | awaitingLock | awaitingPermit | ended => cases hp
    | _ => exact Hub.canAdvance_of_isServed ht rfl
  · cases stage with
    | ended => cases hp
    | _ => rw [ht]; rfl

/-- Whoever stands in line for a lock stands behind a replay that has it. -/
theorem IsSettled.exists_holdsLock (hs : s.IsSettled) (hkept : s.Kept)
    (ha : s.hub.Accounted total) (ht : s.hub.task k = .replay r)
    (hr : r.stage = .awaitingLock) :
    ∃ j q, s.hub.task j = .replay q ∧ q.connection = r.connection ∧
      q.stage.holdsLock = true := by
  have hk : k ∈ s.hub.lockLine r.connection := by
    simp [ha.lockLine, ht, Task.isInLine, hr, Replay.Stage.isInLine]
  obtain ⟨j, line, hline⟩ := List.exists_cons_of_ne_nil (List.ne_nil_of_mem hk)
  have hj : (s.hub.task j).isInLine r.connection = true :=
    (ha.lockLine _ j).mp (hline ▸ List.mem_cons_self)
  obtain ⟨q, hq, hc, hin⟩ := Task.of_isInLine hj
  refine ⟨j, q, hq, hc, ?_⟩
  rcases Replay.Stage.holdsLock_of_isInLine hin with hwait | hlock
  · -- The first in line would go on.
    have hno := hs.not_canAdvance hkept hq (.inr (.inl hwait))
    simp [Hub.canAdvance, Hub.isServed, hq, hwait, hc, hline] at hno
  · exact hlock

theorem IsSettled.permits_eq_zero (hs : s.IsSettled) (hkept : s.Kept)
    (ha : s.hub.Accounted total) (ht : s.hub.task k = .replay r)
    (hr : r.stage = .awaitingPermit) : s.hub.permits = 0 := by
  have hk : k ∈ s.hub.permitLine := by
    simp [ha.permitLine, ht, Task.awaitsPermit, hr, Replay.Stage.awaitsPermit]
  obtain ⟨j, line, hline⟩ := List.exists_cons_of_ne_nil (List.ne_nil_of_mem hk)
  have hj : (s.hub.task j).awaitsPermit = true :=
    (ha.permitLine j).mp (hline ▸ List.mem_cons_self)
  obtain ⟨q, hq, hwait⟩ := Task.of_awaitsPermit hj
  have hno := hs.not_canAdvance hkept hq (.inr (.inr hwait))
  simp only [Hub.canAdvance, Hub.isServed, hq, hwait, hline, List.head?_cons,
    Bool.or_eq_false_iff] at hno
  simpa using hno.1.2

theorem IsSettled.waits (hs : s.IsSettled) (hkept : s.Kept) (ha : s.hub.Accounted total)
    (ht : s.hub.task k = .replay r) (hne : r.stage ≠ .ended) : s.Waits total k r := by
  cases hr : r.stage with
  | arriving =>
      have hno := hs.not_canAdvance hkept ht (.inl hr)
      simp [Hub.canAdvance, ht, hr] at hno
  | awaitingLock =>
      obtain ⟨j, q, hj, hc, hl⟩ := hs.exists_holdsLock hkept ha ht hr
      exact .lock hr hj hc hl
  | awaitingPermit =>
      have hzero := hs.permits_eq_zero hkept ha ht hr
      have hfull := ha.permits
      refine .permit hr (by omega) fun j hj => ?_
      obtain ⟨q, hq, hp⟩ := Task.of_holdsPermit (List.mem_filter.mp hj).2
      exact hs.isHeld_of_holdsPermit hkept hq hp
  | ended => exact absurd hr hne
  | _ => exact .query (hs.isHeld_of_holdsPermit hkept ht (by rw [hr]; rfl))

/-- All waiting comes down to held queries: without any, nobody holds a permit, so nobody waits
for one or holds a lock, so nobody waits for a lock. -/
theorem IsSettled.unfinished_eq_nil (hs : s.IsSettled) (hkept : s.Kept)
    (ha : s.hub.Accounted total) (htotal : 0 < total) (hnone : s.gate.held = []) :
    s.hub.unfinished = [] := by
  have hnot : ∀ j, ¬ s.IsHeld j := by
    intro j hj
    have := hj.1
    rw [Gate.holds, hnone] at this
    cases this
  have hwait : ∀ {j q}, s.hub.task j = .replay q → q.stage ≠ .awaitingPermit := by
    intro j q hq hstage
    cases hs.waits hkept ha hq (by simp [hstage]) with
    | query h => exact hnot j h
    | lock hr => simp [hstage] at hr
    | permit _ hfull h =>
        obtain ⟨i, hi⟩ := List.exists_mem_of_length_pos (hfull ▸ htotal)
        exact hnot i (h i hi)
  have hlock : ∀ {j q}, s.hub.task j = .replay q → q.stage.holdsLock = false := by
    intro j q hq
    refine Bool.eq_false_iff.mpr fun hl => ?_
    cases hs.waits hkept ha hq fun hstage => by simp [hstage, Replay.Stage.holdsLock] at hl with
    | query h => exact hnot j h
    | lock hr => simp [hr, Replay.Stage.holdsLock] at hl
    | permit hr => exact hwait hq hr
  refine List.eq_nil_iff_forall_not_mem.mpr fun k hk => ?_
  have hne := Hub.isEnded_of_mem_unfinished hk
  cases ht : s.hub.task k with
  | tick stage => exact hnot k (hs.isHeld_of_tick hkept (by rw [ht]; rfl) hne)
  | replay r =>
      cases hs.waits hkept ha ht fun hstage => by
          simp [ht, Task.isEnded, hstage, Replay.Stage.isEnded] at hne with
      | query h => exact hnot k h
      | lock _ hj _ hl => rw [hlock hj] at hl; cases hl
      | permit hr => exact hwait ht hr

end Settled

/-- From every server that is reached the tasks come to rest, in whatever order they go on, and
the server settles. When they have, an unfinished tick is held inside its query, and an unfinished
replay is, or waits for its connection's lock, which another has that is unfinished, or waits for a
permit, all of which belong to replays held inside their queries. So without a held query nothing
is left unfinished. -/
theorem waits_of_reaches {capacity replays : Nat} {start : Instant} {s : Server}
    (h : Reaches Possible (.new capacity replays start) s) :
    (∀ n t, s.Advances n t → n ≤ s.stepBound) ∧
    s.settle.IsSettled ∧
    (s.IsSettled →
      (∀ k ∈ s.hub.unfinished, (s.hub.task k).isTick = true → s.IsHeld k) ∧
      (∀ k ∈ s.hub.unfinished, ∀ r, s.hub.task k = .replay r → s.Waits (max 1 replays) k r) ∧
      (s.gate.held = [] → s.hub.unfinished = [])) := by
  obtain ⟨past, run⟩ := h.leads
  have hkept := kept_of_reaches h
  have ha : s.hub.Accounted (max 1 replays) := World.accounted_of_run run
  refine ⟨fun n t ht => ht.le_stepBound run, settle_isSettled run,
    fun hs => ⟨fun k hk ht => ?_, fun k hk r ht => ?_, ?_⟩⟩
  · exact hs.isHeld_of_tick hkept ht (Hub.isEnded_of_mem_unfinished hk)
  · refine hs.waits hkept ha ht fun hended => ?_
    have hne := Hub.isEnded_of_mem_unfinished hk
    simp [ht, Task.isEnded, hended, Replay.Stage.isEnded] at hne
  · exact hs.unfinished_eq_nil hkept ha (by omega)

/-- One permit. The first replay is to be held inside its query, the second to wait for the same
connection's lock, the third for the permit, and a tick is to be held as well. -/
def congested : List Move :=
  [.outside .connect, .outside .connect, .hold "a", .hold "b",
    .outside (.subscribe 0 ⟨.systemEvents, some .epoch⟩),
    .outside (.subscribe 0 ⟨.systemEvents, none⟩), .outside (.subscribe 1 ⟨.systemEvents, none⟩),
    .outside .startTick]

theorem waits_of_congested :
    let s := ((new 8 1 .epoch).applyAll congested).settle
    let s' := (s.applyAll [.release "b", .outside (.disconnect 1), .release "a"]).settle
    s.IsSettled ∧ (∃ r, r.stage.holdsPermit = true ∧ s.Waits 1 0 r) ∧
      (∃ r, r.stage = .awaitingLock ∧ s.Waits 1 1 r) ∧
      (∃ r, r.stage = .awaitingPermit ∧ s.Waits 1 2 r) ∧ s.IsHeld 3 ∧
      s'.hub.unfinished = [] := by
  intro s s'
  have hbefore : Reaches Possible (new 8 1 .epoch) ((new 8 1 .epoch).applyAll congested) :=
    Follows.reaches (by decide +kernel) .start
  have hs : Reaches Possible (new 8 1 .epoch) s := hbefore.move (m := .settle) trivial
  have hbefore' : Reaches Possible (new 8 1 .epoch)
      (s.applyAll [.release "b", .outside (.disconnect 1), .release "a"]) :=
    Follows.reaches (by decide +kernel) hs
  have hs' : Reaches Possible (new 8 1 .epoch) s' := hbefore'.move (m := .settle) trivial
  have hsettled : s.IsSettled := (waits_of_reaches hbefore).2.1
  have hsettled' : s'.IsSettled := (waits_of_reaches hbefore').2.1
  obtain ⟨hticks, hreplays, -⟩ := (waits_of_reaches hs).2.2 hsettled
  obtain ⟨-, -, hrest⟩ := (waits_of_reaches hs').2.2 hsettled'
  refine ⟨hsettled, ?_, ?_, ?_, hticks 3 (by decide +kernel) (by decide +kernel),
    hrest (by decide +kernel)⟩
  · obtain ⟨r, hr, hp⟩ := Task.of_holdsPermit
      (show (s.hub.task 0).holdsPermit = true by decide +kernel)
    exact ⟨r, hp, hreplays 0 (by decide +kernel) r hr⟩
  · obtain ⟨r, hr, hc, hin⟩ := Task.of_isInLine
      (show (s.hub.task 1).isInLine 0 = true by decide +kernel)
    have hno : (s.hub.task 1).holdsLock 0 = false := by decide +kernel
    rcases Replay.Stage.holdsLock_of_isInLine hin with h | h
    · exact ⟨r, h, hreplays 1 (by decide +kernel) r hr⟩
    · simp [hr, Task.holdsLock, hc, h] at hno
  · obtain ⟨r, hr, h⟩ := Task.of_awaitsPermit
      (show (s.hub.task 2).awaitsPermit = true by decide +kernel)
    exact ⟨r, h, hreplays 2 (by decide +kernel) r hr⟩

end Server

end EventStream
