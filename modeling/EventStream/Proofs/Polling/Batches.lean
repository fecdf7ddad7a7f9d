import EventStream.Proofs.Batch
import EventStream.Proofs.World.Parts

/-! The batches of ticks that run one after another. A batch is what the log has answered, and
it counts when its tick has succeeded. -/

namespace EventStream

namespace Task

/-- A tick that has not ended. -/
def isTicking : Task → Bool
  | .tick stage => stage.isUnderway
  | .replay _ => false

/-- A tick that has succeeded. -/
def isPolled : Task → Bool
  | .tick (.ended (.polled _)) => true
  | _ => false

end Task

namespace World

/-- Rows are only added, the cursor is left to the ticks, and a tick starts when those before
it have ended. -/
structure Polls (w : World) (m : Move) : Prop where
  possible : w.Possible m
  appends : w.Appends m
  cursor : m.setsCursor = false
  alone : m.isTickStart = true → ∀ k < w.hub.started, (w.hub.task k).isTicking = false

instance (w : World) (m : Move) : Decidable (w.Polls m) :=
  decidable_of_iff (w.Possible m ∧ w.Appends m ∧ m.setsCursor = false ∧
      (m.isTickStart = true → ∀ k < w.hub.started, (w.hub.task k).isTicking = false))
    ⟨fun ⟨hp, ha, hc, hs⟩ => ⟨hp, ha, hc, hs⟩, fun h => ⟨h.possible, h.appends, h.cursor, h.alone⟩⟩

/-- The answer to the query of task `k` had the event. -/
def Found (past : List (World × Move)) (k : TaskId) (e : Event) : Prop :=
  ∃ v es, (v, Move.answer k (.ok es)) ∈ past ∧ e ∈ es

/-- What a move brings to task `k`. -/
def Move.brings (k : TaskId) : Move → List Event
  | .answer j (.ok es) => if j = k then es else []
  | _ => []

theorem found_iff_brings {past : List (World × Move)} {k : TaskId} {e : Event} :
    Found past k e ↔ ∃ p ∈ past, e ∈ p.2.brings k := by
  constructor
  · rintro ⟨v, es, hv, he⟩
    exact ⟨_, hv, by simpa [Move.brings] using he⟩
  · rintro ⟨⟨v, m⟩, hv, he⟩
    cases m with
    | answer j a =>
        cases a with
        | error failure => cases he
        | ok es =>
            simp only [Move.brings] at he
            split at he
            · next hj => exact ⟨v, es, hj ▸ hv, he⟩
            · cases he
    | _ => cases he

instance (past : List (World × Move)) (k : TaskId) (e : Event) : Decidable (Found past k e) :=
  decidable_of_iff _ found_iff_brings.symm

/-- The event is in the batch of `k`, a tick that has succeeded. -/
def Polled (past : List (World × Move)) (w : World) (k : TaskId) (e : Event) : Prop :=
  (w.hub.task k).isPolled = true ∧ Found past k e

instance (past : List (World × Move)) (w : World) (k : TaskId) (e : Event) :
    Decidable (Polled past w k e) :=
  inferInstanceAs (Decidable (_ ∧ _))

/-- The tick `k` leaves the cursor at `t`, one microsecond past the newest of its batch. -/
def LeavesAt (polled : TaskId → Event → Prop) (k : TaskId) (t : Int) : Prop :=
  ∃ d, polled k d ∧ (∀ e, polled k e → e.createdAt.micros ≤ d.createdAt.micros) ∧
    t = d.createdAt.micros + 1

/-! ### The answers that a tick has had -/

/-- Batches are what has been found. -/
structure Traced (past : List (World × Move)) (w : World) : Prop where
  started : ∀ v k a, (v, Move.answer k a) ∈ past → k < w.hub.started
  found_iff : ∀ k stage, w.hub.task k = .tick stage → stage.isUnderway = true →
    ∀ e, Found past k e ↔ e ∈ stage.batch

theorem found_cons_of_ne {past : List (World × Move)} {w : World} {m : Move} {k : TaskId}
    (hm : m.answered? ≠ some k) {e : Event} : Found ((w, m) :: past) k e ↔ Found past k e := by
  constructor
  · rintro ⟨v, es, hv, he⟩
    rcases List.mem_cons.mp hv with heq | hv
    · rw [← (Prod.mk.inj heq).2] at hm
      exact absurd rfl hm
    · exact ⟨v, es, hv, he⟩
  · rintro ⟨v, es, hv, he⟩
    exact ⟨v, es, List.mem_cons_of_mem _ hv, he⟩

theorem found_cons_answer {past : List (World × Move)} {w : World} {k : TaskId} {a : Answer}
    {e : Event} :
    Found ((w, .answer k a) :: past) k e ↔ Found past k e ∨ ∃ es, a = .ok es ∧ e ∈ es := by
  constructor
  · rintro ⟨v, es, hv, he⟩
    rcases List.mem_cons.mp hv with heq | hv
    · cases heq
      exact .inr ⟨es, rfl, he⟩
    · exact .inl ⟨v, es, hv, he⟩
  · rintro (⟨v, es, hv, he⟩ | ⟨es, rfl, he⟩)
    · exact ⟨v, es, List.mem_cons_of_mem _ hv, he⟩
    · exact ⟨w, es, List.mem_cons_self, he⟩

theorem Traced.lt_started {past : List (World × Move)} {w : World} (h : Traced past w)
    {k : TaskId} {e : Event} (hf : Found past k e) : k < w.hub.started := by
  obtain ⟨v, es, hv, -⟩ := hf
  exact h.started v k _ hv

theorem not_found_of_le {past : List (World × Move)} {w : World} (h : Traced past w)
    {k : TaskId} (hk : w.hub.started ≤ k) (e : Event) : ¬ Found past k e :=
  fun hf => Nat.not_lt.mpr hk (h.lt_started hf)

theorem traced_nil (w : World) (h : ∀ k stage, w.hub.task k = .tick stage → stage.batch = []) :
    Traced [] w where
  started := by
    intro v k a hv
    cases hv
  found_iff := by
    intro k stage hk hu e
    rw [h k stage hk]
    constructor
    · rintro ⟨v, es, hv, -⟩
      cases hv
    · intro he
      cases he

theorem traced_step {past : List (World × Move)} {w w' : World} {m : Move} (hw : w.hub.Tidy)
    (h : Traced past w) (he : Effect w m w') : Traced ((w, m) :: past) w' where
  started := by
    intro v k a hv
    refine Nat.lt_of_lt_of_le ?_ he.started_le
    rcases List.mem_cons.mp hv with heq | hv
    · cases heq
      have hc := he.came k
      generalize w'.hub.task k = t at hc
      cases hc with
      | stays hne => exact absurd rfl hne
      | answersReplay ht => exact hw.lt_started_of_replay ht
      | answersTick ht => exact hw.lt_started_of_tick ht (by simp)
    · exact h.started v k a hv
  found_iff := by
    intro k stage hk hu e
    have hc := he.came k
    rw [hk] at hc
    cases hc with
    | stays hne ht =>
        rw [found_cons_of_ne hne]
        exact h.found_iff k stage ht hu e
    | startsTick hks =>
        rw [found_cons_of_ne (by simp [Move.answered?])]
        exact iff_of_false (not_found_of_le h (Nat.le_of_eq hks.symm) e) List.not_mem_nil
    | @answersTick after a ht ha =>
        rw [found_cons_answer, h.found_iff k _ ht rfl e]
        cases a with
        | error failure => simp [Tick.Stage.batch]
        | ok es => simp [Tick.Stage.batch]
    | movesTick ht hn =>
        rw [found_cons_of_ne (by simp [Move.answered?]), Tick.mem_batch_of_next hn hu]
        exact h.found_iff k _ ht (Tick.isUnderway_of_next hn) e

/-! ### Success -/

/-- A batch is counted when its tick closes, and a tick without events has none. -/
theorem polled_cons_iff {past : List (World × Move)} {w w' : World} {m : Move}
    (h : Traced past w) (he : Effect w m w') {k : TaskId} {e : Event} :
    Polled ((w, m) :: past) w' k e ↔
      Polled past w k e ∨ ∃ batch newest after, Closes w w' k batch newest after ∧ e ∈ batch := by
  have hkeep : ∀ {stage}, w.hub.task k = .tick stage → stage.isUnderway = true →
      ¬ Polled past w k e := by
    intro stage ht hu hp
    cases stage with
    | ended => cases hu
    | _ => rw [Polled, ht] at hp; cases hp.1
  constructor
  · rintro ⟨hpolled, hfound⟩
    have hc := he.came k
    generalize ht' : w'.hub.task k = t at hc hpolled
    cases hc with
    | stays hne ht =>
        rw [← ht] at hpolled
        exact .inl ⟨hpolled, (found_cons_of_ne hne).mp hfound⟩
    | movesTick ht hn hw =>
        rw [found_cons_of_ne (by simp [Move.answered?])] at hfound
        have hmem := (h.found_iff k _ ht (Tick.isUnderway_of_next hn) e).mp hfound
        cases hn with
        | idle => cases hmem
        | closeNone hnone => rw [Hub.newest?_eq_none hnone] at hmem; cases hmem
        | close hnewest hafter => exact .inr ⟨_, _, _, ⟨⟨_, _, ht⟩, hnewest, hafter, hw⟩, hmem⟩
        | _ => cases hpolled
    | _ => cases hpolled
  · rintro (⟨hpolled, hfound⟩ | ⟨batch, newest, after, hclose, hmem⟩)
    · have hc := he.came k
      generalize ht' : w'.hub.task k = t at hc
      cases hc with
      | stays hne ht =>
          refine ⟨?_, (found_cons_of_ne hne).mpr hfound⟩
          rw [ht', ← ht]
          exact hpolled
      | subscribes hk => exact absurd hfound (not_found_of_le h (Nat.le_of_eq hk.symm) e)
      | startsTick hk => exact absurd hfound (not_found_of_le h (Nat.le_of_eq hk.symm) e)
      | answersReplay ht => rw [ht] at hpolled; cases hpolled
      | answersTick ht => exact absurd ⟨hpolled, hfound⟩ (hkeep ht rfl)
      | movesReplay ht => rw [ht] at hpolled; cases hpolled
      | movesTick ht hn => exact absurd ⟨hpolled, hfound⟩ (hkeep ht (Tick.isUnderway_of_next hn))
    · obtain ⟨live, targets, ht⟩ := hclose.stage
      refine ⟨?_, ?_⟩
      · rw [hclose.hub]
        change (update w.hub.task k _ k).isPolled = true
        rw [update_self]
        rfl
      · obtain ⟨v, es, hv, hes⟩ := (h.found_iff k _ ht rfl e).mpr hmem
        exact ⟨v, es, List.mem_cons_of_mem _ hv, hes⟩

/-- The cursor of a run that leaves it to the ticks moves only when a tick closes. -/
theorem after_eq_of_not_closes {w w' : World} {m : Move} (hp : w.Polls m) (he : Effect w m w')
    (hc : ∀ k batch newest after, ¬ Closes w w' k batch newest after) :
    w'.hub.checkpoint.after = w.hub.checkpoint.after := by
  rcases he.after with heq | ⟨k, batch, newest, after, hcl⟩ | ⟨t, rfl⟩ | ⟨t, rfl⟩
  · exact heq
  · exact absurd hcl (hc k batch newest after)
  · cases hp.cursor
  · cases hp.cursor

/-! ### Ticks one after another -/

theorem ticking_step {w w' : World} {m : Move} (he : Effect w m w') {k : TaskId}
    (hk : (w'.hub.task k).isTicking = true) :
    (w.hub.task k).isTicking = true ∨ m = .startTick ∧ k = w.hub.started := by
  have hc := he.came k
  generalize w'.hub.task k = t at hc hk
  cases hc with
  | stays _ ht => exact .inl (ht ▸ hk)
  | startsTick hks => exact .inr ⟨rfl, hks⟩
  | answersTick ht => exact .inl (by rw [ht]; rfl)
  | movesTick ht hn => exact .inl (by rw [ht]; exact Tick.isUnderway_of_next hn)
  | _ => cases hk

section Run

variable {capacity replays : Nat} {start : Instant} {past : List (World × Move)} {w : World}

theorem tidy_of_polls (run : Run Polls (.new capacity replays start) past w) : w.hub.Tidy :=
  tidy_of_run (run.mono fun _ _ h => h.possible)

/-- At most one tick is underway. -/
theorem ticking_unique (run : Run Polls (.new capacity replays start) past w) {i j : TaskId}
    (hi : (w.hub.task i).isTicking = true) (hj : (w.hub.task j).isTicking = true) : i = j := by
  induction run generalizing i j with
  | nil => cases hi
  | @cons past w m run hm ih =>
      have hw := tidy_of_polls run
      have he := effect hw hm.possible
      have hnone : m = .startTick → ∀ k, (w.hub.task k).isTicking = false := by
        rintro rfl k
        by_cases hk : k < w.hub.started
        · exact hm.alone rfl k hk
        · rw [hw.unstarted k (Nat.not_lt.mp hk)]
          rfl
      rcases ticking_step he hi with hi' | ⟨hstart, hi'⟩ <;>
        rcases ticking_step he hj with hj' | ⟨hstart', hj'⟩
      · exact ih hi' hj'
      · rw [hnone hstart' i] at hi'
        cases hi'
      · rw [hnone hstart j] at hj'
        cases hj'
      · rw [hi', hj']

theorem traced_of_run (run : Run Polls (.new capacity replays start) past w) : Traced past w := by
  induction run with
  | nil =>
      refine traced_nil _ fun k stage hk => ?_
      cases hk
      rfl
  | cons run hm ih =>
      have hw := tidy_of_polls run
      exact traced_step hw ih (effect hw hm.possible)

end Run

end World

end EventStream
