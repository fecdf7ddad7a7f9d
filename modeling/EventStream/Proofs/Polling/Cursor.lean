import EventStream.Proofs.Polling.Batches

/-! The cursor and the batches that it has passed. A tick asks for the events after the cursor
and leaves it one microsecond past the newest of its batch. -/

namespace EventStream

namespace World

/-- A tick underway comes after those that have found something. What it has in hand lies
past the cursor, and what else does is newer. -/
structure Hand (polled : TaskId → Event → Prop) (log : Log) (cursor : Instant) (k : TaskId)
    (stage : Tick.Stage) : Prop where
  last : ∀ i e, polled i e → i < k
  asked : ∀ after, stage = .asking after → after = cursor
  sound : ∀ e ∈ stage.batch, log.Holds e ∧ cursor.micros < e.createdAt.micros
  complete : ∀ e, log.Holds e → cursor.micros < e.createdAt.micros →
    e ∈ stage.batch ∨ ∀ x ∈ stage.batch, x.createdAt.micros < e.createdAt.micros

/-- What the cursor has passed has been found by one tick, or it lies where the cursor has been
left by one. -/
structure Covers (polled : TaskId → Event → Prop) (start : Instant) (w : World) : Prop where
  started : ∀ i e, polled i e → i < w.hub.started
  held : ∀ i e, polled i e → w.log.Holds e
  passed : ∀ i e, polled i e → e.createdAt.micros < w.hub.checkpoint.after.micros
  cursor : w.hub.checkpoint.after = start ∨ ∃ i, LeavesAt polled i w.hub.checkpoint.after.micros
  covered : ∀ e, w.log.Holds e → e.createdAt.micros ≤ w.hub.checkpoint.after.micros →
    ∃ i, polled i e ∨ LeavesAt polled i e.createdAt.micros
  apart : ∀ i j e, polled i e → ¬ LeavesAt polled j e.createdAt.micros
  once : ∀ i j e, polled i e → polled j e → i = j
  hand : ∀ k stage, w.hub.task k = .tick stage → stage.isUnderway = true →
    Hand polled w.log w.hub.checkpoint.after k stage

section Covers

variable {polled polled' : TaskId → Event → Prop} {start : Instant} {w w' : World}

theorem Hand.grow {a b : Log} {cursor : Instant} {k : TaskId} {stage : Tick.Stage}
    (h : Hand polled a cursor k stage) (hg : a.Grows b) (hs : b.Spaced 1 start) :
    Hand polled b cursor k stage where
  last := h.last
  asked := h.asked
  sound := fun e he => ⟨hg.holds (h.sound e he).1, (h.sound e he).2⟩
  complete := by
    intro e he hlt
    rcases hg.holds_or_lt he with hold | hid
    · exact h.complete e hold hlt
    · refine .inr fun x hx => ?_
      have hxa := (h.sound x hx).1
      exact hs.add_le (hg.holds hxa) he (Int.lt_of_le_of_lt hxa.id_le hid)

theorem Covers.leavesAt_le (h : Covers polled start w) {i : TaskId} {t : Int}
    (hl : LeavesAt polled i t) : t ≤ w.hub.checkpoint.after.micros := by
  obtain ⟨d, hd, -, rfl⟩ := hl
  exact h.passed i d hd

/-- What has been added to the log is past the cursor, or just where it stands. -/
theorem Covers.covered_of_grows (h : Covers polled start w) {b : Log} (hg : w.log.Grows b)
    (hs : b.Spaced 1 start) {e : Event} (he : b.Holds e)
    (hle : e.createdAt.micros ≤ w.hub.checkpoint.after.micros) :
    ∃ i, polled i e ∨ LeavesAt polled i e.createdAt.micros := by
  rcases hg.holds_or_lt he with hold | hid
  · exact h.covered e hold hle
  · rcases h.cursor with hc | ⟨i, d, hd, hmax, ht⟩
    · have := hs.start_lt he
      rw [hc] at hle
      omega
    · have hda := h.held i d hd
      have hlt := hs.add_le (hg.holds hda) he (Int.lt_of_le_of_lt hda.id_le hid)
      exact ⟨i, .inr ⟨d, hd, hmax, by omega⟩⟩

/-- The cursor stays where it is. -/
theorem Covers.keep (h : Covers polled start w) (hg : w.log.Grows w'.log)
    (hs : w'.log.Spaced 1 start) (hstarted : w.hub.started ≤ w'.hub.started)
    (hafter : w'.hub.checkpoint.after = w.hub.checkpoint.after)
    (hhand : ∀ k stage, w'.hub.task k = .tick stage → stage.isUnderway = true →
      Hand polled w.log w.hub.checkpoint.after k stage) : Covers polled start w' where
  started := fun i e hp => Nat.lt_of_lt_of_le (h.started i e hp) hstarted
  held := fun i e hp => hg.holds (h.held i e hp)
  passed := by rw [hafter]; exact h.passed
  cursor := by rw [hafter]; exact h.cursor
  covered := by
    rw [hafter]
    intro e he hle
    exact h.covered_of_grows hg hs he hle
  apart := h.apart
  once := h.once
  hand := by
    rw [hafter]
    exact fun k stage hk hu => (hhand k stage hk hu).grow hg hs

/-- One more tick has found a batch, the newest of which is `d`. -/
theorem leavesAt_iff {k : TaskId} {batch : List Event} {d : Event} (hd : d ∈ batch)
    (hmax : ∀ e ∈ batch, e.createdAt.micros ≤ d.createdAt.micros) (hnone : ∀ e, ¬ polled k e)
    (hpolled : ∀ i e, polled' i e ↔ polled i e ∨ i = k ∧ e ∈ batch) {i : TaskId} {t : Int} :
    LeavesAt polled' i t ↔ LeavesAt polled i t ∨ i = k ∧ t = d.createdAt.micros + 1 := by
  by_cases hik : i = k
  · subst hik
    have hi : ∀ e, polled' i e ↔ e ∈ batch := by
      intro e
      simp [hpolled, hnone]
    constructor
    · rintro ⟨x, hx, hle, rfl⟩
      have h1 := hmax x ((hi x).mp hx)
      have h2 := hle d ((hi d).mpr hd)
      exact .inr ⟨rfl, by omega⟩
    · rintro (⟨x, hx, -, -⟩ | ⟨-, ht⟩)
      · exact absurd hx (hnone x)
      · exact ⟨d, (hi d).mpr hd, fun e he => hmax e ((hi e).mp he), ht⟩
  · simp [LeavesAt, hpolled, hik]

/-- The cursor comes to stand one microsecond past the newest event of the batch. -/
theorem Covers.newest (h : Covers polled start w) {k : TaskId} {batch : List Event}
    {newest after : Instant} (hc : Closes w w' k batch newest after) :
    ∃ d ∈ batch, (∀ e ∈ batch, e.createdAt.micros ≤ d.createdAt.micros) ∧
      w'.hub.checkpoint.after.micros = d.createdAt.micros + 1 := by
  obtain ⟨live, targets, ht⟩ := hc.stage
  have hh := h.hand k _ ht rfl
  obtain ⟨d, hd, hmax, haw, ham⟩ :=
    Hub.newest?_next hc.latest hc.next fun e he => (hh.sound e he).1.isWhole
  refine ⟨d, hd, hmax, ?_⟩
  have hlt := (hh.sound d hd).2
  rw [hc.hub]
  change (w.hub.checkpoint.advanceTo after).after.micros = _
  rw [Checkpoint.advanceTo_after_of_lt haw (by omega), ham]

/-- A tick closes: its batch has been found, by no other tick, and what lies between cursor and
batch is the last microsecond at most. -/
theorem Covers.close (h : Covers polled start w) (hg : w.log.Grows w'.log)
    (hs : w'.log.Spaced 1 start) {k : TaskId} {batch : List Event} {newest after : Instant}
    (hc : Closes w w' k batch newest after) (hk : k < w.hub.started)
    (hidle : ∀ j stage, w'.hub.task j = .tick stage → stage.isUnderway = false)
    (hpolled : ∀ i e, polled' i e ↔ polled i e ∨ i = k ∧ e ∈ batch) : Covers polled' start w' := by
  obtain ⟨live, targets, ht⟩ := hc.stage
  have hh := (h.hand k _ ht rfl).grow hg hs
  obtain ⟨d, hd, hmax, hcursor⟩ := h.newest hc
  have hlt := (hh.sound d hd).2
  have hnone : ∀ e, ¬ polled k e := fun e he => Nat.lt_irrefl k (hh.last k e he)
  have hleaves : ∀ i t, LeavesAt polled' i t ↔
      LeavesAt polled i t ∨ i = k ∧ t = d.createdAt.micros + 1 :=
    fun _ _ => leavesAt_iff hd hmax hnone hpolled
  refine
    { started := ?started, held := ?held, passed := ?passed,
      cursor := .inr ⟨k, (hleaves k _).mpr (.inr ⟨rfl, hcursor⟩)⟩,
      covered := ?covered, apart := ?apart, once := ?once, hand := ?hand }
  case started =>
    intro i e hp
    rw [hc.hub]
    rcases (hpolled i e).mp hp with hp | ⟨rfl, -⟩
    · exact h.started i e hp
    · exact hk
  case held =>
    intro i e hp
    rcases (hpolled i e).mp hp with hp | ⟨-, he⟩
    · exact hg.holds (h.held i e hp)
    · exact (hh.sound e he).1
  case passed =>
    intro i e hp
    rcases (hpolled i e).mp hp with hp | ⟨-, he⟩
    · have := h.passed i e hp
      omega
    · have := hmax e he
      omega
  case covered =>
    intro e he hec
    by_cases hold : e.createdAt.micros ≤ w.hub.checkpoint.after.micros
    · obtain ⟨i, hp | hl⟩ := h.covered_of_grows hg hs he hold
      · exact ⟨i, .inl ((hpolled i e).mpr (.inl hp))⟩
      · exact ⟨i, .inr ((hleaves i _).mpr (.inl hl))⟩
    · rcases hh.complete e he (by omega) with hmem | hnewer
      · exact ⟨k, .inl ((hpolled k e).mpr (.inr ⟨rfl, hmem⟩))⟩
      · have := hnewer d hd
        exact ⟨k, .inr ((hleaves k _).mpr (.inr ⟨rfl, by omega⟩))⟩
  case apart =>
    intro i j e hp hl
    rcases (hpolled i e).mp hp with hp | ⟨-, he⟩ <;>
      rcases (hleaves j _).mp hl with hl | ⟨-, hl⟩
    · exact h.apart i j e hp hl
    · have := h.passed i e hp
      omega
    · have := h.leavesAt_le hl
      have := (hh.sound e he).2
      omega
    · have := hmax e he
      omega
  case once =>
    intro i j e hi hj
    rcases (hpolled i e).mp hi with hi | ⟨hi, he⟩ <;>
      rcases (hpolled j e).mp hj with hj | ⟨hj, he'⟩
    · exact h.once i j e hi hj
    · have := h.passed i e hi
      have := (hh.sound e he').2
      omega
    · have := h.passed j e hj
      have := (hh.sound e he).2
      omega
    · rw [hi, hj]
  case hand =>
    intro j stage hj hu
    rw [hidle j stage hj] at hu
    cases hu

theorem Covers.hand_step (h : Covers polled start w) {m : Move} (he : Effect w m w') {k : TaskId}
    {stage : Tick.Stage} (hk : w'.hub.task k = .tick stage) (hu : stage.isUnderway = true) :
    Hand polled w.log w.hub.checkpoint.after k stage := by
  have hc := he.came k
  rw [hk] at hc
  cases hc with
  | stays _ ht => exact h.hand k _ ht hu
  | startsTick hks =>
      refine ⟨fun i e hp => ?_, by simp, by simp [Tick.Stage.batch], by simp [Tick.Stage.batch]⟩
      rw [hks]
      exact h.started i e hp
  | @answersTick after a ht ha =>
      have hh := h.hand k _ ht rfl
      obtain rfl := hh.asked after rfl
      cases a with
      | error failure =>
          exact ⟨hh.last, by simp, by simp [Tick.Stage.batch], by simp [Tick.Stage.batch]⟩
      | ok es =>
          exact ⟨hh.last, by simp, fun e hm => (mem_iff_of_mayAnswer ha).mp hm,
            fun e hl hlt => .inl ((mem_iff_of_mayAnswer ha).mpr ⟨hl, hlt⟩)⟩
  | @movesTick before _ _ _ ht hn =>
      have hh := h.hand k before ht (Tick.isUnderway_of_next hn)
      have hmem : ∀ e, e ∈ stage.batch ↔ e ∈ before.batch := fun e => Tick.mem_batch_of_next hn hu
      refine ⟨hh.last, fun after hs => ?_, fun e hb => hh.sound e ((hmem e).mp hb),
        fun e hl hlt => ?_⟩
      · subst hs
        cases hn
        rfl
      · rcases hh.complete e hl hlt with hb | hnewer
        · exact .inl ((hmem e).mpr hb)
        · exact .inr fun x hx => hnewer x ((hmem x).mp hx)

end Covers

theorem Closes.unique {w w' : World} {i k : TaskId} {batch batch' : List Event}
    {newest newest' after after' : Instant} (h : Closes w w' k batch newest after)
    (h' : Closes w w' i batch' newest' after')
    (halone : ∀ j, (w.hub.task j).isTicking = true → j = k) : i = k ∧ batch' = batch := by
  obtain ⟨live, targets, ht⟩ := h.stage
  obtain ⟨live', targets', ht'⟩ := h'.stage
  obtain rfl : i = k := halone i (by rw [ht']; rfl)
  rw [ht] at ht'
  cases ht'
  exact ⟨rfl, rfl⟩

end World

end EventStream
