import EventStream.Proofs.Batch
import EventStream.Proofs.World.Parts

/-! The marks of the checkpoint while ticks alone write it. What has been broadcast has been
announced before, and what has been announced and not broadcast is in the hands of a tick. -/

namespace EventStream

namespace Checkpoint

/-- From the checkpoint on the left to that on the right no mark moves back. -/
structure Precedes (c d : Checkpoint) : Prop where
  after : c.after ≤ d.after
  announced : c.announced ≤ d.announced
  broadcast : c.broadcast ≤ d.broadcast

theorem Precedes.refl (c : Checkpoint) : c.Precedes c :=
  ⟨Int.le_refl _, Int.le_refl _, Int.le_refl _⟩

theorem Precedes.trans {c d e : Checkpoint} (h : c.Precedes d) (h' : d.Precedes e) :
    c.Precedes e :=
  ⟨Int.le_trans h.after h'.after, Int.le_trans h.announced h'.announced,
    Int.le_trans h.broadcast h'.broadcast⟩

theorem precedes_advanceTo (c : Checkpoint) (t : Instant) : c.Precedes (c.advanceTo t) := by
  unfold advanceTo
  split
  · next h => exact ⟨Int.le_of_lt h, Int.le_refl _, Int.le_refl _⟩
  · exact .refl c

theorem precedes_announce (c : Checkpoint) (id : Int) : c.Precedes (c.announce id) :=
  ⟨Int.le_refl _, Int.le_max_left .., Int.le_refl _⟩

theorem precedes_markBroadcast (c : Checkpoint) (id : Int) : c.Precedes (c.markBroadcast id) :=
  ⟨Int.le_refl _, Int.le_refl _, Int.le_max_left ..⟩

@[simp] theorem advanceTo_broadcast (c : Checkpoint) (t : Instant) :
    (c.advanceTo t).broadcast = c.broadcast := by
  unfold advanceTo
  split <;> rfl

end Checkpoint

namespace Tick

/-- What a tick has announced and not yet marked. -/
def Stage.unmarked : Stage → List Event
  | .picking batch _ _ => batch
  | .broadcasting _ left _ _ => left
  | _ => []

/-- The tick has sorted its batch. -/
def Stage.isSending : Stage → Bool
  | .announcing _ => true
  | .picking .. => true
  | .broadcasting .. => true
  | _ => false

theorem Stage.isSending_of_mem_unmarked {stage : Stage} {e : Event} (h : e ∈ stage.unmarked) :
    stage.isSending = true := by
  cases stage with
  | picking => rfl
  | broadcasting => rfl
  | _ => cases h

theorem precedes_of_next {h : Hub} {stage stage' : Stage} {checkpoint : Checkpoint}
    {subscriber : ConnectionId → Subscriber} (hn : Next h stage stage' checkpoint subscriber) :
    h.checkpoint.Precedes checkpoint := by
  cases hn with
  | announce => exact h.checkpoint.precedes_announce _
  | mark => exact h.checkpoint.precedes_markBroadcast _
  | close => exact h.checkpoint.precedes_advanceTo _
  | _ => exact .refl _

end Tick

namespace Hub

/-- How far the marks stand apart: no further than the ticks have still to mark. -/
structure Marked (h : Hub) : Prop where
  broadcast_le : h.checkpoint.broadcast ≤ h.checkpoint.announced
  id_le : ∀ k stage, h.task k = .tick stage → ∀ e ∈ stage.unmarked,
    e.id ≤ h.checkpoint.announced
  sorted : ∀ k batch, h.task k = .tick (.announcing batch) → batch.Pairwise (·.id ≤ ·.id)
  unmarked : h.checkpoint.announced ≤ h.checkpoint.broadcast ∨
    ∃ k stage, h.task k = .tick stage ∧ ∃ e ∈ stage.unmarked, h.checkpoint.announced ≤ e.id

/-- The checkpoint and the ticks that have sorted their batch are as they were. -/
structure SameSending (h h' : Hub) : Prop where
  checkpoint : h'.checkpoint = h.checkpoint
  task_iff : ∀ k stage, stage.isSending = true → (h'.task k = .tick stage ↔ h.task k = .tick stage)

theorem marked_new (capacity replays : Nat) (start : Instant) :
    (Hub.new capacity replays start).Marked where
  broadcast_le := Int.le_refl _
  id_le := by
    intro k stage hk
    cases hk
    simp [Tick.Stage.unmarked]
  sorted := by
    intro k batch hk
    cases hk
  unmarked := .inl (Int.le_refl _)

section Step

variable {h h' : Hub}

theorem Marked.same (hm : h.Marked) (hs : h.SameSending h') : h'.Marked where
  broadcast_le := by rw [hs.checkpoint]; exact hm.broadcast_le
  id_le := by
    rw [hs.checkpoint]
    exact fun k stage hk e he =>
      hm.id_le k stage ((hs.task_iff k stage (Tick.Stage.isSending_of_mem_unmarked he)).mp hk) e he
  sorted := fun k batch hk => hm.sorted k batch ((hs.task_iff k _ rfl).mp hk)
  unmarked := by
    rw [hs.checkpoint]
    refine hm.unmarked.imp_right fun ⟨k, stage, hk, e, he, hle⟩ => ⟨k, stage, ?_, e, he, hle⟩
    exact (hs.task_iff k stage (Tick.Stage.isSending_of_mem_unmarked he)).mpr hk

variable {k : TaskId} {stage stage' : Tick.Stage} {checkpoint : Checkpoint}
  {subscriber : ConnectionId → Subscriber}

/-- One tick has gone on: what it has announced and not marked, or what others have, reaches up to
the mark of what has been announced. -/
theorem Marked.update (hm : h.Marked) (hle : checkpoint.broadcast ≤ checkpoint.announced)
    (hann : h.checkpoint.announced ≤ checkpoint.announced)
    (hid : ∀ e ∈ stage'.unmarked, e.id ≤ checkpoint.announced)
    (hsorted : ∀ batch, stage' = .announcing batch → batch.Pairwise (·.id ≤ ·.id))
    (hreach : checkpoint.announced ≤ checkpoint.broadcast ∨
      (∃ e ∈ stage'.unmarked, checkpoint.announced ≤ e.id) ∨
      ∃ j, j ≠ k ∧ ∃ other, h.task j = .tick other ∧
        ∃ e ∈ other.unmarked, checkpoint.announced ≤ e.id) :
    (h.Ticked k stage' checkpoint subscriber).Marked where
  broadcast_le := hle
  id_le := by
    intro j other hj e he
    rcases eq_or_of_update_eq hj with ⟨-, heq⟩ | ⟨-, hj⟩
    · cases heq
      exact hid e he
    · exact Int.le_trans (hm.id_le j other hj e he) hann
  sorted := by
    intro j batch hj
    rcases eq_or_of_update_eq hj with ⟨-, heq⟩ | ⟨-, hj⟩
    · cases heq
      exact hsorted batch rfl
    · exact hm.sorted j batch hj
  unmarked := by
    rcases hreach with hdone | ⟨e, he, hreach⟩ | ⟨j, hjk, other, hj, hreach⟩
    · exact .inl hdone
    · exact .inr ⟨k, stage', update_self .., e, he, hreach⟩
    · exact .inr ⟨j, other, (update_of_ne _ _ hjk).trans hj, hreach⟩

/-- What has been announced is marked, in the hands of the tick `k` or in those of another. -/
theorem Marked.reach (hm : h.Marked) (ht : h.task k = .tick stage) :
    h.checkpoint.announced ≤ h.checkpoint.broadcast ∨
      (∃ e ∈ stage.unmarked, h.checkpoint.announced ≤ e.id) ∨
      ∃ j, j ≠ k ∧ ∃ other, h.task j = .tick other ∧
        ∃ e ∈ other.unmarked, h.checkpoint.announced ≤ e.id := by
  rcases hm.unmarked with hdone | ⟨j, other, hj, hreach⟩
  · exact .inl hdone
  · by_cases hjk : j = k
    · subst hjk
      rw [ht] at hj
      cases hj
      exact .inr (.inl hreach)
    · exact .inr (.inr ⟨j, hjk, other, hj, hreach⟩)

/-- A tick goes on without a mark. -/
theorem Marked.keep (hm : h.Marked) (ht : h.task k = .tick stage)
    (hann : checkpoint.announced = h.checkpoint.announced)
    (hbro : checkpoint.broadcast = h.checkpoint.broadcast)
    (hsame : stage'.unmarked = stage.unmarked)
    (hsorted : ∀ batch, stage' = .announcing batch → batch.Pairwise (·.id ≤ ·.id)) :
    (h.Ticked k stage' checkpoint subscriber).Marked := by
  refine hm.update ?_ (Int.le_of_eq hann.symm) (fun e he => ?_) hsorted ?_
  · rw [hann, hbro]
    exact hm.broadcast_le
  · rw [hann]
    exact hm.id_le k stage ht e (hsame ▸ he)
  · rw [hann, hbro, hsame]
    exact hm.reach ht

theorem Marked.announce (hm : h.Marked) {batch : List Event} {last : Event}
    (ht : h.task k = .tick (.announcing batch)) (hl : batch.getLast? = some last) :
    (h.Ticked k (.picking batch h.registry []) (h.checkpoint.announce last.id)
      h.subscriber).Marked := by
  have hlast : ∀ e ∈ batch, e.id ≤ last.id := fun e he =>
    Event.id_le_of_getLast (hm.sorted k batch ht) hl he
  refine hm.update (Int.le_trans hm.broadcast_le (Int.le_max_left ..)) (Int.le_max_left ..)
    (fun e he => Int.le_trans (hlast e he) (Int.le_max_right ..)) (by simp) ?_
  by_cases hle : h.checkpoint.announced ≤ last.id
  · right; left
    refine ⟨last, List.mem_of_getLast? hl, ?_⟩
    simp only [Checkpoint.announce]
    omega
  · have hsame : (h.checkpoint.announce last.id).announced = h.checkpoint.announced := by
      simp only [Checkpoint.announce]
      omega
    rw [hsame]
    refine (hm.reach ht).imp_right fun hreach => hreach.imp_left ?_
    rintro ⟨e, he, -⟩
    cases he

theorem Marked.mark (hm : h.Marked) {batch rest : List Event} {live : List ConnectionId}
    {e : Event} (ht : h.task k = .tick (.broadcasting batch (e :: rest) live [])) :
    (h.Ticked k (.broadcasting batch rest live (Tick.targets rest live))
      (h.checkpoint.markBroadcast e.id) h.subscriber).Marked := by
  have hid := hm.id_le k _ ht
  refine hm.update (Int.max_le.mpr ⟨hm.broadcast_le, hid e List.mem_cons_self⟩) (Int.le_refl _)
    (fun d hd => hid d (List.mem_cons_of_mem _ hd)) (by simp) ?_
  rcases hm.reach ht with hdone | ⟨d, hd, hreach⟩ | hother
  · exact .inl (Int.le_trans hdone (Int.le_max_left ..))
  · rcases List.mem_cons.mp hd with rfl | hd
    · exact .inl (Int.le_trans hreach (Int.le_max_right ..))
    · exact .inr (.inl ⟨d, hd, hreach⟩)
  · exact .inr (.inr hother)

theorem Marked.ticked (hm : h.Marked) (ht : h.task k = .tick stage)
    (hn : Tick.Next h stage stage' checkpoint subscriber) :
    (h.Ticked k stage' checkpoint subscriber).Marked := by
  cases hn with
  | sort => exact hm.keep ht rfl rfl rfl fun _ heq => by cases heq; exact Event.sortById_sorted _
  | announce hl => exact hm.announce ht hl
  | announceNone hl =>
      exact hm.keep ht rfl rfl (List.getLast?_eq_none_iff.mp hl) (by simp)
  | mark => exact hm.mark ht
  | close =>
      exact hm.keep ht (Checkpoint.advanceTo_announced ..) (Checkpoint.advanceTo_broadcast ..) rfl
        (by simp)
  | _ => exact hm.keep ht rfl rfl rfl (by simp)

end Step

/-! ### Which moves concern the marks -/

/-- A task changes that is no tick with a sorted batch, before and after. -/
theorem sameSending_of_update {h h' : Hub} {k : TaskId} {t : Task}
    (hcheckpoint : h'.checkpoint = h.checkpoint) (htask : h'.task = update h.task k t)
    (hold : ∀ stage, h.task k = .tick stage → stage.isSending = false)
    (hnew : ∀ stage, t = .tick stage → stage.isSending = false) : h.SameSending h' where
  checkpoint := hcheckpoint
  task_iff := by
    intro j stage hs
    rw [htask]
    by_cases hj : j = k
    · subst hj
      rw [update_self]
      refine iff_of_false (fun ht => ?_) fun ht => ?_
      · rw [hnew stage ht] at hs
        cases hs
      · rw [hold stage ht] at hs
        cases hs
    · rw [update_of_ne _ _ hj]

theorem sameSending_of_eq {h h' : Hub} (hcheckpoint : h'.checkpoint = h.checkpoint)
    (htask : h'.task = h.task) : h.SameSending h' :=
  ⟨hcheckpoint, fun _ _ _ => by rw [htask]⟩

/-- A new task takes the place of none that is under way. -/
theorem Tidy.sameSending_spawn {h : Hub} (hh : h.Tidy) {t : Task}
    (hnew : ∀ stage, t = .tick stage → stage.isSending = false) : h.SameSending (h.spawn t).2 := by
  refine sameSending_of_update rfl rfl (fun stage hk => ?_) hnew
  rw [hh.unstarted _ (Nat.le_refl _)] at hk
  cases hk
  rfl

theorem sameSending_answer (h : Hub) (k : TaskId) (a : Answer) : h.SameSending (h.answer k a) := by
  cases hk : h.task k with
  | replay r =>
      simp only [answer, hk]
      split
      · exact sameSending_of_update rfl rfl (by simp [hk]) (by simp)
      · exact sameSending_of_eq rfl rfl
  | tick stage =>
      cases stage with
      | asking after =>
          simp only [answer, hk]
          refine sameSending_of_update rfl rfl (fun stage ht => ?_) fun stage ht => ?_
          · rw [hk] at ht
            cases ht
            rfl
          · cases ht
            rfl
      | _ => simpa only [answer, hk] using sameSending_of_eq rfl rfl

end Hub

namespace World

/-- The checkpoint is left to the ticks. A query may bring whatever events in whatever order. -/
structure Undisturbed (w : World) (m : Move) : Prop where
  possible : m.answered? = none → w.Possible m
  unannounced : m.isAnnounce = false
  unmarked : m.isMark = false
  cursor : m.setsCursor = false

instance (w : World) (m : Move) : Decidable (w.Undisturbed m) :=
  decidable_of_iff ((m.answered? = none → w.Possible m) ∧ m.isAnnounce = false ∧
      m.isMark = false ∧ m.setsCursor = false)
    ⟨fun ⟨hp, ha, hm, hc⟩ => ⟨hp, ha, hm, hc⟩,
      fun h => ⟨h.possible, h.unannounced, h.unmarked, h.cursor⟩⟩

theorem tidy_undisturbed {w : World} {m : Move} (hw : w.hub.Tidy) (hm : w.Undisturbed m) :
    (w.apply m).hub.Tidy := by
  cases m with
  | answer k a => exact hw.answer k a
  | _ => exact tidy_apply hw (hm.possible rfl)

/-- A move leaves the marks and the ticks with a sorted batch alone, or it is the step of a tick. -/
theorem sameSending_or_ticked {w : World} {m : Move} (hw : w.hub.Tidy) (hm : w.Undisturbed m) :
    w.hub.SameSending (w.apply m).hub ∨
      ∃ k stage stage' checkpoint subscriber, w.hub.task k = .tick stage ∧
        Tick.Next w.hub stage stage' checkpoint subscriber ∧
        (w.apply m).hub = w.hub.Ticked k stage' checkpoint subscriber := by
  cases ha : m.answered? with
  | some k =>
      cases m with
      | answer j a => exact .inl (w.hub.sameSending_answer j a)
      | _ => cases ha
  | none =>
      have he := effect hw (hm.possible ha)
      generalize w.apply m = w' at he
      cases he with
      | inert _ hi => exact .inl (Hub.sameSending_of_eq hi.checkpoint hi.task)
      | relog => exact .inl (Hub.sameSending_of_eq rfl rfl)
      | subscribe => exact .inl (hw.sameSending_spawn (by simp))
      | startTick =>
          refine .inl (hw.sameSending_spawn fun stage ht => ?_)
          cases ht
          rfl
      | answerReplay => cases ha
      | answerTick => cases ha
      | replay ht hn hmoved =>
          exact .inl (Hub.sameSending_of_update hmoved.checkpoint hmoved.task (by simp [ht])
            (by simp))
      | tick ht hn => exact .inr ⟨_, _, _, _, _, ht, hn, rfl⟩
      | offerLive => exact .inl (Hub.sameSending_of_eq rfl rfl)
      | resetCursor => exact nomatch hm.cursor
      | advanceCursor => exact nomatch hm.cursor
      | announce => exact nomatch hm.unannounced
      | markBroadcast => exact nomatch hm.unmarked

section Run

variable {capacity replays : Nat} {start : Instant} {past : List (World × Move)} {w : World}

theorem tidy_of_undisturbed (run : Run Undisturbed (.new capacity replays start) past w) :
    w.hub.Tidy := by
  induction run with
  | nil => exact Hub.tidy_new capacity replays start
  | cons _ hm ih => exact tidy_undisturbed ih hm

theorem marked_of_run (run : Run Undisturbed (.new capacity replays start) past w) :
    w.hub.Marked := by
  induction run with
  | nil => exact Hub.marked_new capacity replays start
  | cons run hm ih =>
      rcases sameSending_or_ticked (tidy_of_undisturbed run) hm with
        hs | ⟨k, stage, stage', checkpoint, subscriber, ht, hn, heq⟩
      · exact ih.same hs
      · rw [heq]
        exact ih.ticked ht hn

theorem precedes_apply {m : Move} (hw : w.hub.Tidy) (hm : w.Undisturbed m) :
    w.hub.checkpoint.Precedes (w.apply m).hub.checkpoint := by
  rcases sameSending_or_ticked hw hm with
    hs | ⟨k, stage, stage', checkpoint, subscriber, -, hn, heq⟩
  · rw [hs.checkpoint]
    exact .refl _
  · rw [heq]
    exact Tick.precedes_of_next hn

theorem precedes_of_visited (run : Run Undisturbed (.new capacity replays start) past w)
    {v : World} (hv : Visited past w v) : v.hub.checkpoint.Precedes w.hub.checkpoint := by
  induction run with
  | nil =>
      rcases hv with rfl | ⟨m, hm⟩
      · exact .refl _
      · cases hm
  | cons run hm ih =>
      rcases visited_cons_iff.mp hv with rfl | hv
      · exact .refl _
      · exact (ih hv).trans (precedes_apply (tidy_of_undisturbed run) hm)

/-- As long as ticks alone write the checkpoint, nothing counts as broadcast that has not been
announced, neither mark nor the cursor ever moves back, and the marks are equal whenever no tick
stands between announcing its batch and marking the last event of it. The ticks may overlap, wait
for their queries, fail and overflow, and their batches may be any events in any order. -/
theorem marks_ordered (run : Run Undisturbed (.new capacity replays start) past w) :
    w.hub.checkpoint.broadcast ≤ w.hub.checkpoint.announced ∧
    (∀ v, Visited past w v → v.hub.checkpoint.Precedes w.hub.checkpoint) ∧
    ((∀ k stage, w.hub.task k = .tick stage → stage.unmarked = []) →
      w.hub.checkpoint.broadcast = w.hub.checkpoint.announced) := by
  have hm := marked_of_run run
  refine ⟨hm.broadcast_le, fun v hv => precedes_of_visited run hv, fun hnone => ?_⟩
  refine Int.le_antisymm hm.broadcast_le (hm.unmarked.resolve_right ?_)
  rintro ⟨k, stage, hk, e, he, -⟩
  rw [hnone k stage hk] at he
  cases he

end Run

/-- A policy created in the last microsecond that there is. -/
def inLastMicrosecond : Draft :=
  .stamped .policyCreated ⟨Instant.maxSecond, 999999000, by decide⟩

/-- Two ticks at a time. The first has ids 5 and -3, as yet unmarked; the second one has marked id 2
and overflowed. -/
def overlapping : List Move :=
  [Move.startTick, .startTick, .advance 0, .advance 1,
    .answer 0 (.ok [(policyAt 1000).event 5, (policyAt 2000).event (-3)]),
    .answer 1 (.ok [inLastMicrosecond.event 2])] ++
  List.replicate 3 (Move.advance 0) ++ List.replicate 5 (Move.advance 1)

theorem marks_ordered_of_overlapping :
    let past := (new 8 8 .epoch).history [] overlapping
    let w := (new 8 8 .epoch).applyAll overlapping
    let past' := w.history past (List.replicate 3 (Move.advance 0))
    let w' := w.applyAll (List.replicate 3 (Move.advance 0))
    (w.hub.checkpoint.announced = 5 ∧ w.hub.checkpoint.broadcast = 2 ∧ Visited past' w' w) ∧
      w.hub.checkpoint.Precedes w'.hub.checkpoint ∧
      w'.hub.checkpoint.broadcast = w'.hub.checkpoint.announced := by
  have hleft (w : World) (past : List (World × Move)) :
      (w, Move.advance 0) ∈ w.history past (List.replicate 3 (.advance 0)) :=
    mem_history w past [] _ _
  intro past w past' w'
  have run : Run Undisturbed (new 8 8 .epoch) past w := Follows.run (by decide +kernel) .nil
  have run' : Run Undisturbed (new 8 8 .epoch) past' w' := Follows.run (by decide +kernel) run
  have hv : Visited past' w' w := .inr ⟨_, hleft w past⟩
  obtain ⟨-, hprecedes, hequal⟩ := marks_ordered run'
  refine ⟨⟨by decide +kernel, by decide +kernel, hv⟩, hprecedes w hv, hequal fun k stage hk => ?_⟩
  have hended : ∀ i < w'.hub.started, (w'.hub.task i).isEnded = true := by decide +kernel
  have hk' : (w'.hub.task k).isEnded = true := by
    by_cases hlt : k < w'.hub.started
    · exact hended k hlt
    · rw [(tidy_of_undisturbed run').unstarted k (Nat.not_lt.mp hlt)]
      rfl
  rw [hk] at hk'
  cases stage <;> first | rfl | cases hk'

end World

end EventStream
