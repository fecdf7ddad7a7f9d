import EventStream.Hub.Step
import EventStream.Proofs.Subscriber

/-! The rules by which a replay moves, one for each way on from a point. They speak of the
replay's stage, its own subscriber and what has been announced, and nothing else in the hub
has a part in a move but the lines and permits. -/

namespace EventStream

open Subscriber (Refuses)

namespace Replay

/-- From stage and subscriber on the left to those on the right. -/
inductive Next (announced : Int) (request : Subscription) :
    Stage → Subscriber → Stage → Subscriber → Prop where
  | drop {stage s} (hw : stage.isWaiting = true) (hc : s.cancelled = true) :
      Next announced request stage s .ended s
  | arrive {s} : Next announced request .arriving s .awaitingLock s
  | lock {s} : Next announced request .awaitingLock s .awaitingPermit s
  | grant {s} : Next announced request .awaitingPermit s .admitted s
  | begin {s cursor} (hr : request.lastSeen = some cursor) :
      Next announced request .admitted s (.opening (s.previous request.channel) cursor)
        (s.beginReplay request.channel)
  | beginFresh {s} (hr : request.lastSeen = none) :
      Next announced request .admitted s (.confirming .fresh) (s.beginReplay request.channel)
  | ask {s previous cursor} :
      Next announced request (.opening previous cursor) s
        (.asking (.history previous cursor announced)) s
  | take {s purpose events} :
      Next announced request (.answered purpose (.ok events)) s
        (.delivering purpose (purpose.wanted events) none) s
  | historyFailed {s previous cursor covered failure} :
      Next announced request (.answered (.history previous cursor covered) (.error failure)) s
        (.reporting previous) s
  | gapFailed {s cursor floor delivered highWater failure} :
      Next announced request (.answered (.gap cursor floor delivered highWater) (.error failure)) s
        (.confirming .force) s
  | skip {s purpose e rest newest} (hm : Message.ofEvent? e = none) :
      Next announced request (.delivering purpose (e :: rest) newest) s
        (.delivering purpose rest (some (later newest e.createdAt))) (s.skipPast e.id)
  | stale {s purpose e rest newest m} (hm : Message.ofEvent? e = some m)
      (hid : e.id ≤ s.lastEventId) :
      Next announced request (.delivering purpose (e :: rest) newest) s
        (.delivering purpose rest (some (later newest e.createdAt))) s
  | queue {s purpose e rest newest m} (hm : Message.ofEvent? e = some m)
      (hid : s.lastEventId < e.id) :
      Next announced request (.delivering purpose (e :: rest) newest) s
        (.delivering purpose rest (some (later newest e.createdAt)))
        { s.accept (.event m) with lastEventId := e.id }
  | refuseHistory {s t previous cursor covered left newest} (ht : Refuses s t) :
      Next announced request (.delivering (.history previous cursor covered) left newest) s
        (.reporting previous) t
  | refuseGap {s t cursor floor delivered highWater left newest} (ht : Refuses s t) :
      Next announced request (.delivering (.gap cursor floor delivered highWater) left newest) s
        .ended t
  | closeHistory {s previous cursor covered newest floor}
      (hf : floorBelow? newest cursor = some floor) :
      Next announced request (.delivering (.history previous cursor covered) [] newest) s
        (.settling cursor floor) (s.skipPast covered)
  | breakHistory {s previous cursor covered newest} (hf : floorBelow? newest cursor = none) :
      Next announced request (.delivering (.history previous cursor covered) [] newest) s
        .ended (s.skipPast covered)
  | closeGap {s cursor floor delivered highWater newest floor'}
      (hlt : delivered < s.lastEventId) (hf : floorBelow? newest cursor = some floor') :
      Next announced request (.delivering (.gap cursor floor delivered highWater) [] newest) s
        (.reconciling cursor floor') s
  | breakGap {s cursor floor delivered highWater newest}
      (hlt : delivered < s.lastEventId) (hf : floorBelow? newest cursor = none) :
      Next announced request (.delivering (.gap cursor floor delivered highWater) [] newest) s
        .ended s
  | lower {s cursor floor delivered highWater newest} (hle : s.lastEventId ≤ delivered)
      (hf : cursor < floor) :
      Next announced request (.delivering (.gap cursor floor delivered highWater) [] newest) s
        (.reconciling cursor cursor) s
  | giveUp {s cursor floor delivered highWater newest} (hle : s.lastEventId ≤ delivered)
      (hf : ¬ cursor < floor) :
      Next announced request (.delivering (.gap cursor floor delivered highWater) [] newest) s
        (.confirming .force) s
  | settle {s cursor floor} :
      Next announced request (.settling cursor floor) s (.reconciling cursor floor)
        (s.withPhase .reconciling)
  | behind {s cursor floor} (hlt : s.lastEventId < announced) :
      Next announced request (.reconciling cursor floor) s (.lagging cursor floor announced) s
  | goLive {s cursor floor} (hle : announced ≤ s.lastEventId) :
      Next announced request (.reconciling cursor floor) s .ended
        ((s.accept (.subscriptionConfirmed request.channel)).withPhase .live)
  | refuseLive {s t cursor floor} (hle : announced ≤ s.lastEventId) (ht : Refuses s t) :
      Next announced request (.reconciling cursor floor) s .ended t
  | lag {s cursor floor highWater} :
      Next announced request (.lagging cursor floor highWater) s
        (.asking (.gap cursor floor s.lastEventId highWater)) s
  | confirm {s mode} :
      Next announced request (.confirming mode) s .ended
        (s.handOver announced mode (.subscriptionConfirmed request.channel)).1
  | report {s previous} :
      Next announced request (.reporting previous) s (.aborting previous)
        (s.push .historyFailed).1
  | abort {s previous} :
      Next announced request (.aborting previous) s .ended (s.abortReplay request.channel previous)

/-- How a move changes the line for the connection's lock. -/
def queue (k : TaskId) (stage : Stage) (line : List TaskId) : List TaskId :=
  match stage with
  | .awaitingLock => line ++ [k]
  | .ended => line.filter (· ≠ k)
  | _ => line

end Replay

/-! ### Moves of the hub -/

theorem update_eq_self {α : Type} (f : Nat → α) (i : Nat) : update f i (f i) = f := by
  funext j
  simp only [update]
  split
  · next h => rw [h]
  · rfl

theorem eq_or_of_update_eq {α : Type} {f : Nat → α} {i j : Nat} {a b : α}
    (h : update f i a j = b) : j = i ∧ a = b ∨ j ≠ i ∧ f j = b := by
  by_cases hj : j = i
  · subst hj
    exact .inl ⟨rfl, (update_self ..).symm.trans h⟩
  · exact .inr ⟨hj, (update_of_ne _ _ hj).symm.trans h⟩

namespace Hub

/-- `h'` is `h` after replay `r`, task `k`, has come to `stage` and left its subscriber `s`. -/
structure Moved (h : Hub) (k : TaskId) (r : Replay) (stage : Replay.Stage) (s : Subscriber)
    (h' : Hub) : Prop where
  task : h'.task = update h.task k (.replay { r with stage })
  subscriber : h'.subscriber = update h.subscriber r.connection s
  lockLine : h'.lockLine =
    update h.lockLine r.connection (Replay.queue k stage (h.lockLine r.connection))
  checkpoint : h'.checkpoint = h.checkpoint
  opened : h'.opened = h.opened
  registry : h'.registry = h.registry
  started : h'.started = h.started

/-- A move that puts the replay into no line. -/
theorem moved_setStage (h : Hub) (k : TaskId) (r : Replay) {stage : Replay.Stage} (s : Subscriber)
    (hq : Replay.queue k stage (h.lockLine r.connection) = h.lockLine r.connection) :
    Moved h k r stage s ((h.setSubscriber r.connection s).setStage k r stage) where
  task := rfl
  subscriber := rfl
  lockLine := by rw [hq, update_eq_self]; rfl
  checkpoint := rfl
  opened := rfl
  registry := rfl
  started := rfl

/-- A move that leaves the subscriber as it is. -/
theorem moved_setStage_only (h : Hub) (k : TaskId) (r : Replay) {stage : Replay.Stage}
    (hq : Replay.queue k stage (h.lockLine r.connection) = h.lockLine r.connection) :
    Moved h k r stage (h.subscriber r.connection) (h.setStage k r stage) where
  task := rfl
  subscriber := (update_eq_self ..).symm
  lockLine := by rw [hq, update_eq_self]; rfl
  checkpoint := rfl
  opened := rfl
  registry := rfl
  started := rfl

theorem moved_finish (h : Hub) (k : TaskId) (r : Replay) (s : Subscriber) :
    Moved h k r .ended s ((h.setSubscriber r.connection s).finish k r) :=
  ⟨rfl, rfl, rfl, rfl, rfl, rfl, rfl⟩

theorem moved_finish_only (h : Hub) (k : TaskId) (r : Replay) :
    Moved h k r .ended (h.subscriber r.connection) (h.finish k r) :=
  ⟨rfl, (update_eq_self ..).symm, rfl, rfl, rfl, rfl, rfl⟩

theorem deliver_next (h : Hub) (k : TaskId) (r : Replay) {purpose : Replay.Purpose}
    {left : List Event} {newest : Option Instant} :
    ∃ stage s, Replay.Next h.checkpoint.announced r.request (.delivering purpose left newest)
        (h.subscriber r.connection) stage s ∧
      Moved h k r stage s (h.deliver k r purpose left newest) := by
  cases left with
  | nil =>
      cases purpose with
      | history previous cursor covered =>
          cases hf : Replay.floorBelow? newest cursor with
          | none =>
              refine ⟨_, _, .breakHistory hf, ?_⟩
              simpa only [deliver, hf] using moved_finish h k r _
          | some floor =>
              refine ⟨_, _, .closeHistory hf, ?_⟩
              simpa only [deliver, hf] using moved_setStage h k r _ rfl
      | gap cursor floor delivered highWater =>
          by_cases hlt : delivered < (h.subscriber r.connection).lastEventId
          · cases hf : Replay.floorBelow? newest cursor with
            | none =>
                refine ⟨_, _, .breakGap hlt hf, ?_⟩
                simpa only [deliver, hlt, ite_true, hf] using moved_finish_only h k r
            | some floor' =>
                refine ⟨_, _, .closeGap hlt hf, ?_⟩
                simpa only [deliver, hlt, ite_true, hf] using moved_setStage_only h k r rfl
          · by_cases hf : cursor < floor
            · refine ⟨_, _, .lower (by omega) hf, ?_⟩
              simpa only [deliver, hlt, hf, ite_true, ite_false] using moved_setStage_only h k r rfl
            · refine ⟨_, _, .giveUp (by omega) hf, ?_⟩
              simpa only [deliver, hlt, hf, ite_false] using moved_setStage_only h k r rfl
  | cons e rest =>
      cases hm : Message.ofEvent? e with
      | none =>
          refine ⟨_, _, .skip hm, ?_⟩
          simpa only [deliver, hm] using moved_setStage h k r _ rfl
      | some m =>
          by_cases hid : e.id ≤ (h.subscriber r.connection).lastEventId
          · refine ⟨_, _, .stale hm hid, ?_⟩
            simpa only [deliver, hm, Subscriber.enqueueReplayed, hid, ite_true] using
              moved_setStage h k r _ rfl
          · rcases (h.subscriber r.connection).pushEvent_cases e.id (.event m) with
              hp | ⟨t, err, hp, ht⟩
            · refine ⟨_, _, .queue hm (by omega), ?_⟩
              simpa only [deliver, hm, Subscriber.enqueueReplayed, hid, ite_false, hp] using
                moved_setStage h k r _ rfl
            · cases purpose with
              | history previous cursor covered =>
                  refine ⟨_, _, .refuseHistory ht, ?_⟩
                  simpa only [deliver, hm, Subscriber.enqueueReplayed, hid, ite_false, hp] using
                    moved_setStage h k r _ rfl
              | gap cursor floor delivered highWater =>
                  refine ⟨_, _, .refuseGap ht, ?_⟩
                  simpa only [deliver, hm, Subscriber.enqueueReplayed, hid, ite_false, hp] using
                    moved_finish h k r _

theorem reconciling_next (h : Hub) (k : TaskId) (r : Replay) {cursor floor : Instant}
    (hs : r.stage = .reconciling cursor floor) :
    ∃ stage s, Replay.Next h.checkpoint.announced r.request (.reconciling cursor floor)
        (h.subscriber r.connection) stage s ∧ Moved h k r stage s (h.advanceReplay k r) := by
  by_cases hlt : (h.subscriber r.connection).lastEventId < h.checkpoint.announced
  · refine ⟨_, _, .behind hlt, ?_⟩
    simpa only [advanceReplay, hs, Subscriber.handOver_reconciled_of_lt hlt] using
      moved_setStage h k r _ rfl
  · have hle : h.checkpoint.announced ≤ (h.subscriber r.connection).lastEventId := by omega
    rcases Subscriber.handOver_reconciled_of_le hle (.subscriptionConfirmed r.request.channel) with
      hp | ⟨t, err, hp, ht⟩
    · refine ⟨_, _, .goLive hle, ?_⟩
      simpa only [advanceReplay, hs, hp] using moved_finish h k r _
    · refine ⟨_, _, .refuseLive hle ht, ?_⟩
      simpa only [advanceReplay, hs, hp] using moved_finish h k r _

/-- A replay that waits neither for the log nor for its end moves by one of the rules. -/
theorem advanceReplay_next (h : Hub) (k : TaskId) (r : Replay)
    (hask : ∀ purpose, r.stage ≠ .asking purpose) (hend : r.stage ≠ .ended) :
    ∃ stage s, Replay.Next h.checkpoint.announced r.request r.stage
        (h.subscriber r.connection) stage s ∧ Moved h k r stage s (h.advanceReplay k r) := by
  cases hs : r.stage with
  | arriving =>
      refine ⟨_, _, .arrive, ?_⟩
      simp only [advanceReplay, hs]
      exact ⟨rfl, (update_eq_self ..).symm, rfl, rfl, rfl, rfl, rfl⟩
  | awaitingLock =>
      refine ⟨_, _, .lock, ?_⟩
      simp only [advanceReplay, hs]
      exact ⟨rfl, (update_eq_self ..).symm, (update_eq_self ..).symm, rfl, rfl, rfl, rfl⟩
  | awaitingPermit =>
      refine ⟨_, _, .grant, ?_⟩
      simp only [advanceReplay, hs]
      exact ⟨rfl, (update_eq_self ..).symm, (update_eq_self ..).symm, rfl, rfl, rfl, rfl⟩
  | admitted =>
      cases hr : r.request.lastSeen with
      | none =>
          refine ⟨_, _, .beginFresh hr, ?_⟩
          simpa only [advanceReplay, hs, hr] using moved_setStage h k r _ rfl
      | some cursor =>
          refine ⟨_, _, .begin hr, ?_⟩
          simpa only [advanceReplay, hs, hr] using moved_setStage h k r _ rfl
  | opening previous cursor =>
      refine ⟨_, _, .ask, ?_⟩
      simpa only [advanceReplay, hs] using moved_setStage_only h k r rfl
  | asking purpose => exact absurd hs (hask purpose)
  | answered purpose answer =>
      cases answer with
      | ok events =>
          refine ⟨_, _, .take, ?_⟩
          simpa only [advanceReplay, hs] using moved_setStage_only h k r rfl
      | error failure =>
          cases purpose with
          | history previous cursor covered =>
              refine ⟨_, _, .historyFailed, ?_⟩
              simpa only [advanceReplay, hs] using moved_setStage_only h k r rfl
          | gap cursor floor delivered highWater =>
              refine ⟨_, _, .gapFailed, ?_⟩
              simpa only [advanceReplay, hs] using moved_setStage_only h k r rfl
  | delivering purpose left newest =>
      simpa only [advanceReplay, hs] using deliver_next h k r
  | settling cursor floor =>
      refine ⟨_, _, .settle, ?_⟩
      simpa only [advanceReplay, hs] using moved_setStage h k r _ rfl
  | reconciling cursor floor => exact reconciling_next h k r hs
  | lagging cursor floor highWater =>
      refine ⟨_, _, .lag, ?_⟩
      simpa only [advanceReplay, hs] using moved_setStage_only h k r rfl
  | confirming mode =>
      refine ⟨_, _, .confirm, ?_⟩
      simpa only [advanceReplay, hs] using moved_finish h k r _
  | reporting previous =>
      refine ⟨_, _, .report, ?_⟩
      simpa only [advanceReplay, hs] using moved_setStage h k r _ rfl
  | aborting previous =>
      refine ⟨_, _, .abort, ?_⟩
      simpa only [advanceReplay, hs] using moved_finish h k r _
  | ended => exact absurd hs hend

theorem isDropped_of_not_isWaiting (h : Hub) (k : TaskId) {r : Replay}
    (hw : r.stage.isWaiting = false) : h.isDropped k r = false := by
  simp [isDropped, isCancelled, hw]

theorem isCancelled_of_isDropped {h : Hub} {k : TaskId} {r : Replay}
    (hd : h.isDropped k r = true) : h.isCancelled r = true := by
  simp only [isDropped, Bool.and_eq_true] at hd
  exact hd.1

theorem isWaiting_of_isDropped {h : Hub} {k : TaskId} {r : Replay}
    (hd : h.isDropped k r = true) : r.stage.isWaiting = true := by
  have hc := isCancelled_of_isDropped hd
  simp only [isCancelled, Bool.and_eq_true] at hc
  exact hc.1

/-- What is cancelled and not dropped has what it waits for. -/
theorem isServed_of_isCancelled {h : Hub} {k : TaskId} {r : Replay}
    (hc : h.isCancelled r = true) (hd : h.isDropped k r = false) : h.isServed k r = true := by
  simp only [isDropped, hc, Bool.true_and, Bool.or_eq_false_iff] at hd
  simpa using hd.2

theorem canAdvance_of_isServed {h : Hub} {k : TaskId} {r : Replay} (ht : h.task k = .replay r)
    (hs : h.isServed k r = true) : h.canAdvance k = true := by
  simp [canAdvance, ht, hs]

theorem advance_of_isServed {h : Hub} {k : TaskId} {r : Replay} (ht : h.task k = .replay r)
    (hs : h.isServed k r = true) (hd : h.isDropped k r = false) :
    h.advance k = h.advanceReplay k r := by
  simp only [advance, canAdvance_of_isServed ht hs, ite_true, ht, hd, Bool.false_eq_true, ite_false]

/-- A replay in the middle of something takes its own step, whether its connection is cancelled
or not. -/
theorem advance_of_not_isWaiting {h : Hub} {k : TaskId} {r : Replay} (ht : h.task k = .replay r)
    (hw : r.stage.isWaiting = false) (hs : h.isServed k r = true) :
    h.advance k = h.advanceReplay k r :=
  advance_of_isServed ht hs (h.isDropped_of_not_isWaiting k hw)

/-- A replay that waits ends by being dropped, and in no other way. -/
theorem isDropped_of_isEnded {h : Hub} {k : TaskId} {r : Replay} (ht : h.task k = .replay r)
    (hw : r.stage.isWaiting = true) (hended : ((h.advance k).task k).isEnded = true) :
    h.isDropped k r = true := by
  cases hdrop : h.isDropped k r with
  | true => rfl
  | false =>
      refine absurd hended (Bool.eq_false_iff.mp ?_)
      obtain ⟨c, request, stage⟩ := r
      simp only [advance, ht, hdrop]
      split
      · cases stage with
        | arriving | awaitingLock | awaitingPermit | asking =>
            simp [advanceReplay, setStage, setTask, ht, Task.isEnded, Replay.Stage.isEnded]
        | answered purpose answer =>
            cases purpose <;> cases answer <;>
              simp [advanceReplay, setStage, setTask, Task.isEnded, Replay.Stage.isEnded]
        | _ => cases hw
      · rw [ht]
        cases stage <;> first | rfl | cases hw

/-- A replay that goes on has what it waits for, or is about to stand in line. -/
theorem isServed_of_not_isDropped {h : Hub} {k : TaskId} {r : Replay} (ht : h.task k = .replay r)
    (hcan : h.canAdvance k = true) (hdrop : h.isDropped k r = false) :
    h.isServed k r = true ∨ r.stage = .arriving := by
  simp only [canAdvance, ht, Bool.or_eq_true] at hcan
  rcases hcan with (hcancel | hserved) | harriving
  · exact .inl (isServed_of_isCancelled hcancel hdrop)
  · exact .inl hserved
  · right
    generalize r.stage = stage at harriving
    cases stage <;> first | rfl | cases harriving

/-- A replay that can advance moves by one of the rules. It takes its connection's lock only at
the head of the line. -/
theorem advance_replay {h : Hub} {k : TaskId} {r : Replay} (ht : h.task k = .replay r)
    (hcan : h.canAdvance k = true) :
    ∃ stage s, Replay.Next h.checkpoint.announced r.request r.stage
        (h.subscriber r.connection) stage s ∧ Moved h k r stage s (h.advance k) ∧
      (r.stage = .awaitingLock → stage ≠ .ended → (h.lockLine r.connection).head? = some k) := by
  cases hdrop : h.isDropped k r with
  | true =>
      have hw := isCancelled_of_isDropped hdrop
      simp only [isCancelled, Bool.and_eq_true] at hw
      refine ⟨_, _, .drop hw.1 hw.2, ?_, fun _ hne => absurd rfl hne⟩
      simpa only [advance, hcan, ite_true, ht, hdrop] using moved_finish_only h k r
  | false =>
      have hgo := isServed_of_not_isDropped ht hcan hdrop
      have hstage : (∀ purpose, r.stage ≠ .asking purpose) ∧ r.stage ≠ .ended := by
        constructor
        · intro purpose hs
          simp [isServed, hs] at hgo
        · intro hs
          simp [isServed, hs] at hgo
      obtain ⟨stage, s, hn, hm⟩ := advanceReplay_next h k r hstage.1 hstage.2
      refine ⟨stage, s, hn, ?_, fun hs _ => ?_⟩
      · simpa only [advance, hcan, ite_true, ht, hdrop, Bool.false_eq_true, ite_false] using hm
      · simpa [isServed, hs] using hgo

end Hub

end EventStream
