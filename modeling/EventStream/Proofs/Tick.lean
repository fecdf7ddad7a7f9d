import EventStream.Proofs.Replay

/-! The rules by which a tick moves. A tick touches the checkpoint when it announces, when it
marks an event and when it closes, and a subscriber only when it offers it an event. -/

namespace EventStream

namespace Tick

/-- From the stage on the left to stage, checkpoint and subscribers on the right. -/
inductive Next (h : Hub) :
    Stage → Stage → Checkpoint → (ConnectionId → Subscriber) → Prop where
  | ask : Next h .starting (.asking h.checkpoint.after) h.checkpoint h.subscriber
  | fail {failure} :
      Next h (.answered (.error failure)) (.ended (.failed failure)) h.checkpoint h.subscriber
  | idle : Next h (.answered (.ok [])) (.ended (.polled 0)) h.checkpoint h.subscriber
  | sort {events} (hne : events ≠ []) :
      Next h (.answered (.ok events)) (.announcing (Event.sortById events)) h.checkpoint
        h.subscriber
  | announce {batch last} (hl : batch.getLast? = some last) :
      Next h (.announcing batch) (.picking batch h.registry []) (h.checkpoint.announce last.id)
        h.subscriber
  | announceNone {batch} (hl : batch.getLast? = none) :
      Next h (.announcing batch) (.picking batch h.registry []) h.checkpoint h.subscriber
  | pick {batch c unseen live} (hc : (h.subscriber c).isLiveOn .systemEvents = true) :
      Next h (.picking batch (c :: unseen) live) (.picking batch unseen (live ++ [c]))
        h.checkpoint h.subscriber
  | passOver {batch c unseen live} (hc : (h.subscriber c).isLiveOn .systemEvents = false) :
      Next h (.picking batch (c :: unseen) live) (.picking batch unseen live) h.checkpoint
        h.subscriber
  | fanOut {batch live} :
      Next h (.picking batch [] live) (.broadcasting batch batch live (targets batch live))
        h.checkpoint h.subscriber
  | offer {batch e rest live c targets m} (hm : Message.ofEvent? e = some m) :
      Next h (.broadcasting batch (e :: rest) live (c :: targets))
        (.broadcasting batch (e :: rest) live targets) h.checkpoint
        (update h.subscriber c ((h.subscriber c).enqueueLive e.id (.event m)).1)
  | offerNone {batch e rest live c targets} (hm : Message.ofEvent? e = none) :
      Next h (.broadcasting batch (e :: rest) live (c :: targets))
        (.broadcasting batch (e :: rest) live targets) h.checkpoint h.subscriber
  | mark {batch e rest live} :
      Next h (.broadcasting batch (e :: rest) live [])
        (.broadcasting batch rest live (targets rest live)) (h.checkpoint.markBroadcast e.id)
        h.subscriber
  | closeNone {batch live targets} (hn : Hub.newest? batch = none) :
      Next h (.broadcasting batch [] live targets) (.ended (.polled batch.length)) h.checkpoint
        h.subscriber
  | close {batch live targets newest after} (hn : Hub.newest? batch = some newest)
      (ha : newest.next? = some after) :
      Next h (.broadcasting batch [] live targets) (.ended (.polled batch.length))
        (h.checkpoint.advanceTo after) h.subscriber
  | overflow {batch live targets newest} (hn : Hub.newest? batch = some newest)
      (ha : newest.next? = none) :
      Next h (.broadcasting batch [] live targets) (.ended .overflowed) h.checkpoint h.subscriber

/-- The connections that a tick has in hand. -/
def Stage.connections : Stage → List ConnectionId
  | .picking _ unseen live => unseen ++ live
  | .broadcasting _ _ live targets => live ++ targets
  | _ => []

theorem mem_of_mem_targets {left : List Event} {live : List ConnectionId} {c : ConnectionId}
    (h : c ∈ targets left live) : c ∈ live := by
  cases left with
  | nil => cases h
  | cons e rest =>
      simp only [targets] at h
      split at h
      · exact h
      · cases h

end Tick

namespace Hub

/-- `h'` is `h` after the tick `k` has come to `stage`, with the checkpoint and the subscribers
that it leaves. -/
def Ticked (h : Hub) (k : TaskId) (stage : Tick.Stage) (checkpoint : Checkpoint)
    (subscriber : ConnectionId → Subscriber) : Hub :=
  { h with checkpoint, subscriber, task := update h.task k (.tick stage) }

theorem advanceTick_next (h : Hub) (k : TaskId) {stage : Tick.Stage}
    (hask : ∀ after, stage ≠ .asking after) (hend : ∀ outcome, stage ≠ .ended outcome) :
    ∃ stage' checkpoint subscriber, Tick.Next h stage stage' checkpoint subscriber ∧
      h.advanceTick k stage = h.Ticked k stage' checkpoint subscriber := by
  cases stage with
  | starting => exact ⟨_, _, _, .ask, rfl⟩
  | asking after => exact absurd rfl (hask after)
  | answered answer =>
      cases answer with
      | error failure => exact ⟨_, _, _, .fail, rfl⟩
      | ok events =>
          cases events with
          | nil => exact ⟨_, _, _, .idle, rfl⟩
          | cons e events => exact ⟨_, _, _, .sort (List.cons_ne_nil _ _), rfl⟩
  | announcing batch =>
      cases hl : batch.getLast? with
      | none => exact ⟨_, _, _, .announceNone hl, by simp only [advanceTick, hl]; rfl⟩
      | some last => exact ⟨_, _, _, .announce hl, by simp only [advanceTick, hl]; rfl⟩
  | picking batch unseen live =>
      cases unseen with
      | nil => exact ⟨_, _, _, .fanOut, rfl⟩
      | cons c unseen =>
          cases hc : (h.subscriber c).isLiveOn .systemEvents with
          | true => exact ⟨_, _, _, .pick hc, by simp only [advanceTick, hc, ite_true]; rfl⟩
          | false =>
              refine ⟨_, _, _, .passOver hc, ?_⟩
              simp only [advanceTick, hc, Bool.false_eq_true, ite_false]
              rfl
  | broadcasting batch left live targets =>
      cases left with
      | nil =>
          cases hn : newest? batch with
          | none => exact ⟨_, _, _, .closeNone hn, by simp only [advanceTick, close, hn]; rfl⟩
          | some newest =>
              cases ha : newest.next? with
              | none =>
                  exact ⟨_, _, _, .overflow hn ha, by simp only [advanceTick, close, hn, ha]; rfl⟩
              | some after =>
                  exact ⟨_, _, _, .close hn ha, by simp only [advanceTick, close, hn, ha]; rfl⟩
      | cons e rest =>
          cases targets with
          | nil => exact ⟨_, _, _, .mark, rfl⟩
          | cons c targets =>
              cases hm : Message.ofEvent? e with
              | none => exact ⟨_, _, _, .offerNone hm, by simp only [advanceTick, hm]; rfl⟩
              | some m => exact ⟨_, _, _, .offer hm, by simp only [advanceTick, hm]; rfl⟩
  | ended outcome => exact absurd rfl (hend outcome)

/-- A tick that can advance moves by one of the rules. -/
theorem advance_tick {h : Hub} {k : TaskId} {stage : Tick.Stage} (ht : h.task k = .tick stage)
    (hcan : h.canAdvance k = true) :
    ∃ stage' checkpoint subscriber, Tick.Next h stage stage' checkpoint subscriber ∧
      h.advance k = h.Ticked k stage' checkpoint subscriber := by
  simp only [advance, hcan, ite_true, ht]
  apply advanceTick_next
  · rintro after rfl
    simp [canAdvance, ht] at hcan
  · rintro outcome rfl
    simp [canAdvance, ht] at hcan

end Hub

end EventStream
