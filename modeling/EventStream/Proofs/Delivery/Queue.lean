import EventStream.Proofs.Delivery.Floor
import EventStream.Proofs.Delivery.Offers

/-! What the next step of a task puts to the queue of a connection: one frame at most. -/

namespace EventStream

namespace Subscriber

/-- A hand-over in this mode confirms the subscription. -/
def Confirms (s : Subscriber) (announced : Int) (mode : Handover) : Prop :=
  mode = .reconciled → announced ≤ s.lastEventId

instance (s : Subscriber) (announced : Int) (mode : Handover) :
    Decidable (s.Confirms announced mode) :=
  inferInstanceAs (Decidable (_ → _))

/-- From `s` to `t` the frame `put`, if there is one, has been pushed, and nothing else has
touched the queue. -/
structure Puts (s : Subscriber) (put : Option Frame) (t : Subscriber) : Prop where
  outbound : t.outbound = (put.elim s fun f => (s.push f).1).outbound
  cancelled : t.cancelled = (put.elim s fun f => (s.push f).1).cancelled

theorem Puts.none (s : Subscriber) : Puts s none s := ⟨rfl, rfl⟩

theorem isOpen_push (s : Subscriber) (f : Frame) :
    (s.push f).1.outbound.isOpen = s.outbound.isOpen := by
  rcases s.push_cases f with hp | ⟨t, e, hp, rfl | ⟨rfl, -⟩⟩ <;> rw [hp] <;> rfl

/-- Nothing that is put to it opens a closed queue. -/
theorem Puts.isOpen {s t : Subscriber} {put : Option Frame} (h : Puts s put t)
    (hs : s.outbound.isOpen = false) : t.outbound.isOpen = false := by
  rw [h.outbound]
  cases put with
  | none => exact hs
  | some f => rw [← hs]; exact isOpen_push s f

/-- A queue without room is closed, or its connection is cancelled. -/
theorem Puts.refused {s t : Subscriber} {f : Frame} (h : Puts s (some f) t)
    (hroom : ¬ s.HasRoom) : t.cancelled = true ∨ t.outbound.isOpen = false := by
  obtain ⟨u, e, hp, rfl | ⟨rfl, hclosed⟩⟩ := push_of_not_hasRoom hroom f
  · left
    rw [h.cancelled, Option.elim_some, hp]
    rfl
  · exact .inr (h.isOpen hclosed)

theorem puts_pushEvent (s : Subscriber) (id : Int) (f : Frame) :
    Puts s (some f) (s.pushEvent id f).1 := by
  rcases s.push_cases f with hp | ⟨t, e, hp, -⟩
  · constructor <;> simp [pushEvent, hp]
  · constructor <;> simp [pushEvent, hp]

theorem puts_enqueueReplayed (s : Subscriber) (id : Int) (f : Frame) :
    Puts s (if s.lastEventId < id then some f else none) (s.enqueueReplayed id f).1 := by
  by_cases hid : id ≤ s.lastEventId
  · simp only [enqueueReplayed, hid, ite_true, if_neg (Int.not_lt.mpr hid)]
    exact .none s
  · simp only [enqueueReplayed, hid, ite_false, if_pos (Int.not_le.mp hid)]
    exact puts_pushEvent s id f

theorem puts_enqueueLive (s : Subscriber) (id : Int) (f : Frame) :
    Puts s (if s.Admits id then some f else none) (s.enqueueLive id f).1 := by
  by_cases ha : s.Admits id
  · rw [enqueueLive_of_admits ha, if_pos ha]
    exact puts_pushEvent s id f
  · rw [enqueueLive_of_not_admits ha, if_neg ha]
    exact .none s

/-- What becomes of a frame depends on the queue alone. -/
theorem puts_push {s u : Subscriber} (hq : u.outbound = s.outbound)
    (hc : u.cancelled = s.cancelled) (f : Frame) : Puts s (some f) (u.push f).1 := by
  cases ho : s.outbound.offer f with
  | ok q => constructor <;> simp [push, hq, hc, ho]
  | error e =>
      cases e with
      | queueFull => constructor <;> simp [push, hq, ho, cancel]
      | closed => constructor <;> simp [push, hq, hc, ho]

theorem Puts.withPhase {s t : Subscriber} {put : Option Frame} (h : Puts s put t)
    (phase : Phase) : Puts s put (t.withPhase phase) :=
  ⟨h.outbound, h.cancelled⟩

/-- A hand-over without asking, from a subscriber with the queue of `s`. -/
theorem puts_handOver_force {s u : Subscriber} (hq : u.outbound = s.outbound)
    (hc : u.cancelled = s.cancelled) (announced : Int) (f : Frame) :
    Puts s (some f) (u.handOver announced .force f).1 := by
  have hpush := puts_push hq hc f
  rcases u.push_cases f with hp | ⟨t, e, hp, -⟩
  · rw [hp] at hpush
    simpa only [handOver, hp] using hpush.withPhase .live
  · rw [hp] at hpush
    simpa only [handOver, hp] using hpush

theorem puts_handOver (s : Subscriber) (announced : Int) (mode : Handover) (f : Frame) :
    Puts s (if s.Confirms announced mode then some f else none)
      (s.handOver announced mode f).1 := by
  cases mode with
  | fresh =>
      rw [if_pos (by simp [Confirms])]
      exact puts_handOver_force (s := s) (u := s.skipPast announced) rfl rfl announced f
  | force =>
      rw [if_pos (by simp [Confirms])]
      exact puts_handOver_force rfl rfl announced f
  | reconciled =>
      by_cases hlt : s.lastEventId < announced
      · rw [handOver_reconciled_of_lt hlt, if_neg (by simp [Confirms]; omega)]
        exact .none s
      · have hsame : s.handOver announced .reconciled f = s.handOver announced .force f := by
          simp only [handOver, hlt, ite_false]
        rw [hsame, if_pos (by simp [Confirms]; omega)]
        exact puts_handOver_force rfl rfl announced f

end Subscriber

namespace Replay

/-- The frame that the next step of a replay puts to its connection's queue. -/
def Stage.puts? (announced : Int) (channel : Channel) (s : Subscriber) : Stage → Option Frame
  | delivering _ (e :: _) _ =>
    if s.lastEventId < e.id then (Message.ofEvent? e).map .event else none
  | reconciling .. =>
    if s.Confirms announced .reconciled then some (.subscriptionConfirmed channel) else none
  | confirming mode =>
    if s.Confirms announced mode then some (.subscriptionConfirmed channel) else none
  | reporting _ => some .historyFailed
  | _ => none

theorem puts?_of_isWaiting {stage : Stage} (h : stage.isWaiting = true) {announced : Int}
    {channel : Channel} {s : Subscriber} : stage.puts? announced channel s = none := by
  cases stage with
  | arriving | awaitingLock | awaitingPermit | answered => rfl
  | _ => cases h

end Replay

namespace Hub

/-- The frame that the next step of task `k` puts to the queue of connection `c`. -/
def puts? (h : Hub) (k : TaskId) (c : ConnectionId) : Option Frame :=
  match h.task k with
  | .replay r =>
    if r.connection = c then
      r.stage.puts? h.checkpoint.announced r.request.channel (h.subscriber c)
    else none
  | .tick (.broadcasting _ (e :: _) _ (d :: _)) =>
    if d = c ∧ (h.subscriber c).Admits e.id then (Message.ofEvent? e).map .event else none
  | .tick _ => none

@[simp] theorem subscriber_setStage (h : Hub) (k : TaskId) (r : Replay) (stage : Replay.Stage) :
    (h.setStage k r stage).subscriber = h.subscriber :=
  rfl

@[simp] theorem subscriber_finish (h : Hub) (k : TaskId) (r : Replay) :
    (h.finish k r).subscriber = h.subscriber :=
  rfl

@[simp] theorem subscriber_setSubscriber_self (h : Hub) (c : ConnectionId) (s : Subscriber) :
    (h.setSubscriber c s).subscriber c = s :=
  update_self ..

theorem puts_deliver (h : Hub) (k : TaskId) (r : Replay) {purpose : Replay.Purpose}
    {left : List Event} {newest : Option Instant} :
    Subscriber.Puts (h.subscriber r.connection)
      (Replay.Stage.puts? h.checkpoint.announced r.request.channel (h.subscriber r.connection)
        (.delivering purpose left newest))
      ((h.deliver k r purpose left newest).subscriber r.connection) := by
  cases left with
  | nil =>
      cases purpose with
      | history previous cursor covered =>
          simp only [deliver]
          split <;> simpa using ⟨rfl, rfl⟩
      | gap cursor floor delivered highWater =>
          simp only [deliver]
          repeat' split
          all_goals exact .none _
  | cons e rest =>
      cases hm : Message.ofEvent? e with
      | none =>
          simp only [deliver, Replay.Stage.puts?, hm, Option.map_none, ite_self,
            subscriber_setStage, subscriber_setSubscriber_self]
          exact ⟨rfl, rfl⟩
      | some m =>
          have hput := (h.subscriber r.connection).puts_enqueueReplayed e.id (.event m)
          simp only [deliver, Replay.Stage.puts?, hm, Option.map_some]
          cases hq : (h.subscriber r.connection).enqueueReplayed e.id (.event m) with
          | mk t result =>
              rw [hq] at hput
              cases result with
              | ok _ => simpa using hput
              | error _ => cases purpose <;> simpa using hput

theorem puts_advanceReplay (h : Hub) (k : TaskId) (r : Replay) :
    Subscriber.Puts (h.subscriber r.connection)
      (r.stage.puts? h.checkpoint.announced r.request.channel (h.subscriber r.connection))
      ((h.advanceReplay k r).subscriber r.connection) := by
  cases hs : r.stage with
  | admitted =>
      simp only [advanceReplay, hs, subscriber_setStage, subscriber_setSubscriber_self]
      exact ⟨rfl, rfl⟩
  | answered purpose answer =>
      cases answer with
      | ok events => simpa only [advanceReplay, hs] using .none _
      | error failure =>
          cases purpose <;> simpa only [advanceReplay, hs] using .none _
  | delivering purpose left newest => simpa only [advanceReplay, hs] using puts_deliver h k r
  | settling cursor floor =>
      simp only [advanceReplay, hs, subscriber_setStage, subscriber_setSubscriber_self]
      exact ⟨rfl, rfl⟩
  | reconciling cursor floor =>
      have hput := (h.subscriber r.connection).puts_handOver h.checkpoint.announced .reconciled
        (.subscriptionConfirmed r.request.channel)
      simp only [advanceReplay, hs, Replay.Stage.puts?]
      cases hq : (h.subscriber r.connection).handOver h.checkpoint.announced .reconciled
          (.subscriptionConfirmed r.request.channel) with
      | mk t result =>
          rw [hq] at hput
          rcases result with failure | standing
          · simpa using hput
          · cases standing <;> simpa using hput
  | confirming mode =>
      simpa only [advanceReplay, hs, Replay.Stage.puts?, subscriber_finish,
        subscriber_setSubscriber_self] using
        (h.subscriber r.connection).puts_handOver h.checkpoint.announced mode
          (.subscriptionConfirmed r.request.channel)
  | reporting previous =>
      simpa only [advanceReplay, hs, Replay.Stage.puts?, subscriber_setStage,
        subscriber_setSubscriber_self] using Subscriber.puts_push rfl rfl .historyFailed
  | aborting previous =>
      simp only [advanceReplay, hs, subscriber_finish, subscriber_setSubscriber_self]
      exact ⟨rfl, rfl⟩
  | _ => simpa only [advanceReplay, hs] using .none _

/-- Who has a frame to put goes on, whether its connection is cancelled or not. -/
theorem canAdvance_of_puts? {h : Hub} {k : TaskId} {c : ConnectionId} {f : Frame}
    (hput : h.puts? k c = some f) : h.canAdvance k = true := by
  cases ht : h.task k with
  | replay r =>
      simp only [puts?, ht] at hput
      split at hput
      · cases hs : r.stage with
        | delivering | reconciling | confirming | reporting =>
            exact canAdvance_of_isServed ht (by simp [isServed, hs])
        | _ => rw [hs] at hput; cases hput
      · cases hput
  | tick stage =>
      cases stage with
      | asking => simp [puts?, ht] at hput
      | ended => simp [puts?, ht] at hput
      | _ => simp [canAdvance, ht]

theorem puts?_of_not_canAdvance {h : Hub} {k : TaskId} (hcan : h.canAdvance k = false)
    (c : ConnectionId) : h.puts? k c = none := by
  refine Option.eq_none_iff_forall_ne_some.mpr fun f hput => ?_
  rw [canAdvance_of_puts? hput] at hcan
  cases hcan

theorem puts_advance (h : Hub) (k : TaskId) (c : ConnectionId) :
    Subscriber.Puts (h.subscriber c) (h.puts? k c) ((h.advance k).subscriber c) := by
  cases hcan : h.canAdvance k with
  | false =>
      simp only [puts?_of_not_canAdvance hcan, advance, hcan, Bool.false_eq_true, ite_false]
      exact .none _
  | true =>
      cases ht : h.task k with
      | replay r =>
          simp only [puts?, ht]
          by_cases hc : r.connection = c
          · subst hc
            rw [if_pos rfl]
            cases hdrop : h.isDropped k r with
            | true =>
                have hnone : r.stage.puts? h.checkpoint.announced r.request.channel
                    (h.subscriber r.connection) = none :=
                  Replay.puts?_of_isWaiting (isWaiting_of_isDropped hdrop)
                simp only [hnone, advance, hcan, ite_true, ht, hdrop, subscriber_finish]
                exact .none _
            | false =>
                simpa only [advance, hcan, ite_true, ht, hdrop, Bool.false_eq_true, ite_false] using
                  puts_advanceReplay h k r
          · rw [if_neg hc]
            obtain ⟨stage, s, -, hm, -⟩ := advance_replay ht hcan
            rw [hm.subscriber, update_of_ne _ _ (Ne.symm hc)]
            exact .none _
      | tick stage =>
          obtain ⟨stage', checkpoint, subscriber, hn, heq⟩ := advance_tick ht hcan
          rw [heq]
          change Subscriber.Puts _ _ (subscriber c)
          cases hn with
          | @offer batch e rest live d targets m hm =>
              simp only [puts?, ht, hm, Option.map_some]
              by_cases hd : d = c
              · subst hd
                simp only [true_and, update_self]
                exact Subscriber.puts_enqueueLive ..
              · rw [update_of_ne _ _ (Ne.symm hd), if_neg fun h => hd h.1]
                exact .none _
          | @offerNone batch e rest live d targets hm =>
              simp only [puts?, ht, hm, Option.map_none, ite_self]
              exact .none _
          | _ => simpa only [puts?, ht] using .none _

/-- Only connections that have been opened are put anything. -/
theorem Tidy.lt_opened_of_puts? {h : Hub} (hh : h.Tidy) {k : TaskId} {c : ConnectionId}
    {f : Frame} (hput : h.puts? k c = some f) : c < h.opened := by
  cases ht : h.task k with
  | replay r =>
      simp only [puts?, ht] at hput
      split at hput
      · rename_i hc
        exact hc ▸ hh.replays k r ht
      · cases hput
  | tick stage =>
      simp only [puts?, ht] at hput
      split at hput
      · rename_i hs
        cases hs
      · rename_i batch e rest live d targets hs
        cases hs
        split at hput
        · rename_i hc
          exact hh.ticks k _ ht c (by simp [Tick.Stage.connections, hc.1])
        · cases hput
      · cases hput

end Hub

end EventStream
