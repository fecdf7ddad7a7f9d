import EventStream.Proofs.Delivery.Queue
import EventStream.Proofs.Delivery.Single

/-! The life of a replay whose frames all find room. It begins, queues events, and ends in one
of two ways: with a confirmation, or with an error after which it restores what was before. -/

namespace EventStream

open Subscriber (Puts Refuses)

namespace Subscriber

/-- A frame that finds room leaves its connection uncancelled. -/
theorem Puts.not_cancelled {s t : Subscriber} {put : Option Frame} (h : Puts s put t)
    (hc : s.cancelled = false) (hroom : put.isSome = true → s.HasRoom) :
    t.cancelled = false := by
  cases put with
  | none => rw [h.cancelled]; exact hc
  | some f =>
      rw [h.cancelled]
      simp only [Option.elim_some, push_of_hasRoom (hroom rfl)]
      exact hc

theorem Puts.accepted {s t : Subscriber} {put : Option Frame} (h : Puts s put t)
    (hroom : put.isSome = true → s.HasRoom) :
    t.outbound.accepted = s.outbound.accepted ++ put.toList := by
  cases put with
  | none => simp [h.outbound]
  | some f =>
      rw [h.outbound]
      simp only [Option.elim_some, push_of_hasRoom (hroom rfl), Option.toList_some]
      rfl

end Subscriber

namespace Replay

/-- How far a replay is with what it has to say. -/
inductive Progress where
  /-- It has not begun. -/
  | waiting
  /-- It has not said how it ends. -/
  | underway
  /-- It has told of its failure and is about to restore what was before. -/
  | told
  | over
  deriving DecidableEq

def Stage.progress : Stage → Progress
  | arriving => .waiting
  | awaitingLock => .waiting
  | awaitingPermit => .waiting
  | admitted => .waiting
  | aborting _ => .told
  | ended => .over
  | _ => .underway

theorem Stage.eq_ended_of_progress {stage : Stage} (h : stage.progress = .over) :
    stage = .ended := by
  cases stage <;> first | rfl | cases h

/-- Its history has failed, and it has not told of that. -/
def Stage.isFailing : Stage → Bool
  | answered (.history ..) (.error _) => true
  | reporting _ => true
  | _ => false

/-- What was before the replay, as long as it may have to be restored. -/
def Stage.previous? : Stage → Option Subscriber.Previous
  | opening previous _ => some previous
  | asking (.history previous ..) => some previous
  | answered (.history previous ..) _ => some previous
  | delivering (.history previous ..) .. => some previous
  | reporting previous => some previous
  | aborting previous => some previous
  | _ => none

/-- What a step of a replay does that is neither dropped nor refused its frame, if it has one. -/
inductive Act (request : Subscription) : Option Frame → Stage → Subscriber → Stage → Subscriber →
    Prop where
  | arrive {s} : Act request none .arriving s .awaitingLock s
  | lock {s} : Act request none .awaitingLock s .awaitingPermit s
  | grant {s} : Act request none .awaitingPermit s .admitted s
  | begin {stage' s} (h' : stage'.progress = .underway) (hf : stage'.isFailing = false)
      (hp : ∀ p ∈ stage'.previous?, p = s.previous request.channel) :
      Act request none .admitted s stage' (s.beginReplay request.channel)
  | goOn {stage stage' s t} (h : stage.progress = .underway) (h' : stage'.progress = .underway)
      (hf : stage'.isFailing = stage.isFailing) (hc : t.channels = s.channels)
      (hp : ∀ p ∈ stage'.previous?, p ∈ stage.previous?) : Act request none stage s stage' t
  | event {stage stage' s t m} (hd : stage.isDelivering = true)
      (hd' : stage'.isDelivering = true) (hc : t.channels = s.channels)
      (hp : ∀ p ∈ stage'.previous?, p ∈ stage.previous?) :
      Act request (some (.event m)) stage s stage' t
  | confirm {stage s t} (h : stage.progress = .underway) (hf : stage.isFailing = false)
      (hc : t.channels = s.channels) (hl : t.phase = .live) :
      Act request (some (.subscriptionConfirmed request.channel)) stage s .ended t
  | report {previous s t} (ha : Subscriber.Alike s t) :
      Act request (some .historyFailed) (.reporting previous) s (.aborting previous) t
  | abort {previous s} :
      Act request none (.aborting previous) s .ended (s.abortReplay request.channel previous)

section Next

variable {announced : Int} {request : Subscription} {stage stage' : Stage} {s t : Subscriber}

theorem act_of_next (hn : Next announced request stage s stage' t) (hu : stage.IsUnbroken)
    (hc : s.cancelled = false)
    (hput : Puts s (stage.puts? announced request.channel s) t)
    (hroom : (stage.puts? announced request.channel s).isSome = true → s.HasRoom)
    (hquiet : stage.isDelivering = true → stage.puts? announced request.channel s = none →
      stage'.progress = .underway ∧ stage'.isFailing = false) :
    Act request (stage.puts? announced request.channel s) stage s stage' t := by
  have hkept := hput.not_cancelled hc hroom
  have hrefuse : (stage.puts? announced request.channel s).isSome = true → ¬ Refuses s t :=
    fun hsome => not_refuses (hroom hsome).1 hkept
  have hloud : stage.isDelivering = true →
      ¬ (stage'.progress = .underway ∧ stage'.isFailing = false) →
      (stage.puts? announced request.channel s).isSome = true := fun hd hne =>
    Option.isSome_iff_ne_none.mpr fun hnone => hne (hquiet hd hnone)
  cases hn with
  | drop _ hcancel => rw [hc] at hcancel; cases hcancel
  | arrive => exact .arrive
  | lock => exact .lock
  | grant => exact .grant
  | begin => exact .begin rfl rfl fun p hp => by cases hp; rfl
  | beginFresh => exact .begin rfl rfl fun p hp => by cases hp
  | ask => exact .goOn rfl rfl rfl rfl fun p hp => hp
  | @take _ purpose =>
      cases purpose with
      | history => exact .goOn rfl rfl rfl rfl fun p hp => hp
      | gap => exact .goOn rfl rfl rfl rfl fun p hp => hp
  | historyFailed => exact .goOn rfl rfl rfl rfl fun p hp => hp
  | gapFailed => exact .goOn rfl rfl rfl rfl fun p hp => by cases hp
  | @skip _ purpose e rest newest hm =>
      rw [show Stage.puts? announced request.channel s (.delivering purpose (e :: rest) newest) =
        none by simp [Stage.puts?, hm]]
      exact .goOn rfl rfl rfl rfl fun p hp => by cases purpose <;> exact hp
  | @stale _ purpose e rest newest m hm hid =>
      rw [show Stage.puts? announced request.channel s (.delivering purpose (e :: rest) newest) =
        none by simp [Stage.puts?, Int.not_lt.mpr hid]]
      exact .goOn rfl rfl rfl rfl fun p hp => by cases purpose <;> exact hp
  | @queue _ purpose e rest newest m hm hid =>
      rw [show Stage.puts? announced request.channel s (.delivering purpose (e :: rest) newest) =
        some (.event m) by simp [Stage.puts?, hid, hm]]
      exact .event rfl rfl rfl fun p hp => by cases purpose <;> exact hp
  | refuseHistory hr =>
      exact absurd hr (hrefuse (hloud rfl (by simp [Stage.progress, Stage.isFailing])))
  | refuseGap hr =>
      exact absurd hr (hrefuse (hloud rfl (by simp [Stage.progress, Stage.isFailing])))
  | closeHistory => exact .goOn rfl rfl rfl rfl fun p hp => by cases hp
  | breakHistory => cases hloud rfl (by simp [Stage.progress, Stage.isFailing])
  | closeGap => exact .goOn rfl rfl rfl rfl fun p hp => by cases hp
  | breakGap => cases hloud rfl (by simp [Stage.progress, Stage.isFailing])
  | lower => exact .goOn rfl rfl rfl rfl fun p hp => by cases hp
  | giveUp => exact .goOn rfl rfl rfl rfl fun p hp => by cases hp
  | settle => exact .goOn rfl rfl rfl rfl fun p hp => by cases hp
  | @behind _ cursor floor hlt =>
      rw [show Stage.puts? announced request.channel s (.reconciling cursor floor) = none by
        simp [Stage.puts?, Subscriber.Confirms, hlt]]
      exact .goOn rfl rfl rfl rfl fun p hp => by cases hp
  | @goLive _ cursor floor hle =>
      rw [show Stage.puts? announced request.channel s (.reconciling cursor floor) =
        some (.subscriptionConfirmed request.channel) by
          simp [Stage.puts?, Subscriber.Confirms, hle]]
      exact .confirm rfl rfl rfl rfl
  | refuseLive hle hr =>
      refine absurd hr (hrefuse ?_)
      simp [Stage.puts?, Subscriber.Confirms, hle]
  | lag => exact .goOn rfl rfl rfl rfl fun p hp => by cases hp
  | @confirm _ mode =>
      have hmode : mode ≠ .reconciled := by
        rintro rfl
        exact hu.unasked rfl
      have hsome : Stage.puts? announced request.channel s (.confirming mode) =
          some (.subscriptionConfirmed request.channel) := by
        simp [Stage.puts?, Subscriber.Confirms, hmode]
      have hopen := (hroom (by rw [hsome]; rfl)).1
      rw [hsome]
      rcases Subscriber.handOver_unasked (s := s) announced hmode
        (.subscriptionConfirmed request.channel) with hp | hr
      · rw [hp]
        refine .confirm rfl rfl ?_ rfl
        cases mode <;> rfl
      · refine absurd hr (not_refuses ?_ hkept)
        cases mode <;> exact hopen
  | report => exact .report (Subscriber.alike_push s rfl)
  | abort => exact .abort

end Next

end Replay

namespace Hub

/-- A replay that has nothing to put while it delivers goes on. -/
theorem stage_of_deliver (h : Hub) (k : TaskId) (r : Replay) {purpose : Replay.Purpose}
    {left : List Event} {newest : Option Instant}
    (hu : (Replay.Stage.delivering purpose left newest).IsUnbroken)
    (hnone : Replay.Stage.puts? h.checkpoint.announced r.request.channel
      (h.subscriber r.connection) (.delivering purpose left newest) = none) :
    ∃ stage, (stage.progress = .underway ∧ stage.isFailing = false) ∧
      (h.deliver k r purpose left newest).task k = .replay { r with stage } := by
  cases left with
  | nil =>
      cases purpose with
      | history previous cursor covered =>
          obtain ⟨floor, hf⟩ : ∃ floor, Replay.floorBelow? newest cursor = some floor :=
            Option.isSome_iff_exists.mp (Replay.floorBelow?_isSome hu.newest cursor)
          simp only [deliver, hf]
          exact ⟨.settling cursor floor, ⟨rfl, rfl⟩, update_self ..⟩
      | gap cursor floor delivered highWater =>
          obtain ⟨floor', hf⟩ : ∃ floor, Replay.floorBelow? newest cursor = some floor :=
            Option.isSome_iff_exists.mp (Replay.floorBelow?_isSome hu.newest cursor)
          simp only [deliver, hf]
          split
          · exact ⟨.reconciling cursor floor', ⟨rfl, rfl⟩, update_self ..⟩
          · split
            · exact ⟨.reconciling cursor cursor, ⟨rfl, rfl⟩, update_self ..⟩
            · exact ⟨.confirming .force, ⟨rfl, rfl⟩, update_self ..⟩
  | cons e rest =>
      refine ⟨.delivering purpose rest (some (Replay.later newest e.createdAt)), ⟨rfl, rfl⟩, ?_⟩
      cases hm : Message.ofEvent? e with
      | none =>
          simp only [deliver, hm]
          exact update_self ..
      | some m =>
          have hle : e.id ≤ (h.subscriber r.connection).lastEventId :=
            Int.not_lt.mp fun hlt => by simp [Replay.Stage.puts?, hm, hlt] at hnone
          simp only [deliver, hm, Subscriber.enqueueReplayed, hle, ite_true]
          exact update_self ..

theorem act_of_advance {h : Hub} {k : TaskId} {r : Replay} (ht : h.task k = .replay r)
    (hcan : h.canAdvance k = true) (hu : r.stage.IsUnbroken)
    (hc : (h.subscriber r.connection).cancelled = false)
    (hroom : (h.puts? k r.connection).isSome = true → (h.subscriber r.connection).HasRoom) :
    ∃ stage s, Replay.Act r.request (h.puts? k r.connection) r.stage (h.subscriber r.connection)
      stage s ∧ h.Moved k r stage s (h.advance k) := by
  obtain ⟨stage, s, hn, hm, -⟩ := advance_replay ht hcan
  have hput := h.puts_advance k r.connection
  have hsame : h.puts? k r.connection = r.stage.puts? h.checkpoint.announced r.request.channel
      (h.subscriber r.connection) := by simp only [puts?, ht, ite_true]
  rw [hm.subscriber, update_self] at hput
  rw [hsame] at hput hroom ⊢
  refine ⟨stage, s, Replay.act_of_next hn hu hc hput hroom fun hd hnone => ?_, hm⟩
  cases hs : r.stage with
  | delivering purpose left newest =>
      rw [hs] at hu hnone
      obtain ⟨stage', hp, hk⟩ := h.stage_of_deliver k r hu hnone
      have hadvance : (h.advance k).task k = .replay { r with stage := stage' } := by
        rw [advance_of_not_isWaiting ht (by rw [hs]; rfl) (by simp [isServed, hs])]
        simpa only [advanceReplay, hs] using hk
      rw [hm.task, update_self] at hadvance
      cases hadvance
      exact hp
  | _ => rw [hs] at hd; cases hd

end Hub

end EventStream
