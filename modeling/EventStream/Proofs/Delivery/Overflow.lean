import EventStream.Proofs.Delivery.Queue
import EventStream.Proofs.World.Lock

/-! A queue that was full. The event that found no room is dropped and its connection cancelled,
which ends those of its replays that wait and see it first. But a replay may find what it waits for
before it sees that its connection is cancelled, and ticks go on offering to it anyway. -/

namespace EventStream

open Subscriber (Puts Refuses)

namespace Subscriber

/-- What is put to a queue that has room is queued. -/
theorem Puts.messages_of_hasRoom {s t : Subscriber} {m : Message}
    (h : Puts s (some (.event m)) t) (hroom : s.HasRoom) : t.messages = s.messages ++ [m] := by
  have hsame : t.messages = (s.push (.event m)).1.messages := by
    simp only [messages, h.outbound, Option.elim_some]
  rw [hsame, push_of_hasRoom hroom, messages_accept]
  rfl

/-- Nothing but an event that finds room is queued as one. -/
theorem Puts.messages_eq {s t : Subscriber} {put : Option Frame} (h : Puts s put t)
    (hnone : ∀ m, put = some (.event m) → ¬ s.HasRoom) : t.messages = s.messages := by
  have hsame : t.messages = (put.elim s fun f => (s.push f).1).messages := by
    simp only [messages, h.outbound]
  rw [hsame]
  cases put with
  | none => rfl
  | some f =>
      cases hf : f.message? with
      | none => exact (alike_push s hf).messages
      | some m =>
          have hevent : f = .event m := by
            cases f <;> first | cases hf
            rfl
          obtain ⟨u, e, hp, hu⟩ := push_of_not_hasRoom (hnone m (by rw [hevent])) f
          simp only [Option.elim_some, hp]
          exact (alike_of_refuses hu).messages

/-- From `s` to `t`, a move later: what was cancelled stays so, and no room has been made. -/
structure Onward (s t : Subscriber) : Prop where
  cancelled : s.cancelled = true → t.cancelled = true
  room : t.HasRoom → s.HasRoom

theorem Onward.refl (s : Subscriber) : Onward s s := ⟨id, id⟩

theorem Onward.trans {s t u : Subscriber} (h : Onward s t) (h' : Onward t u) : Onward s u :=
  ⟨h'.cancelled ∘ h.cancelled, h.room ∘ h'.room⟩

theorem onward_of_refuses {s t : Subscriber} (h : Refuses s t) : Onward s t := by
  rcases h with rfl | ⟨rfl, -⟩
  · exact ⟨fun _ => rfl, id⟩
  · exact .refl _

theorem onward_accept (s : Subscriber) (f : Frame) : Onward s (s.accept f) where
  cancelled := id
  room := by
    rintro ⟨hopen, hlt⟩
    refine ⟨hopen, Nat.lt_of_le_of_lt ?_ hlt⟩
    simp only [Outbound.pending, accept, List.length_drop, List.length_append]
    omega

theorem onward_push (s : Subscriber) (f : Frame) : Onward s (s.push f).1 := by
  rcases s.push_cases f with hp | ⟨t, e, hp, ht⟩
  · rw [hp]; exact onward_accept s f
  · rw [hp]; exact onward_of_refuses ht

theorem onward_enqueueLive (s : Subscriber) (id : Int) (f : Frame) :
    Onward s (s.enqueueLive id f).1 := by
  by_cases ha : s.Admits id
  · rw [enqueueLive_of_admits ha]
    rcases s.pushEvent_cases id f with hp | ⟨t, e, hp, ht⟩
    · rw [hp]; exact ⟨(onward_accept s f).cancelled, (onward_accept s f).room⟩
    · rw [hp]; exact onward_of_refuses ht
  · rw [enqueueLive_of_not_admits ha]
    exact .refl s

theorem onward_handOver (s : Subscriber) (announced : Int) (mode : Handover) (f : Frame) :
    Onward s (s.handOver announced mode f).1 := by
  by_cases hm : mode = .reconciled
  · subst hm
    by_cases hlt : s.lastEventId < announced
    · rw [handOver_reconciled_of_lt hlt]
      exact .refl s
    · rcases handOver_reconciled_of_le (Int.not_lt.mp hlt) f with hp | ⟨t, e, hp, ht⟩
      · rw [hp]; exact ⟨(onward_accept s f).cancelled, (onward_accept s f).room⟩
      · rw [hp]; exact onward_of_refuses ht
  · have hu : Onward s (if mode = .fresh then s.skipPast announced else s) := by
      split <;> exact ⟨id, id⟩
    refine hu.trans ?_
    rcases handOver_unasked announced hm f with hp | ht
    · rw [hp]; exact ⟨(onward_accept _ f).cancelled, (onward_accept _ f).room⟩
    · exact onward_of_refuses ht

end Subscriber

namespace Replay

theorem onward_of_next {announced : Int} {request : Subscription} {stage stage' : Stage}
    {s t : Subscriber} (hn : Next announced request stage s stage' t) :
    Subscriber.Onward s t := by
  cases hn with
  | queue => exact ⟨id, (Subscriber.onward_accept s _).room⟩
  | refuseHistory ht => exact Subscriber.onward_of_refuses ht
  | refuseGap ht => exact Subscriber.onward_of_refuses ht
  | goLive => exact ⟨id, (Subscriber.onward_accept s _).room⟩
  | refuseLive _ ht => exact Subscriber.onward_of_refuses ht
  | confirm => exact Subscriber.onward_handOver ..
  | report => exact Subscriber.onward_push s _
  | _ => exact ⟨id, id⟩

namespace Stage

/-- In the middle of something: begun, and neither in a query nor ended. -/
def isWorking : Stage → Bool
  | asking _ => false
  | ended => false
  | stage => !stage.isWaiting

/-- The stages from which a replay goes to work: its permit or its answer is all it waits for. -/
def isPending : Stage → Bool
  | awaitingPermit => true
  | answered .. => true
  | _ => false

end Stage

theorem isWorking_of_isDelivering {stage : Stage} (h : stage.isDelivering = true) :
    stage.isWorking = true := by
  cases stage <;> first | rfl | cases h

theorem isWorking_of_next {announced : Int} {request : Subscription} {stage stage' : Stage}
    {s t : Subscriber} (hn : Next announced request stage s stage' t)
    (h : stage'.isWorking = true) : stage.isPending = true ∨ stage.isWorking = true := by
  cases hn <;> first | exact .inl rfl | exact .inr rfl | cases h

/-- A replay has events to put while it delivers, and at no other time. -/
theorem isDelivering_of_puts? {announced : Int} {channel : Channel} {s : Subscriber}
    {stage : Stage} {m : Message} (h : stage.puts? announced channel s = some (.event m)) :
    stage.isDelivering = true := by
  cases stage with
  | delivering => rfl
  | reconciling | confirming =>
      simp only [Stage.puts?] at h
      split at h <;> cases h
  | _ => cases h

/-- A replay that delivers has taken an answer. -/
theorem isDelivering_of_next {announced : Int} {request : Subscription} {stage stage' : Stage}
    {s t : Subscriber} (hn : Next announced request stage s stage' t)
    (h : stage'.isDelivering = true) : stage.isPending = true ∨ stage.isDelivering = true := by
  cases hn with
  | take => exact .inl rfl
  | skip => exact .inr rfl
  | stale => exact .inr rfl
  | queue => exact .inr rfl
  | _ => cases h

end Replay

namespace World

section Apply

variable {w : World} {m : Move} {c : ConnectionId}

theorem onward_onSubscriber (d : ConnectionId) {f : Subscriber → Subscriber}
    (h : d = c → Subscriber.Onward (w.hub.subscriber d) (f (w.hub.subscriber d))) :
    Subscriber.Onward (w.hub.subscriber c) ((w.onSubscriber d f).hub.subscriber c) := by
  change Subscriber.Onward _ (update w.hub.subscriber d _ c)
  by_cases hd : d = c
  · subst hd
    rw [update_self]
    exact h rfl
  · rw [update_of_ne _ _ (Ne.symm hd)]
    exact .refl _

theorem onward_advance (k : TaskId) :
    Subscriber.Onward (w.hub.subscriber c) ((w.hub.advance k).subscriber c) := by
  cases hcan : w.hub.canAdvance k with
  | false =>
      simp only [Hub.advance, hcan, Bool.false_eq_true, ite_false]
      exact .refl _
  | true =>
      cases ht : w.hub.task k with
      | replay r =>
          obtain ⟨stage, s, hn, hm, -⟩ := Hub.advance_replay ht hcan
          rw [hm.subscriber]
          by_cases hc : c = r.connection
          · subst hc
            rw [update_self]
            exact Replay.onward_of_next hn
          · rw [update_of_ne _ _ hc]
            exact .refl _
      | tick stage =>
          obtain ⟨stage', checkpoint, subscriber, hn, heq⟩ := Hub.advance_tick ht hcan
          rw [heq]
          change Subscriber.Onward _ (subscriber c)
          cases hn with
          | @offer batch e rest live d targets n =>
              by_cases hc : c = d
              · subst hc
                rw [update_self]
                exact Subscriber.onward_enqueueLive _ _ _
              · rw [update_of_ne _ _ hc]
                exact .refl _
          | _ => exact .refl _

/-- Only a client that receives makes room. -/
theorem onward_apply (hc : c < w.hub.opened) (hm : ∀ limit, m ≠ .receive c limit) :
    Subscriber.Onward (w.hub.subscriber c) ((w.apply m).hub.subscriber c) := by
  cases m with
  | append draft =>
      simp only [apply, withLog]
      split <;> exact .refl _
  | insertRow id row =>
      simp only [apply, withLog]
      split <;> exact .refl _
  | connect =>
      change Subscriber.Onward _ (update w.hub.subscriber w.hub.opened _ c)
      rw [update_of_ne _ _ (Nat.ne_of_lt hc)]
      exact .refl _
  | disconnect d => exact onward_onSubscriber d fun _ => ⟨fun _ => rfl, id⟩
  | shutdown => exact ⟨fun _ => rfl, id⟩
  | advance k => exact onward_advance k
  | answer k a =>
      simp only [apply, onHub, Hub.answer]
      split
      · split <;> exact .refl _
      · exact .refl _
      · exact .refl _
  | receive d limit => exact onward_onSubscriber d fun hd => absurd (hd ▸ rfl) (hm limit)
  | closeReceiver d =>
      exact onward_onSubscriber d fun _ => ⟨id, fun h => absurd h.1 Bool.false_ne_true⟩
  | send d f => exact onward_onSubscriber d fun _ => Subscriber.onward_push _ f
  | offerLive d id f => exact onward_onSubscriber d fun _ => Subscriber.onward_enqueueLive _ id f
  | _ => exact .refl _

/-- A connection that has been cancelled stays so. -/
theorem cancelled_apply (hc : c < w.hub.opened) (h : (w.hub.subscriber c).cancelled = true) :
    ((w.apply m).hub.subscriber c).cancelled = true := by
  by_cases hm : ∃ limit, m = .receive c limit
  · obtain ⟨limit, rfl⟩ := hm
    change (update w.hub.subscriber c _ c).cancelled = true
    rw [update_self]
    exact h
  · exact (onward_apply hc fun limit heq => hm ⟨limit, heq⟩).cancelled h

end Apply

/-! ### Replays of a cancelled connection -/

theorem task_advance_of_isDropped {h : Hub} {k : TaskId} {r : Replay} (ht : h.task k = .replay r)
    (hd : h.isDropped k r = true) : (h.advance k).task k = .replay { r with stage := .ended } := by
  have hcan : h.canAdvance k = true := by
    simp [Hub.canAdvance, ht, Hub.isCancelled_of_isDropped hd]
  simp only [Hub.advance, hcan, ite_true, ht, hd]
  exact update_self ..

/-- A replay of connection `c`, task `k`, goes to work although the connection is cancelled: it
sees its permit or its answer first. -/
def Outruns (w : World) (c : ConnectionId) (k : TaskId) : Prop :=
  ∃ r, w.hub.task k = .replay r ∧ r.connection = c ∧ r.stage.isPending = true ∧
    (w.hub.subscriber c).cancelled = true ∧ w.hub.isDropped k r = false

/-- It has done so in the course of a run. -/
def Outran (past : List (World × Move)) (c : ConnectionId) (k : TaskId) : Prop :=
  ∃ v, (v, .advance k) ∈ past ∧ v.Outruns c k

theorem Outran.cons {past : List (World × Move)} {w : World} {m : Move} {c : ConnectionId}
    {k : TaskId} (h : Outran past c k) : Outran ((w, m) :: past) c k := by
  obtain ⟨v, hv, h⟩ := h
  exact ⟨v, List.mem_cons_of_mem _ hv, h⟩

/-- A replay that has not ended by such a step has outrun the cancellation. -/
theorem outruns_of_not_ended {w : World} {k : TaskId} {r : Replay} {stage : Replay.Stage}
    (ht : w.hub.task k = .replay r) (hs : r.stage.isPending = true)
    (hcancel : (w.hub.subscriber r.connection).cancelled = true)
    (ht' : (w.apply (.advance k)).hub.task k = .replay { r with stage }) (hne : stage ≠ .ended) :
    w.Outruns r.connection k := by
  refine ⟨r, ht, rfl, hs, hcancel, Bool.eq_false_iff.mpr fun hd => hne ?_⟩
  have hended := task_advance_of_isDropped ht hd
  change (w.hub.advance k).task k = _ at ht'
  rw [ht'] at hended
  cases hended
  rfl

/-- Work of a kind `P` to which replays come from a permit, from an answer or from such work: if
only replays that have outrun the cancellation do it, a move later that is still so. -/
theorem outran_apply {P : Replay.Stage → Bool} {past : List (World × Move)} {c : ConnectionId}
    {w : World} {m : Move} (hw : w.hub.Tidy) (hm : w.Possible m)
    (hcancel : (w.hub.subscriber c).cancelled = true)
    (hwork : ∀ stage, P stage = true → stage.isWorking = true)
    (hnext : ∀ {announced request stage s stage' t},
      Replay.Next announced request stage s stage' t → P stage' = true →
        stage.isPending = true ∨ P stage = true)
    (h : ∀ k r, w.hub.task k = .replay r → r.connection = c → P r.stage = true → Outran past c k)
    (k : TaskId) (r : Replay) (hk : (w.apply m).hub.task k = .replay r) (hr : r.connection = c)
    (hP : P r.stage = true) : Outran ((w, m) :: past) c k := by
  have hc := (effect hw hm).came k
  rw [hk] at hc
  cases hc with
  | stays _ ht => exact (h k r ht hr hP).cons
  | subscribes => cases hwork _ hP
  | answersReplay => cases hwork _ hP
  | @movesReplay q stage s ht hn =>
      obtain rfl : q.connection = c := hr
      rcases hnext hn hP with hpending | hq
      · refine ⟨w, List.mem_cons_self, outruns_of_not_ended ht hpending hcancel hk ?_⟩
        rintro rfl
        cases hwork _ hP
      · exact (h k q ht rfl hq).cons

/-! ### After the refusal -/

/-- The connection has been cancelled, and only replays that have outrun the cancellation deliver
to it. -/
structure Muted (past : List (World × Move)) (c : ConnectionId) (w : World) : Prop where
  opened : c < w.hub.opened
  cancelled : (w.hub.subscriber c).cancelled = true
  outran : ∀ k r, w.hub.task k = .replay r → r.connection = c → r.stage.isDelivering = true →
    Outran past c k

theorem muted_step {past : List (World × Move)} {c : ConnectionId} {w : World} {m : Move}
    (h : w.Muted past c) (hw : w.hub.Tidy) (hm : w.Possible m) :
    (w.apply m).Muted ((w, m) :: past) c where
  opened := Nat.lt_of_lt_of_le h.opened (opened_le_apply w m)
  cancelled := cancelled_apply h.opened h.cancelled
  outran := outran_apply hw hm h.cancelled (fun _ => Replay.isWorking_of_isDelivering)
    Replay.isDelivering_of_next h.outran

/-! ### The refusal -/

/-- The next step of task `i` brings connection `c` an event for which its queue has no room. -/
inductive Overflows (w : World) (c : ConnectionId) (i : TaskId) : Prop where
  | tick {m} (ho : (w.hub.task i).offer? = some (c, m))
      (hf : ((w.hub.subscriber c).enqueueLive m.id (.event m)).2 = .error .queueFull)
  | replay {r purpose e rest newest m} (ht : w.hub.task i = .replay r) (hc : r.connection = c)
      (hs : r.stage = .delivering purpose (e :: rest) newest)
      (hm : Message.ofEvent? e = some m)
      (hf : ((w.hub.subscriber c).enqueueReplayed e.id (.event m)).2 = .error .queueFull)

/-- A replay whose event finds no room stops delivering. -/
theorem deliver_of_queueFull {h : Hub} {k : TaskId} {r : Replay} {purpose : Replay.Purpose}
    {e : Event} {rest : List Event} {newest : Option Instant} {m : Message}
    (ht : h.task k = .replay r) (hs : r.stage = .delivering purpose (e :: rest) newest)
    (hm : Message.ofEvent? e = some m)
    (hf : ((h.subscriber r.connection).enqueueReplayed e.id (.event m)).2 = .error .queueFull) :
    ∃ stage, stage.isDelivering = false ∧
      Hub.Moved h k r stage (h.subscriber r.connection).cancel (h.advance k) := by
  have hlt : ¬ e.id ≤ (h.subscriber r.connection).lastEventId := by
    intro hle
    simp [Subscriber.enqueueReplayed, hle] at hf
  have hpush : (h.subscriber r.connection).enqueueReplayed e.id (.event m) =
      ((h.subscriber r.connection).cancel, .error .queueFull) := by
    simp only [Subscriber.enqueueReplayed, hlt, ite_false] at hf ⊢
    exact Prod.ext (Subscriber.pushEvent_eq_cancel hf).2 hf
  have hstep : h.advance k = h.deliver k r purpose (e :: rest) newest := by
    rw [Hub.advance_of_not_isWaiting ht (by rw [hs]; rfl) (by simp [Hub.isServed, hs])]
    simp only [Hub.advanceReplay, hs]
  cases purpose with
  | history previous cursor covered =>
      refine ⟨.reporting previous, rfl, ?_⟩
      rw [hstep]
      simpa only [Hub.deliver, hm, hpush] using Hub.moved_setStage h k r _ rfl
  | gap cursor floor delivered highWater =>
      refine ⟨.ended, rfl, ?_⟩
      rw [hstep]
      simpa only [Hub.deliver, hm, hpush] using Hub.moved_finish h k r _

theorem Overflows.opened {w : World} {c : ConnectionId} {i : TaskId} (h : w.Overflows c i)
    (hw : w.hub.Tidy) : c < w.hub.opened := by
  cases h with
  | tick ho =>
      obtain ⟨batch, e, rest, live, targets, ht, -⟩ := Task.offer?_eq_some.mp ho
      exact hw.ticks i _ ht c (by simp [Tick.Stage.connections])
  | replay ht hc => exact hc ▸ hw.replays i _ ht

theorem Overflows.subscriber {w : World} {c : ConnectionId} {i : TaskId} (h : w.Overflows c i) :
    ¬ (w.hub.subscriber c).HasRoom ∧
      (w.apply (.advance i)).hub.subscriber c = (w.hub.subscriber c).cancel := by
  cases h with
  | @tick m ho hf =>
      have ha := (Subscriber.enqueueLive_eq_queueFull.mp hf).1
      rw [subscriber_of_offer ho]
      rw [Subscriber.enqueueLive_of_admits ha] at hf ⊢
      exact Subscriber.pushEvent_eq_cancel hf
  | @replay r purpose e rest newest m ht hc hs hm hf =>
      subst hc
      obtain ⟨stage, -, hmoved⟩ := deliver_of_queueFull ht hs hm hf
      refine ⟨?_, ?_⟩
      · simp only [Subscriber.enqueueReplayed] at hf
        split at hf
        · cases hf
        · exact (Subscriber.pushEvent_eq_cancel hf).1
      · change (w.hub.advance i).subscriber r.connection = _
        rw [hmoved.subscriber, update_self]

/-- At the refusal no other replay of the connection delivers: a tick finds it in no replaying
phase, and a replay holds its lock. -/
theorem Overflows.silent {w : World} {c : ConnectionId} {i : TaskId} (h : w.Overflows c i)
    (hl : w.Locked) (hp : w.Withheld) {k : TaskId} (hk : k ≠ i) {r : Replay}
    (ht : w.hub.task k = .replay r) (hr : r.connection = c) : r.stage.isDelivering = false := by
  cases hd : r.stage.isDelivering with
  | false => rfl
  | true =>
      have hbegun : r.stage.hasBegun = true := by
        revert hd
        cases r.stage <;> simp [Replay.Stage.isDelivering, Replay.Stage.hasBegun]
      cases h with
      | @tick m ho hf =>
          have hphase := hp k r ht hbegun
          rw [hr] at hphase
          simp [Subscriber.enqueueLive, hphase] at hf
      | @replay q purpose e rest newest m hq hc hs =>
          refine absurd (hl.unique ht hq ?_ ?_ (hr.trans hc.symm)) hk
          · exact Replay.Stage.holdsLock_of_hasBegun hbegun
          · rw [hs]
            rfl

theorem Overflows.muted {w : World} {c : ConnectionId} {i : TaskId} (h : w.Overflows c i)
    (hw : w.hub.Tidy) (hl : w.Locked) (hp : w.Withheld) :
    (w.apply (.advance i)).Muted [] c where
  opened := Nat.lt_of_lt_of_le (h.opened hw) (opened_le_apply w _)
  cancelled := by
    rw [h.subscriber.2]
    rfl
  outran := by
    intro k r hk hr hd
    refine absurd hd (Bool.eq_false_iff.mp ?_)
    by_cases hki : k = i
    · subst hki
      cases h with
      | tick ho =>
          obtain ⟨batch, e, rest, live, targets, ht, -⟩ := Task.offer?_eq_some.mp ho
          have hc := (effect_advance w k).came k
          change (w.hub.advance k).task k = _ at hk
          rw [show (w.onHub (·.advance k)).hub.task k = .replay r from hk] at hc
          cases hc with
          | stays _ hstays => rw [ht] at hstays; cases hstays
          | movesReplay hmoves => rw [ht] at hmoves; cases hmoves
      | @replay q purpose e rest newest m ht hc hs hm hf =>
          subst hc
          obtain ⟨stage, hstage, hmoved⟩ := deliver_of_queueFull ht hs hm hf
          change (w.hub.advance k).task k = _ at hk
          rw [hmoved.task, update_self] at hk
          cases hk
          exact hstage
    · have hc := (effect_advance w i).came k
      rw [show (w.onHub (·.advance i)).hub.task k = .replay r from hk] at hc
      cases hc with
      | stays _ ht => exact h.silent hl hp hki ht hr
      | movesReplay => exact absurd rfl hki

/-! ### A whole run -/

/-- After the refusal a tick put another event to the connection's queue, or a replay that had
outrun the cancellation, and there was room for it. -/
def FoundRoom (past : List (World × Move)) (c : ConnectionId) : Prop :=
  ∃ before after v j m, past = after ++ (v, .advance j) :: before ∧
    v.hub.puts? j c = some (.event m) ∧ (v.hub.subscriber c).HasRoom ∧
    ∀ r, v.hub.task j = .replay r → Outran before c j

theorem FoundRoom.cons {past : List (World × Move)} {w : World} {m : Move} {c : ConnectionId}
    (h : FoundRoom past c) : FoundRoom ((w, m) :: past) c := by
  obtain ⟨before, after, v, j, n, rfl, h⟩ := h
  exact ⟨before, (w, m) :: after, v, j, n, rfl, h⟩

section Run

variable {start w : World} {past : List (World × Move)} {c : ConnectionId}

theorem muted_of_run (run : Run Possible start past w) (hstart : start.hub.Tidy)
    (h : start.Muted [] c) : w.Muted past c := by
  induction run with
  | nil => exact h
  | cons run hm ih => exact muted_step ih (tidy_of_tidy run hstart) hm

/-- Events come from tasks that go on, and from nowhere else. -/
theorem messages_apply (hw : w.hub.Tidy) {m : Move} (hm : w.Possible m)
    (hnone : ∀ j n, m = .advance j → w.hub.puts? j c = some (.event n) →
      ¬ (w.hub.subscriber c).HasRoom) :
    ((w.apply m).hub.subscriber c).messages = (w.hub.subscriber c).messages := by
  rcases (effect hw hm).queued_cases c with hq | ⟨-, -, ⟨j, rfl, -⟩ | ⟨j, -, rfl, -⟩⟩
  · exact hq
  all_goals exact (w.hub.puts_advance j c).messages_eq fun n => hnone j n rfl

/-- A replay that puts an event is in the middle of delivering. -/
theorem Muted.outran_of_puts? (h : w.Muted past c) {j : TaskId} {n : Message}
    (hput : w.hub.puts? j c = some (.event n)) {r : Replay} (ht : w.hub.task j = .replay r) :
    Outran past c j := by
  simp only [Hub.puts?, ht] at hput
  split at hput
  · next hr => exact h.outran j r ht hr (Replay.isDelivering_of_puts? hput)
  · cases hput

theorem messages_of_not_foundRoom (run : Run Possible start past w) (hstart : start.hub.Tidy)
    (h : start.Muted [] c) (hnone : ¬ FoundRoom past c) :
    (w.hub.subscriber c).messages = (start.hub.subscriber c).messages := by
  induction run with
  | nil => rfl
  | @cons past w m run hm ih =>
      refine (messages_apply (tidy_of_tidy run hstart) hm ?_).trans (ih fun hf => hnone hf.cons)
      rintro j n rfl hput hroom
      exact hnone ⟨past, [], w, j, n, rfl, hput, hroom,
        fun _ ht => (muted_of_run run hstart h).outran_of_puts? hput ht⟩

theorem messages_of_foundRoom (run : Run Possible start past w) (hstart : start.hub.Tidy)
    (hfound : FoundRoom past c) :
    (w.hub.subscriber c).messages ≠ (start.hub.subscriber c).messages := by
  obtain ⟨_, _, v, j, n, rfl, hput, hroom, -⟩ := hfound
  obtain ⟨before, after, -, hbefore, -, hafter⟩ :=
    run.split (List.mem_append_right _ List.mem_cons_self)
  have hw := tidy_of_tidy hbefore hstart
  have hle := (messages_grow_of_run hbefore hstart c).length_le
  have hle' := (messages_grow_of_run hafter (tidy_apply hw trivial) c).length_le
  have hq : ((v.apply (.advance j)).hub.subscriber c).messages =
      (v.hub.subscriber c).messages ++ [n] := by
    have hputs := v.hub.puts_advance j c
    rw [hput] at hputs
    exact hputs.messages_of_hasRoom hroom
  rw [hq, List.length_append, List.length_singleton] at hle'
  intro heq
  rw [heq] at hle'
  omega

/-- Nobody but the client makes room. -/
theorem not_hasRoom_of_run (run : Run Possible start past w) (hopen : c < start.hub.opened)
    (hroom : ¬ (start.hub.subscriber c).HasRoom)
    (hidle : ∀ v limit, (v, Move.receive c limit) ∉ past) : ¬ (w.hub.subscriber c).HasRoom := by
  induction run with
  | nil => exact hroom
  | @cons past w m run hm ih =>
      intro h
      refine ih (fun v limit hv => hidle v limit (List.mem_cons_of_mem _ hv)) ?_
      refine (onward_apply (Nat.lt_of_lt_of_le hopen run.opened_le) fun limit heq => ?_).room h
      subst heq
      exact hidle w limit List.mem_cons_self

end Run

/-- Once an event has been refused for want of room, another is queued on the connection just when
there is room again for one that a tick puts to its queue, or a replay that has outrun the
cancellation. Room is made by the client alone: as long as it receives nothing, nothing more is
queued. -/
theorem messages_eq_iff_not_foundRoom {capacity replays : Nat} {start : Instant}
    {past past' : List (World × Move)} {v w : World} {c : ConnectionId} {i : TaskId}
    (run : Run Possible (.new capacity replays start) past v) (hfull : v.Overflows c i)
    (run' : Run Possible (v.apply (.advance i)) past' w) :
    ((w.hub.subscriber c).messages = (v.hub.subscriber c).messages ↔ ¬ FoundRoom past' c) ∧
      ((∀ u limit, (u, Move.receive c limit) ∉ past') →
        (w.hub.subscriber c).messages = (v.hub.subscriber c).messages) := by
  have hv := tidy_of_run run
  have hmuted := hfull.muted hv (locked_of_run run) (withheld_of_run run)
  have htidy : (v.apply (.advance i)).hub.Tidy := tidy_apply hv trivial
  have hsame : ((v.apply (.advance i)).hub.subscriber c).messages =
      (v.hub.subscriber c).messages := by
    rw [hfull.subscriber.2]
    exact (Subscriber.alike_cancel _).messages
  have hiff : (w.hub.subscriber c).messages = (v.hub.subscriber c).messages ↔
      ¬ FoundRoom past' c := by
    rw [← hsame]
    exact ⟨fun heq hf => messages_of_foundRoom run' htidy hf heq,
      messages_of_not_foundRoom run' htidy hmuted⟩
  refine ⟨hiff, fun hidle => hiff.mpr ?_⟩
  rintro ⟨_, _, u, j, n, rfl, -, hroom, -⟩
  obtain ⟨before, after, heq, hbefore, -, -⟩ :=
    run'.split (List.mem_append_right _ List.mem_cons_self)
  have hno : ¬ ((v.apply (.advance i)).hub.subscriber c).HasRoom := by
    rw [hfull.subscriber.2]
    exact hfull.subscriber.1
  refine not_hasRoom_of_run hbefore hmuted.opened hno (fun x limit hx => ?_) hroom
  refine hidle x limit ?_
  rw [heq]
  exact List.mem_append_right _ (List.mem_cons_of_mem _ hx)

/-- A queue of one frame has taken the first event of a batch. -/
def filled : List Move :=
  [Move.connect, .subscribe 0 ⟨.systemEvents, none⟩] ++ List.replicate 5 (Move.advance 0) ++
  [Move.receive 0 none, .append (policyAt 100000), .append (policyAt 200000), .startTick,
    .advance 1, .answer 1 (.ok [(policyAt 100000).event 1, (policyAt 200000).event 2])] ++
  List.replicate 6 (Move.advance 1)

/-- The client receives what waits in its queue, and another tick comes by. -/
def drained : List Move :=
  List.replicate 2 (Move.advance 1) ++
  [Move.receive 0 none, .append (policyAt 300000), .startTick, .advance 2,
    .answer 2 (.ok [(policyAt 300000).event 3])] ++
  List.replicate 5 (Move.advance 2)

theorem overflows_filled : ((new 1 8 .epoch).applyAll filled).Overflows 0 1 :=
  .tick (m := { (policyAt 200000).event 2 with data := "null" }) (by decide +kernel)
    (Subscriber.enqueueLive_eq_queueFull.mpr (by decide +kernel))

theorem foundRoom_of_drained :
    let v := (new 1 8 .epoch).applyAll filled
    FoundRoom ((v.apply (.advance 1)).history [] drained) 0 := by
  intro v
  have run : Run Possible (new 1 8 .epoch) ((new 1 8 .epoch).history [] filled) v :=
    Follows.run (by decide +kernel) .nil
  have run' : Run Possible (v.apply (.advance 1)) ((v.apply (.advance 1)).history [] drained)
      ((v.apply (.advance 1)).applyAll drained) := Follows.run (by decide +kernel) .nil
  have hiff := (messages_eq_iff_not_foundRoom run overflows_filled run').1
  have hne : (((v.apply (.advance 1)).applyAll drained).hub.subscriber 0).messages ≠
      (v.hub.subscriber 0).messages := by decide +kernel
  exact Classical.not_not.mp fun hnot => hne (hiff.mpr hnot)

/-- The second event has been refused, and the third one is queued behind the first. -/
theorem refused_skipped :
    let v := (new 1 8 .epoch).applyAll filled
    let w := (v.apply (.advance 1)).applyAll drained
    Run Possible (new 1 8 .epoch) ((new 1 8 .epoch).history [] filled) v ∧ v.Overflows 0 1 ∧
      Run Possible (v.apply (.advance 1)) ((v.apply (.advance 1)).history [] drained) w ∧
      (v.hub.subscriber 0).messages.map (·.id) = [1] ∧
      (w.hub.subscriber 0).messages.map (·.id) = [1, 3] := by
  refine ⟨Follows.run (by decide +kernel) .nil, overflows_filled,
    Follows.run (by decide +kernel) .nil, ?_, ?_⟩
  all_goals decide +kernel

/-- A replay has its permit when the second event is refused, and takes its answer although the
connection is cancelled by then. -/
def overtaking : List Move :=
  [Move.subscribe 0 ⟨.systemEvents, some (policyAt 250000).createdAt⟩] ++
  List.replicate 3 (Move.advance 2) ++
  [Move.advance 1, .receive 0 none, .append (policyAt 300000), .toss false, .advance 2, .advance 2,
    .answer 2 (.ok [(policyAt 300000).event 3]), .advance 2, .advance 2]

/-- So the third event is queued without any tick. -/
example :
    let v := (new 1 8 .epoch).applyAll filled
    Follows Possible v overtaking ∧
      ((v.applyAll overtaking).hub.subscriber 0).messages.map (·.id) = [1, 3] := by
  decide +kernel

end World

end EventStream
