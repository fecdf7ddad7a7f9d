import EventStream.Proofs.Delivery.Due

/-! How a connection comes by its events: a tick offers one that the connection admits, or a
replay delivers one. -/

namespace EventStream

open Subscriber (Refuses)

namespace Subscriber

/-- The queue takes another frame. -/
def HasRoom (s : Subscriber) : Prop :=
  s.outbound.isOpen = true ∧ s.outbound.pending.length < s.outbound.capacity

/-- A live event of this id is let through to the queue. -/
def Admits (s : Subscriber) (id : Int) : Prop :=
  s.phase.isReplaying = false ∧ s.lastEventId < id

instance (s : Subscriber) : Decidable s.HasRoom := inferInstanceAs (Decidable (_ ∧ _))

instance (s : Subscriber) (id : Int) : Decidable (s.Admits id) :=
  inferInstanceAs (Decidable (_ ∧ _))

theorem push_of_hasRoom {s : Subscriber} (h : s.HasRoom) (f : Frame) :
    s.push f = (s.accept f, .ok ()) := by
  simp [push, Outbound.offer, h.1, h.2, accept]

theorem push_of_not_hasRoom {s : Subscriber} (h : ¬ s.HasRoom) (f : Frame) :
    ∃ t e, s.push f = (t, .error e) ∧ Refuses s t := by
  cases hopen : s.outbound.isOpen with
  | false =>
      exact ⟨s, .closed, by simp [push, Outbound.offer, hopen], .inr ⟨rfl, hopen⟩⟩
  | true =>
      have hfull : ¬ s.outbound.pending.length < s.outbound.capacity := fun hlt => h ⟨hopen, hlt⟩
      exact ⟨s.cancel, .queueFull, by simp [push, Outbound.offer, hopen, hfull], .inl rfl⟩

/-- Only a full queue answers that it is full, and then the connection is cancelled. -/
theorem eq_cancel_of_queueFull {s : Subscriber} {f : Frame}
    (h : (s.push f).2 = .error .queueFull) : ¬ s.HasRoom ∧ (s.push f).1 = s.cancel := by
  by_cases hroom : s.HasRoom
  · rw [push_of_hasRoom hroom] at h
    cases h
  · refine ⟨hroom, ?_⟩
    obtain ⟨t, e, hp, rfl | ⟨-, hclosed⟩⟩ := push_of_not_hasRoom hroom f
    · rw [hp]
    · simp [push, Outbound.offer, hclosed] at h

theorem pushEvent_of_hasRoom {s : Subscriber} (h : s.HasRoom) (id : Int) (f : Frame) :
    (s.pushEvent id f).1 = { s.accept f with lastEventId := id } := by
  simp [pushEvent, push_of_hasRoom h]

theorem pushEvent_of_not_hasRoom {s : Subscriber} (h : ¬ s.HasRoom) (id : Int) (f : Frame) :
    Refuses s (s.pushEvent id f).1 := by
  obtain ⟨t, e, hp, ht⟩ := push_of_not_hasRoom h f
  simpa [pushEvent, hp] using ht

theorem pushEvent_eq_cancel {s : Subscriber} {id : Int} {f : Frame}
    (h : (s.pushEvent id f).2 = .error .queueFull) :
    ¬ s.HasRoom ∧ (s.pushEvent id f).1 = s.cancel := by
  rcases s.push_cases f with hp | ⟨t, e, hp, -⟩
  · simp [pushEvent, hp] at h
  · have hfull : (s.push f).2 = .error .queueFull := by simpa [pushEvent, hp] using h
    obtain ⟨hroom, hcancel⟩ := eq_cancel_of_queueFull hfull
    exact ⟨hroom, by simpa [pushEvent, hp] using hcancel⟩

theorem enqueueLive_of_admits {s : Subscriber} {id : Int} (h : s.Admits id) (f : Frame) :
    s.enqueueLive id f = s.pushEvent id f := by
  have hlt : ¬ id ≤ s.lastEventId := Int.not_le.mpr h.2
  simp [enqueueLive, h.1, hlt]

theorem enqueueLive_of_not_admits {s : Subscriber} {id : Int} (h : ¬ s.Admits id) (f : Frame) :
    s.enqueueLive id f = (s, .ok false) := by
  have hheld : s.phase.isReplaying = true ∨ id ≤ s.lastEventId := by
    cases hp : s.phase.isReplaying with
    | true => exact .inl rfl
    | false => exact .inr (Int.not_lt.mp fun hlt => h ⟨hp, hlt⟩)
  simp only [enqueueLive, hheld, ite_true]

theorem enqueueLive_eq_queueFull {s : Subscriber} {id : Int} {f : Frame} :
    (s.enqueueLive id f).2 = .error .queueFull ↔
      s.Admits id ∧ s.outbound.isOpen = true ∧ ¬ s.HasRoom := by
  by_cases ha : s.Admits id
  · rw [enqueueLive_of_admits ha]
    constructor
    · intro h
      refine ⟨ha, ?_, (pushEvent_eq_cancel h).1⟩
      cases hopen : s.outbound.isOpen with
      | true => rfl
      | false => simp [pushEvent, push, Outbound.offer, hopen] at h
    · rintro ⟨-, hopen, hroom⟩
      have hfull : ¬ s.outbound.pending.length < s.outbound.capacity :=
        fun hlt => hroom ⟨hopen, hlt⟩
      simp [pushEvent, push, Outbound.offer, hopen, hfull]
  · rw [enqueueLive_of_not_admits ha]
    simp [ha]

end Subscriber

namespace Replay

def Stage.isDelivering : Stage → Bool
  | delivering .. => true
  | _ => false

/-- A replay queues events while it delivers, and only then. -/
theorem messages_of_next {announced : Int} {request : Subscription} {stage stage' : Stage}
    {s t : Subscriber} (hn : Next announced request stage s stage' t) :
    t.messages = s.messages ∨
      stage.isDelivering = true ∧ ∃ n, t.messages = s.messages ++ [n] := by
  cases hn with
  | queue => exact .inr ⟨rfl, _, Subscriber.messages_queued _ _ _⟩
  | refuseHistory ht => exact .inl (Subscriber.alike_of_refuses ht).messages
  | refuseGap ht => exact .inl (Subscriber.alike_of_refuses ht).messages
  | refuseLive _ ht => exact .inl (Subscriber.alike_of_refuses ht).messages
  | goLive => exact .inl (Subscriber.alike_accept s rfl).messages
  | @confirm _ mode =>
      cases Subscriber.turn_handOver (fun _ => False) s announced mode
        (f := .subscriptionConfirmed request.channel) rfl with
      | keep hq => exact .inl hq
      | queue he => exact he.elim
  | report => exact .inl (Subscriber.alike_push s rfl).messages
  | _ => exact .inl rfl

end Replay

namespace World

/-- What is offered to a connection is queued as a live event. -/
theorem subscriber_of_offer {w : World} {j : TaskId} {c : ConnectionId} {m : Message}
    (h : (w.hub.task j).offer? = some (c, m)) :
    (w.apply (.advance j)).hub.subscriber c =
      ((w.hub.subscriber c).enqueueLive m.id (.event m)).1 := by
  obtain ⟨batch, e, rest, live, targets, ht, hm⟩ := Task.offer?_eq_some.mp h
  have hcan : w.hub.canAdvance j = true := by simp [Hub.canAdvance, ht]
  have hstep : w.hub.advance j = (w.hub.setSubscriber c
      ((w.hub.subscriber c).enqueueLive e.id (.event m)).1).setTick j
        (.broadcasting batch (e :: rest) live targets) := by
    simp only [Hub.advance, hcan, ite_true, ht, Hub.advanceTick, hm]
  change (w.hub.advance j).subscriber c = _
  rw [hstep, Message.id_eq_of_ofEvent? hm]
  exact update_self ..

/-- What a move queues on a connection: nothing, or an event that a tick offers and that is let
through, or one that a replay delivers. -/
theorem Effect.queued_cases {w w' : World} {m : Move} (h : Effect w m w') (c : ConnectionId) :
    (w'.hub.subscriber c).messages = (w.hub.subscriber c).messages ∨
    ∃ n, (w'.hub.subscriber c).messages = (w.hub.subscriber c).messages ++ [n] ∧
      ((∃ j, m = .advance j ∧ (w.hub.task j).offer? = some (c, n) ∧
          (w.hub.subscriber c).Admits n.id) ∨
        ∃ k r, m = .advance k ∧ w.hub.task k = .replay r ∧ r.connection = c ∧
          r.stage.isDelivering = true) := by
  cases h.touches c with
  | alike ha => exact .inl ha.messages
  | @replay k r stage ht hc hl hn =>
      rcases Replay.messages_of_next hn with hq | ⟨hd, n, hq⟩
      · exact .inl hq
      · exact .inr ⟨n, hq, .inr ⟨k, r, rfl, ht, hc, hd⟩⟩
  | @tick k batch e rest live targets n ht hn hp ho =>
      have hoffer := Task.offer?_eq_some.mpr ⟨batch, e, rest, live, targets, ht, hn⟩
      generalize w'.hub.subscriber c = t at ho
      cases ho with
      | stale => exact .inl rfl
      | queued hlt =>
          refine .inr ⟨n, Subscriber.messages_queued _ _ _, .inl ⟨k, rfl, hoffer, hp, ?_⟩⟩
          rw [Message.id_eq_of_ofEvent? hn]
          exact hlt
      | refused _ hr => exact .inl (Subscriber.alike_of_refuses hr).messages
  | offer hf _ ho =>
      left
      generalize w'.hub.subscriber c = t at ho
      cases ho with
      | stale => rfl
      | queued => exact (Subscriber.alike_accept _ hf).messages
      | refused _ hr => exact (Subscriber.alike_of_refuses hr).messages

/-- Nothing that has been queued is taken back. -/
theorem Effect.messages_grow {w w' : World} {m : Move} (h : Effect w m w') (c : ConnectionId) :
    (w.hub.subscriber c).messages <+: (w'.hub.subscriber c).messages := by
  rcases h.queued_cases c with hq | ⟨n, hq, -⟩
  · exact ⟨[], by rw [hq, List.append_nil]⟩
  · exact ⟨[n], hq.symm⟩

/-- What a tick has due to a connection stays due, but for a move by which the tick passes the
connection over or offers it the event. -/
theorem Effect.due_cases {w w' : World} {m : Move} (h : Effect w m w') (hw : w.hub.Tidy)
    {j : TaskId} {c : ConnectionId} {e : Event} {n : Message} (hm : Message.ofEvent? e = some n)
    (he : e ∈ (w.hub.task j).due c) :
    e ∈ (w'.hub.task j).due c ∨ m = .advance j ∧
      ((w.hub.task j).offer? = some (c, n) ∨
        (w.hub.task j).check? = some c ∧
          (w.hub.subscriber c).isLiveOn .systemEvents = false) := by
  have hstarted : j < w.hub.started := by
    by_cases hlt : j < w.hub.started
    · exact hlt
    · rw [hw.unstarted j (Nat.not_lt.mp hlt)] at he
      cases he
  have hc := h.came j
  generalize w'.hub.task j = t at hc
  cases hc with
  | stays _ ht => exact .inl (ht ▸ he)
  | subscribes heq => exact absurd heq (Nat.ne_of_lt hstarted)
  | startsTick heq => exact absurd heq (Nat.ne_of_lt hstarted)
  | answersReplay ht => rw [ht] at he; cases he
  | answersTick ht => rw [ht] at he; cases he
  | movesReplay ht => rw [ht] at he; cases he
  | movesTick ht hn =>
      rw [ht] at he
      have hframe : (Message.ofEvent? e).isSome = true := by rw [hm]; rfl
      rcases Tick.mem_due_cases hn hframe he with
        hdue | ⟨batch, rest, live, targets, rfl⟩ | ⟨hlive, batch, unseen, live, rfl⟩
      · exact .inl hdue
      · exact .inr ⟨rfl, .inl (Task.offer?_eq_some.mpr ⟨_, _, _, _, _, ht, hm⟩)⟩
      · exact .inr ⟨rfl, .inr ⟨Task.check?_eq_some.mpr ⟨_, _, _, ht⟩, hlive⟩⟩

/-- A tick that announces its batch goes on to look at the registered connections. -/
theorem picking_of_announces {w : World} {j : TaskId} {e : Event}
    (he : e ∈ (w.hub.task j).announces) : ∃ batch, e ∈ batch ∧
      (w.apply (.advance j)).hub.task j = .tick (.picking batch w.hub.registry []) ∧
      (w.apply (.advance j)).hub.subscriber = w.hub.subscriber := by
  obtain ⟨batch, ht, hmem⟩ := Task.mem_announces.mp he
  have hcan : w.hub.canAdvance j = true := by simp [Hub.canAdvance, ht]
  have hstep : w.apply (.advance j) = w.onHub fun h => h.advanceTick j (.announcing batch) := by
    simp only [apply, onHub, Hub.advance, hcan, ite_true, ht]
  refine ⟨batch, hmem, ?_⟩
  rw [hstep]
  exact ⟨update_self .., by simp only [onHub, Hub.advanceTick]; split <;> rfl⟩

/-- What a tick announces it has due to every registered connection. -/
theorem due_of_announces {w : World} {j : TaskId} {c : ConnectionId} {e : Event}
    (he : e ∈ (w.hub.task j).announces) (hc : c ∈ w.hub.registry) :
    e ∈ ((w.apply (.advance j)).hub.task j).due c := by
  obtain ⟨batch, hmem, ht, -⟩ := picking_of_announces he
  rw [ht]
  simpa only [Task.due, Tick.Stage.due, hc, true_or, ite_true] using hmem

/-! ### A whole run -/

section Run

variable {start w : World} {past : List (World × Move)} {c : ConnectionId}

theorem tidy_of_tidy (run : Run Possible start past w) (hstart : start.hub.Tidy) :
    w.hub.Tidy := by
  induction run with
  | nil => exact hstart
  | cons _ hm ih => exact tidy_apply ih hm

theorem started_le (run : Run Possible start past w) (hstart : start.hub.Tidy) :
    start.hub.started ≤ w.hub.started := by
  induction run with
  | nil => exact Nat.le_refl _
  | cons run hm ih => exact Nat.le_trans ih (effect (tidy_of_tidy run hstart) hm).started_le

theorem messages_grow_of_run (run : Run Possible start past w) (hstart : start.hub.Tidy)
    (c : ConnectionId) :
    (start.hub.subscriber c).messages <+: (w.hub.subscriber c).messages := by
  induction run with
  | nil => exact List.prefix_refl _
  | @cons past w m run hm ih =>
      exact ih.trans ((effect (tidy_of_tidy run hstart) hm).messages_grow c)

/-- What a tick has due to a connection it has offered by its end, unless it found the connection
not live. -/
theorem due_or_met (run : Run Possible start past w) (hstart : start.hub.Tidy) {j : TaskId}
    {e : Event} {n : Message} (hm : Message.ofEvent? e = some n)
    (he : e ∈ (start.hub.task j).due c) :
    e ∈ (w.hub.task j).due c ∨ ∃ u, (u, .advance j) ∈ past ∧
      ((u.hub.task j).offer? = some (c, n) ∨
        (u.hub.task j).check? = some c ∧
          (u.hub.subscriber c).isLiveOn .systemEvents = false) := by
  induction run with
  | nil => exact .inl he
  | @cons past w m run hmove ih =>
      rcases ih with hdue | ⟨u, hu, hmet⟩
      · have hw := tidy_of_tidy run hstart
        rcases (effect hw hmove).due_cases hw hm hdue with hdue | ⟨rfl, hmet⟩
        · exact .inl hdue
        · exact .inr ⟨w, List.mem_cons_self, hmet⟩
      · exact .inr ⟨u, List.mem_cons_of_mem _ hu, hmet⟩

end Run

end World

end EventStream
