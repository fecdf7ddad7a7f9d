import EventStream.Subscriber

/-! What each operation does to a subscriber's queue, gate and phase. -/

namespace EventStream

def Frame.message? : Frame → Option Message
  | event m => some m
  | _ => none

namespace Subscriber

/-- The events ever queued, oldest first. -/
def messages (s : Subscriber) : List Message := s.outbound.accepted.filterMap Frame.message?

/-- The subscriber with one more frame in its queue. -/
def accept (s : Subscriber) (f : Frame) : Subscriber :=
  { s with outbound := { s.outbound with accepted := s.outbound.accepted ++ [f] } }

/-- A frame is refused to `s`, which leaves `t`: the queue is full or closed. -/
def Refuses (s t : Subscriber) : Prop :=
  t = s.cancel ∨ t = s ∧ s.outbound.isOpen = false

/-- The same queued events, gate, phase and channels. -/
structure Alike (s t : Subscriber) : Prop where
  messages : t.messages = s.messages
  lastEventId : t.lastEventId = s.lastEventId
  phase : t.phase = s.phase
  channels : t.channels = s.channels

theorem Alike.refl (s : Subscriber) : Alike s s := ⟨rfl, rfl, rfl, rfl⟩

theorem Alike.trans {s t u : Subscriber} (h : Alike s t) (h' : Alike t u) : Alike s u :=
  ⟨h'.messages.trans h.messages, h'.lastEventId.trans h.lastEventId,
    h'.phase.trans h.phase, h'.channels.trans h.channels⟩

/-! ### Operations that queue nothing -/

@[simp] theorem messages_skipPast (s : Subscriber) (id : Int) :
    (s.skipPast id).messages = s.messages :=
  rfl

theorem alike_cancel (s : Subscriber) : Alike s s.cancel := ⟨rfl, rfl, rfl, rfl⟩

theorem alike_of_refuses {s t : Subscriber} (h : Refuses s t) : Alike s t := by
  rcases h with rfl | ⟨rfl, -⟩
  · exact alike_cancel s
  · exact .refl _

/-! ### Accepting a frame -/

theorem messages_accept (s : Subscriber) (f : Frame) :
    (s.accept f).messages = s.messages ++ f.message?.toList := by
  cases hf : f.message? <;> simp [messages, accept, hf]

theorem alike_accept (s : Subscriber) {f : Frame} (h : f.message? = none) : Alike s (s.accept f) :=
  ⟨by simp [messages_accept, h], rfl, rfl, rfl⟩

theorem push_cases (s : Subscriber) (f : Frame) :
    s.push f = (s.accept f, .ok ()) ∨ ∃ t e, s.push f = (t, .error e) ∧ Refuses s t := by
  cases hopen : s.outbound.isOpen with
  | false => exact .inr ⟨s, .closed, by simp [push, Outbound.offer, hopen], .inr ⟨rfl, hopen⟩⟩
  | true =>
      by_cases hroom : s.outbound.pending.length < s.outbound.capacity
      · exact .inl (by simp [push, Outbound.offer, hopen, hroom, accept])
      · exact .inr ⟨s.cancel, .queueFull, by simp [push, Outbound.offer, hopen, hroom], .inl rfl⟩

/-- A frame that is no event leaves the events and the gate alone, refused or not. -/
theorem alike_push (s : Subscriber) {f : Frame} (h : f.message? = none) :
    Alike s (s.push f).1 := by
  rcases s.push_cases f with hp | ⟨t, e, hp, ht⟩
  · rw [hp]; exact alike_accept s h
  · rw [hp]; exact alike_of_refuses ht

/-! ### Offering an event -/

/-- What becomes of an event that is offered under `id`. -/
inductive Offer (s : Subscriber) (id : Int) (f : Frame) : Subscriber → Prop where
  | stale (h : id ≤ s.lastEventId) : Offer s id f s
  | queued (h : s.lastEventId < id) : Offer s id f { s.accept f with lastEventId := id }
  | refused {t : Subscriber} (h : s.lastEventId < id) (ht : Refuses s t) : Offer s id f t

theorem pushEvent_cases (s : Subscriber) (id : Int) (f : Frame) :
    s.pushEvent id f = ({ s.accept f with lastEventId := id }, .ok true) ∨
      ∃ t e, s.pushEvent id f = (t, .error e) ∧ Refuses s t := by
  rcases s.push_cases f with hp | ⟨t, e, hp, ht⟩
  · exact .inl (by simp [pushEvent, hp])
  · exact .inr ⟨t, e, by simp [pushEvent, hp], ht⟩

theorem offer_pushEvent {s : Subscriber} {id : Int} (f : Frame) (h : s.lastEventId < id) :
    Offer s id f (s.pushEvent id f).1 := by
  rcases s.pushEvent_cases id f with hp | ⟨t, e, hp, ht⟩
  · rw [hp]; exact .queued h
  · rw [hp]; exact .refused h ht

/-- A connection that replays is left alone by live events. -/
theorem enqueueLive_of_isReplaying {s : Subscriber} (h : s.phase.isReplaying = true) (id : Int)
    (f : Frame) : (s.enqueueLive id f).1 = s := by
  simp [enqueueLive, h]

theorem offer_enqueueLive {s : Subscriber} (h : s.phase.isReplaying = false) (id : Int)
    (f : Frame) : Offer s id f (s.enqueueLive id f).1 := by
  by_cases hid : id ≤ s.lastEventId
  · simp only [enqueueLive, h, hid, or_true, ite_true]
    exact .stale hid
  · simp only [enqueueLive, h, hid, or_false, Bool.false_eq_true, ite_false]
    exact offer_pushEvent f (by omega)

theorem Offer.phase {s t : Subscriber} {id : Int} {f : Frame} (h : Offer s id f t) :
    t.phase = s.phase ∧ t.channels = s.channels := by
  cases h with
  | stale => exact ⟨rfl, rfl⟩
  | queued => exact ⟨rfl, rfl⟩
  | refused _ ht => exact ⟨(alike_of_refuses ht).phase, (alike_of_refuses ht).channels⟩

/-! ### Handing over -/

theorem handOver_reconciled_of_lt {s : Subscriber} {announced : Int}
    (h : s.lastEventId < announced) (confirmation : Frame) :
    s.handOver announced .reconciled confirmation = (s, .ok (.behind announced)) := by
  simp [handOver, h]

theorem handOver_reconciled_of_le {s : Subscriber} {announced : Int}
    (h : announced ≤ s.lastEventId) (confirmation : Frame) :
    s.handOver announced .reconciled confirmation =
      ((s.accept confirmation).withPhase .live, .ok .live) ∨
      ∃ t e, s.handOver announced .reconciled confirmation = (t, .error e) ∧ Refuses s t := by
  have hn : ¬ s.lastEventId < announced := by omega
  rcases s.push_cases confirmation with hp | ⟨t, e, hp, ht⟩
  · exact .inl (by simp [handOver, hn, hp])
  · exact .inr ⟨t, e, by simp [handOver, hn, hp], ht⟩

/-- A connection goes live on asking only with nothing behind, and without another event. -/
theorem le_of_handOver_reconciled {s : Subscriber} {announced : Int} {confirmation : Frame}
    (hf : confirmation.message? = none)
    (h : (s.handOver announced .reconciled confirmation).2 = .ok .live) :
    announced ≤ s.lastEventId ∧
      (s.handOver announced .reconciled confirmation).1.messages = s.messages := by
  by_cases hlt : s.lastEventId < announced
  · rw [handOver_reconciled_of_lt hlt] at h
    cases h
  · have hle : announced ≤ s.lastEventId := by omega
    rcases handOver_reconciled_of_le hle confirmation with hp | ⟨t, err, hp, -⟩
    · rw [hp]
      exact ⟨hle, (alike_accept s hf).messages⟩
    · rw [hp] at h
      cases h

/-- A connection that hands over without asking goes live or is left as it stands. -/
theorem handOver_unasked {s : Subscriber} {mode : Handover} (announced : Int)
    (hm : mode ≠ .reconciled) (confirmation : Frame) :
    let u := if mode = .fresh then s.skipPast announced else s
    (s.handOver announced mode confirmation).1 = (u.accept confirmation).withPhase .live ∨
      Refuses u (s.handOver announced mode confirmation).1 := by
  cases mode with
  | reconciled => exact absurd rfl hm
  | fresh =>
      rcases (s.skipPast announced).push_cases confirmation with hp | ⟨t, e, hp, ht⟩
      · exact .inl (by simp [handOver, hp])
      · exact .inr (by simpa [handOver, hp] using ht)
  | force =>
      rcases s.push_cases confirmation with hp | ⟨t, e, hp, ht⟩
      · exact .inl (by simp [handOver, hp])
      · exact .inr (by simpa [handOver, hp] using ht)

end Subscriber

end EventStream
