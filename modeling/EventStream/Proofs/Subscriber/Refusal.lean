import EventStream.Proofs.Subscriber
import EventStream.Checkpoint

/-! What a refused frame leaves of the subscriber, whichever operation wants to queue it. -/

namespace EventStream

/-- The queue is as it takes for a frame to be refused so. -/
def Outbound.Refusal.Applies (q : Outbound) : Outbound.Refusal → Prop
  | .closed => q.isOpen = false
  | .queueFull => q.isOpen = true ∧ q.capacity ≤ q.pending.length

namespace Subscriber

/-- An operation that may queue a frame. -/
inductive Call where
  | enqueueReplayed (id : Int) (f : Frame)
  | enqueueLive (id : Int) (f : Frame)
  | sendFrame (f : Frame)
  | handOver (checkpoint : Checkpoint) (mode : Handover) (confirmation : Frame)

/-- The subscriber after a refusal: one whose queue is full is cancelled. -/
def refused (s : Subscriber) (e : Outbound.Refusal) : Subscriber :=
  { s with cancelled := s.cancelled || e = .queueFull }

/-- An outcome apart from what it tells of a frame that was not refused. -/
def outcome {α : Type} (p : Subscriber × Except Outbound.Refusal α) :
    Subscriber × Except Outbound.Refusal Unit :=
  (p.1, p.2.map fun _ => ())

namespace Call

def perform (s : Subscriber) : Call → Subscriber × Except Outbound.Refusal Unit
  | enqueueReplayed id f => outcome (s.enqueueReplayed id f)
  | enqueueLive id f => outcome (s.enqueueLive id f)
  | sendFrame f => s.push f
  | handOver c mode f => outcome (s.handOver c.announced mode f)

def frame : Call → Frame
  | enqueueReplayed _ f => f
  | enqueueLive _ f => f
  | sendFrame f => f
  | handOver _ _ f => f

/-- The frame gets as far as the queue. -/
def Passes (s : Subscriber) : Call → Prop
  | enqueueReplayed id _ => s.lastEventId < id
  | enqueueLive id _ => s.phase.isReplaying = false ∧ s.lastEventId < id
  | sendFrame _ => True
  | handOver c mode _ => mode = .reconciled → c.announced ≤ s.lastEventId

/-- What is done before the frame gets to the queue: a handover without history first counts what
has been announced as handled. -/
def prepare (s : Subscriber) : Call → Subscriber
  | handOver c .fresh _ => s.skipPast c.announced
  | _ => s

/-- What is done once the frame is queued. -/
def settle (s : Subscriber) : Call → Subscriber
  | enqueueReplayed id _ => { s with lastEventId := id }
  | enqueueLive id _ => { s with lastEventId := id }
  | sendFrame _ => s
  | handOver .. => s.withPhase .live

/-- There are announced events that have not been handled, and they will count as handled. -/
def Overtakes (s : Subscriber) : Call → Prop
  | handOver c .fresh _ => s.lastEventId < c.announced
  | _ => False

end Call

/-! ### The queue -/

section Push

variable {s t : Subscriber} {f : Frame} {e : Outbound.Refusal}

theorem offer_eq_error_iff {q : Outbound} : q.offer f = .error e ↔ e.Applies q := by
  cases hopen : q.isOpen with
  | false => cases e <;> simp [Outbound.offer, Outbound.Refusal.Applies, hopen]
  | true =>
    by_cases hroom : q.pending.length < q.capacity
    · cases e <;> simp [Outbound.offer, Outbound.Refusal.Applies, hopen, hroom]
    · have hfull := Nat.not_lt.mp hroom
      cases e <;> simp [Outbound.offer, Outbound.Refusal.Applies, hopen, hroom, hfull]

theorem push_of_error (h : s.outbound.offer f = .error e) :
    s.push f = (s.refused e, .error e) := by
  cases e <;> simp [push, h, refused, cancel]

theorem push_eq_error_iff :
    s.push f = (t, .error e) ↔ e.Applies s.outbound ∧ t = s.refused e := by
  rw [← offer_eq_error_iff (f := f)]
  cases ho : s.outbound.offer f with
  | ok q => simp [push, ho]
  | error e' =>
    rw [push_of_error ho, Prod.mk.injEq, Except.error.injEq, Except.error.injEq]
    constructor
    · rintro ⟨rfl, rfl⟩
      exact ⟨rfl, rfl⟩
    · rintro ⟨rfl, rfl⟩
      exact ⟨rfl, rfl⟩

theorem cancelled_of_push_eq_ok (h : s.push f = (t, .ok ())) : t.cancelled = s.cancelled := by
  rcases s.push_cases f with hp | ⟨_, _, hp, -⟩
  · cases hp.symm.trans h
    rfl
  · cases hp.symm.trans h

end Push

/-! ### The operations around it -/

namespace Call

variable {call : Call} {s t : Subscriber} {e : Outbound.Refusal}

theorem perform_of_not_passes (h : ¬ call.Passes s) : call.perform s = (s, .ok ()) := by
  cases call with
  | enqueueReplayed id f =>
    have hle : id ≤ s.lastEventId := Int.not_lt.mp h
    simp [perform, outcome, Subscriber.enqueueReplayed, hle, Except.map]
  | enqueueLive id f =>
    have hstop : s.phase.isReplaying = true ∨ id ≤ s.lastEventId := by
      cases hr : s.phase.isReplaying with
      | true => exact .inl rfl
      | false => exact .inr (Int.not_lt.mp fun hlt => h ⟨hr, hlt⟩)
    simp [perform, outcome, Subscriber.enqueueLive, hstop, Except.map]
  | sendFrame f => exact absurd trivial h
  | handOver c mode f =>
    simp only [Passes, Classical.not_imp, Int.not_le] at h
    obtain ⟨rfl, hlt⟩ := h
    simp [perform, outcome, handOver_reconciled_of_lt hlt, Except.map]

/-- Every operation offers its frame to the queue in the same way. -/
theorem perform_of_passes (h : call.Passes s) :
    call.perform s =
      match (call.prepare s).push call.frame with
      | (t, .ok ()) => (call.settle t, .ok ())
      | (t, .error e) => (t, .error e) := by
  cases call with
  | enqueueReplayed id f =>
    have hn : ¬ id ≤ s.lastEventId := Int.not_le.mpr h
    simp only [perform, outcome, Subscriber.enqueueReplayed, hn, if_false, pushEvent]
    rcases hp : s.push f with ⟨t, e | ⟨⟩⟩ <;> simp [prepare, frame, settle, hp, Except.map]
  | enqueueLive id f =>
    have hn : ¬ (s.phase.isReplaying = true ∨ id ≤ s.lastEventId) :=
      not_or.mpr ⟨by simp [h.1], Int.not_le.mpr h.2⟩
    simp only [perform, outcome, Subscriber.enqueueLive, hn, if_false, pushEvent]
    rcases hp : s.push f with ⟨t, e | ⟨⟩⟩ <;> simp [prepare, frame, settle, hp, Except.map]
  | sendFrame f =>
    rcases hp : s.push f with ⟨t, e | ⟨⟩⟩ <;> simp [perform, prepare, frame, settle, hp]
  | handOver c mode f =>
    cases mode with
    | fresh =>
      simp only [perform, outcome, Subscriber.handOver, prepare, frame]
      rcases hp : (s.skipPast c.announced).push f with ⟨t, e | ⟨⟩⟩ <;> simp [settle, Except.map]
    | reconciled =>
      have hn : ¬ s.lastEventId < c.announced := Int.not_lt.mpr (h rfl)
      simp only [perform, outcome, Subscriber.handOver, hn, if_false, prepare, frame]
      rcases hp : s.push f with ⟨t, e | ⟨⟩⟩ <;> simp [settle, Except.map]
    | force =>
      simp only [perform, outcome, Subscriber.handOver, prepare, frame]
      rcases hp : s.push f with ⟨t, e | ⟨⟩⟩ <;> simp [settle, Except.map]

/-- Nothing but the greatest handled id can have changed before the frame gets to the queue. -/
theorem prepare_eq (call : Call) (s : Subscriber) :
    call.prepare s = { s with lastEventId := (call.prepare s).lastEventId } := by
  cases call with
  | handOver c mode f => cases mode <;> rfl
  | _ => rfl

theorem lastEventId_prepare_iff :
    (call.prepare s).lastEventId = s.lastEventId ↔ ¬ call.Overtakes s := by
  cases call with
  | handOver c mode f =>
    cases mode with
    | fresh =>
      simp only [prepare, skipPast, Overtakes]
      omega
    | _ => exact ⟨fun _ => not_false, fun _ => rfl⟩
  | _ => exact ⟨fun _ => not_false, fun _ => rfl⟩

theorem prepare_of_not_overtakes (h : ¬ call.Overtakes s) : call.prepare s = s := by
  rw [prepare_eq, lastEventId_prepare_iff.mpr h]

theorem perform_eq_error_iff :
    call.perform s = (t, .error e) ↔
      call.Passes s ∧ e.Applies s.outbound ∧ t = (call.prepare s).refused e := by
  by_cases h : call.Passes s
  · have hqueue : (call.prepare s).outbound = s.outbound := by rw [prepare_eq]
    rw [perform_of_passes h, ← hqueue, ← push_eq_error_iff (f := call.frame)]
    rcases (call.prepare s).push call.frame with ⟨u, e' | ⟨⟩⟩ <;> simp [h]
  · rw [perform_of_not_passes h]
    simp [h]

theorem cancelled_of_perform_eq_ok (h : call.perform s = (t, .ok ())) :
    t.cancelled = s.cancelled := by
  by_cases hp : call.Passes s
  · rw [perform_of_passes hp] at h
    rcases hpush : (call.prepare s).push call.frame with ⟨u, e | ⟨⟩⟩
    · simp [hpush] at h
    · have hsettle : (call.settle u).cancelled = u.cancelled := by cases call <;> rfl
      simp only [hpush, Prod.mk.injEq, and_true] at h
      rw [← h, hsettle, cancelled_of_push_eq_ok hpush, prepare_eq]
  · rw [perform_of_not_passes hp] at h
    cases h
    rfl

end Call

/-- A frame is refused just if it gets as far as a queue that is closed or full. Channels, phase and
queue are then as before; the subscriber has been cancelled if the queue was full, and otherwise
not; and no event counts as handled that did not before, unless it is a handover without history
that is refused and there are announced events that have not been handled. -/
theorem refusal_exact (call : Call) (s : Subscriber) :
    (∀ t e, call.perform s = (t, .error e) ↔
      call.Passes s ∧ e.Applies s.outbound ∧ t = (call.prepare s).refused e) ∧
    (∀ t e, call.perform s = (t, .error e) →
      t.channels = s.channels ∧ t.phase = s.phase ∧ t.outbound = s.outbound ∧
      (t.cancelled = true ↔ s.cancelled = true ∨ e = .queueFull) ∧
      (t.lastEventId = s.lastEventId ↔ ¬ call.Overtakes s) ∧
      (¬ call.Overtakes s → t = s.refused e)) ∧
    ∀ t, call.perform s = (t, .ok ()) → t.cancelled = s.cancelled := by
  refine ⟨fun t e => Call.perform_eq_error_iff, fun t e h => ?_,
    fun t => Call.cancelled_of_perform_eq_ok⟩
  obtain ⟨-, -, rfl⟩ := Call.perform_eq_error_iff.mp h
  have hsame := call.prepare_eq s
  refine ⟨?_, ?_, ?_, ?_, Call.lastEventId_prepare_iff, fun hn => ?_⟩
  · rw [refused, hsame]
  · rw [refused, hsame]
  · rw [refused, hsame]
  · rw [refused, hsame]
    simp
  · rw [Call.prepare_of_not_overtakes hn]

/-- The confirmation of a replay that has caught up finds a queue that is full. -/
theorem refusal_exact_of_caughtUp :
    let s : Subscriber := {
      channels := [.systemEvents]
      phase := .reconciling
      lastEventId := 5
      outbound := { capacity := 1, accepted := [.verbatim "x"] } }
    let call := Call.handOver { after := .epoch, announced := 5 } .reconciled
      (.subscriptionConfirmed .systemEvents)
    call.perform s = ({ s with cancelled := true }, .error .queueFull) ∧
      ¬ call.Overtakes s ∧ (s.refused .queueFull).lastEventId = s.lastEventId := by
  intro s call
  have hexact := refusal_exact call s
  have h : call.perform s = (s.refused .queueFull, .error .queueFull) :=
    (hexact.1 _ _).mpr ⟨fun _ => Int.le_refl 5, ⟨rfl, Nat.le_refl 1⟩, rfl⟩
  exact ⟨h, not_false, (hexact.2.1 _ _ h).2.2.2.2.1.mpr not_false⟩

/-- A subscriber without history, whose queue is full, is not sent the confirmation that it goes
live, and yet the events announced up to 5 count as handled. -/
theorem refused_overtakes :
    let s : Subscriber := {
      channels := [.systemEvents]
      phase := .replaying
      outbound := { capacity := 1, accepted := [.verbatim "x"] } }
    let call := Call.handOver { after := .epoch, announced := 5 } .fresh
      (.subscriptionConfirmed .systemEvents)
    call.perform s = ({ s with lastEventId := 5, cancelled := true }, .error .queueFull) ∧
      s.lastEventId ≠ 5 := by
  intro s call
  exact ⟨Call.perform_eq_error_iff.mpr ⟨nofun, ⟨rfl, Nat.le_refl 1⟩, rfl⟩, by decide⟩

end Subscriber

end EventStream
