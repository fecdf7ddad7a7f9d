import EventStream.Proofs.Delivery.Sweep

/-! What a tick has yet to bring to one connection, and the points at which it comes to it: to
look whether it is live, and to offer it an event. -/

namespace EventStream

namespace Tick

/-- The events that the tick will still offer to the connection, if they make frames. -/
def Stage.due (c : ConnectionId) : Stage → List Event
  | .picking batch unseen live => if c ∈ unseen ∨ c ∈ live then batch else []
  | .broadcasting _ left live targets =>
    if c ∈ live then (if c ∈ targets then left else left.tail) else []
  | _ => []

theorem mem_of_mem_due {batch left : List Event} {live targets : List ConnectionId}
    {c : ConnectionId} {x : Event} (hx : x ∈ (Stage.broadcasting batch left live targets).due c) :
    c ∈ live ∧ x ∈ left := by
  simp only [Stage.due] at hx
  split at hx
  · next hc =>
    split at hx
    · exact ⟨hc, hx⟩
    · exact ⟨hc, List.mem_of_mem_tail hx⟩
  · cases hx

section Next

variable {h : Hub} {stage stage' : Stage} {checkpoint : Checkpoint}
  {subscriber : ConnectionId → Subscriber} {c : ConnectionId}

theorem isAnnounced_cases (hn : Next h stage stage' checkpoint subscriber)
    (ha : stage'.isAnnounced = true) :
    stage.isAnnounced = true ∨
      ∃ batch, stage = .announcing batch ∧ stage' = .picking batch h.registry [] := by
  cases hn with
  | announce => exact .inr ⟨_, rfl, rfl⟩
  | announceNone => exact .inr ⟨_, rfl, rfl⟩
  | pick => exact .inl rfl
  | passOver => exact .inl rfl
  | fanOut => exact .inl rfl
  | offer => exact .inl rfl
  | offerNone => exact .inl rfl
  | mark => exact .inl rfl
  | _ => cases ha

/-- Who is live is offered the first event of `left`, unless it makes no frame. -/
theorem mem_due_targets {batch left : List Event} {live : List ConnectionId} (hc : c ∈ live)
    {x : Event} (hx : x ∈ left) (hm : (Message.ofEvent? x).isSome = true) :
    x ∈ (Stage.broadcasting batch left live (targets left live)).due c := by
  simp only [Stage.due, hc, ite_true]
  cases left with
  | nil => cases hx
  | cons e rest =>
      split
      · exact hx
      · next hnot =>
        rcases List.mem_cons.mp hx with rfl | hx
        · simp only [targets, hm, ite_true] at hnot
          exact absurd hc hnot
        · exact hx

/-- Once `c` has been offered the first event of `left`, the others are due. -/
theorem mem_due_tail {batch rest : List Event} {e : Event} {live targets : List ConnectionId}
    (hc : c ∈ live) {x : Event} (hx : x ∈ rest) :
    x ∈ (Stage.broadcasting batch (e :: rest) live targets).due c := by
  simp only [Stage.due, hc, ite_true]
  split
  · exact List.mem_cons_of_mem _ hx
  · exact hx

/-- What is due stays due, but for two points: the tick comes to offer it, or it looks whether
the connection is live and finds that it is not. -/
theorem mem_due_cases (hn : Next h stage stage' checkpoint subscriber) {x : Event}
    (hm : (Message.ofEvent? x).isSome = true) (hx : x ∈ stage.due c) :
    x ∈ stage'.due c ∨
      (∃ batch rest live targets, stage = .broadcasting batch (x :: rest) live (c :: targets)) ∨
      (h.subscriber c).isLiveOn .systemEvents = false ∧
        ∃ batch unseen live, stage = .picking batch (c :: unseen) live := by
  cases hn with
  | @pick batch d unseen live =>
      left
      simp only [Stage.due, List.mem_cons, List.mem_append, List.not_mem_nil, or_false] at hx ⊢
      split at hx
      · next hc => simp only [show c ∈ unseen ∨ c ∈ live ∨ c = d by grind, ite_true, hx]
      · cases hx
  | @passOver batch d unseen live hd =>
      by_cases hcd : c = d
      · subst hcd
        exact .inr (.inr ⟨hd, _, _, _, rfl⟩)
      · simp only [Stage.due, List.mem_cons, hcd, false_or] at hx ⊢
        exact .inl hx
  | @fanOut batch live =>
      left
      simp only [Stage.due, List.not_mem_nil, false_or] at hx
      split at hx
      · next hc => exact mem_due_targets hc hx hm
      · cases hx
  | @offer batch e rest live d targets =>
      by_cases hd : c = d
      · subst hd
        obtain ⟨hc, hx⟩ := mem_of_mem_due hx
        rcases List.mem_cons.mp hx with rfl | hx
        · exact .inr (.inl ⟨_, _, _, _, rfl⟩)
        · exact .inl (mem_due_tail hc hx)
      · left
        simpa only [Stage.due, List.mem_cons, hd, false_or] using hx
  | offerNone hnone =>
      obtain ⟨hc, hx⟩ := mem_of_mem_due hx
      rcases List.mem_cons.mp hx with rfl | hx
      · rw [hnone] at hm
        cases hm
      · exact .inl (mem_due_tail hc hx)
  | @mark batch e rest live =>
      left
      simp only [Stage.due, List.not_mem_nil, ite_false, List.tail_cons] at hx
      split at hx
      · next hc => exact mem_due_targets hc hx hm
      · cases hx
  | closeNone => cases (mem_of_mem_due hx).2
  | close => cases (mem_of_mem_due hx).2
  | overflow => cases (mem_of_mem_due hx).2
  | _ => cases hx

/-- What is due to a live connection stays due until it is offered. -/
theorem mem_due_of_next (hn : Next h stage stage' checkpoint subscriber)
    (hlive : (h.subscriber c).isLiveOn .systemEvents = true) {x : Event}
    (hm : (Message.ofEvent? x).isSome = true) (hx : x ∈ stage.due c) :
    x ∈ stage'.due c ∨
      ∃ batch rest live targets, stage = .broadcasting batch (x :: rest) live (c :: targets) := by
  rcases mem_due_cases hn hm hx with hx | hoffer | ⟨hnot, -⟩
  · exact .inl hx
  · exact .inr hoffer
  · rw [hlive] at hnot
    cases hnot

end Next

end Tick

/-- What the task will still offer to the connection beyond its gate, if it is a tick. -/
def Task.due (c : ConnectionId) : Task → List Event
  | .tick stage => stage.due c
  | .replay _ => []

namespace Task

/-- The events that a tick is about to announce. -/
def announces : Task → List Event
  | .tick (.announcing batch) => batch
  | _ => []

/-- The connection at which a tick is about to look. -/
def check? : Task → Option ConnectionId
  | .tick (.picking _ (c :: _) _) => some c
  | _ => none

/-- The connection to which a tick is about to offer an event, and what it offers. -/
def offer? : Task → Option (ConnectionId × Message)
  | .tick (.broadcasting _ (e :: _) _ (c :: _)) => (Message.ofEvent? e).map (c, ·)
  | _ => none

theorem due_of_isEnded {t : Task} (h : t.isEnded = true) (c : ConnectionId) : t.due c = [] := by
  cases t with
  | replay r => rfl
  | tick stage =>
      cases stage with
      | ended => rfl
      | _ => cases h

theorem mem_announces {t : Task} {e : Event} :
    e ∈ t.announces ↔ ∃ batch, t = .tick (.announcing batch) ∧ e ∈ batch := by
  unfold announces
  split
  · simp
  · next hne =>
    simp only [List.not_mem_nil, false_iff]
    rintro ⟨batch, rfl, -⟩
    exact hne batch rfl

theorem check?_eq_some {t : Task} {c : ConnectionId} :
    t.check? = some c ↔ ∃ batch unseen live, t = .tick (.picking batch (c :: unseen) live) := by
  unfold check?
  split
  · next batch d unseen live => simp [eq_comm]
  · next hne =>
    simp only [reduceCtorEq, false_iff]
    rintro ⟨batch, unseen, live, rfl⟩
    exact hne batch c unseen live rfl

theorem offer?_eq_some {t : Task} {c : ConnectionId} {m : Message} :
    t.offer? = some (c, m) ↔ ∃ batch e rest live targets,
      t = .tick (.broadcasting batch (e :: rest) live (c :: targets)) ∧
        Message.ofEvent? e = some m := by
  unfold offer?
  split
  · next batch e rest live d targets =>
    simp only [Option.map_eq_some_iff, Prod.mk.injEq]
    constructor
    · rintro ⟨m', hm, rfl, rfl⟩
      exact ⟨batch, e, rest, live, targets, rfl, hm⟩
    · rintro ⟨batch', e', rest', live', targets', heq, hm⟩
      cases heq
      exact ⟨m, hm, rfl, rfl⟩
  · next hne =>
    simp only [reduceCtorEq, false_iff]
    rintro ⟨batch, e, rest, live, targets, rfl, -⟩
    exact hne batch e rest live c targets rfl

end Task

end EventStream
