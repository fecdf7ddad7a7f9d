import EventStream.Proofs.Delivery.Order
import EventStream.Proofs.World.Lock

/-! What a replay delivers of the events that it owes. Its rounds, the history and the gaps
after it, move the gate from one event to the next. What lies between two events of a round
has been passed over if the round's query did not reach down to it. -/

namespace EventStream

/-- The log has the event, after the cursor, and it makes a frame. -/
structure Log.Owes (log : Log) (cursor : Instant) (e : Event) (m : Message) : Prop where
  holds : log.Holds e
  after : cursor.micros < e.createdAt.micros
  frame : Message.ofEvent? e = some m

namespace Replay

/-- What has these ids is in the log when the query is made. -/
def Purpose.covered : Purpose → Int
  | history _ _ covered => covered
  | gap _ _ delivered _ => delivered

/-- Events of the gap, as far as ids go, that the answer cannot have: the query asked for what
is newer. The answer has a later one. -/
def Purpose.PassesOver (events : List Event) (e : Event) : Purpose → Prop
  | history .. => False
  | gap _ floor delivered highWater =>
    delivered < e.id ∧ e.createdAt.micros ≤ floor.micros ∧
      ∃ x ∈ events, e.id < x.id ∧ x.id ≤ highWater

/-- What a round that has `left` to deliver will pass over. -/
def Skips (purpose : Purpose) (left : List Event) (e : Event) : Prop :=
  e.createdAt.micros ≤ purpose.after.micros ∧ ∃ x ∈ left, e.id < x.id

/-- Up to the gate all that is owed has been queued, but for what has been passed over, and
that has not been queued; it is behind the gate or among what is being skipped. -/
structure Settled (log : Log) (cursor : Instant) (passed skipped : Event → Prop)
    (s : Subscriber) : Prop where
  gate : s.lastEventId ≤ log.lastId
  queued : ∀ e m, log.Owes cursor e m → e.id ≤ s.lastEventId → m ∈ s.messages ∨ passed e
  known : ∀ e, passed e → e.id ≤ log.lastId
  unqueued : ∀ e, passed e → log.Holds e →
    (∀ m ∈ s.messages, m.id ≠ e.id) ∧ (e.id ≤ s.lastEventId ∨ skipped e)

/-- The cursor for the next gap is the replay's own, or it lies before an event up to `id`. -/
def Near (log : Log) (id : Int) (cursor floor : Instant) : Prop :=
  floor = cursor ∨ ∃ x, log.Holds x ∧ x.id ≤ id ∧ floor.micros < x.createdAt.micros

def Purpose.IsNear (log : Log) : Purpose → Prop
  | history .. => True
  | gap cursor floor delivered _ => Near log delivered cursor floor

/-- The latest time seen in a round is that of an event up to the gate. -/
def Seen (log : Log) (s : Subscriber) (newest : Option Instant) : Prop :=
  ∀ t, newest = some t → ∃ x, log.Holds x ∧ x.id ≤ s.lastEventId ∧ x.createdAt = t

/-- A round with the events `left`, which lie past the gate in the order of their ids. -/
structure Round (log : Log) (passed : Event → Prop) (s : Subscriber) (purpose : Purpose)
    (left : List Event) : Prop
    extends Settled log purpose.cursor passed (Skips purpose left) s where
  near : purpose.IsNear log
  covered_le : purpose.covered ≤ log.lastId
  ascending : left.Pairwise (·.id < ·.id)
  above : ∀ x ∈ left, s.lastEventId < x.id
  held : ∀ x ∈ left, log.Holds x ∧ purpose.after.micros < x.createdAt.micros
  ahead : ∀ e m, log.Owes purpose.cursor e m → s.lastEventId < e.id →
    (e.id ≤ purpose.covered ∨ ∃ x ∈ left, e.id ≤ x.id) → e ∈ left ∨ passed e

/-- A round whose query is being made. -/
structure Asked (log : Log) (passed : Event → Prop) (s : Subscriber) (purpose : Purpose) : Prop
    extends Settled log purpose.cursor passed (fun _ => False) s where
  near : purpose.IsNear log
  covered_le : purpose.covered ≤ log.lastId
  opens : match purpose with
    | .history .. => s.lastEventId = 0
    | .gap _ _ delivered _ => delivered = s.lastEventId

/-- How things stand with a replay at each stage up to its last hand-over. -/
def Stands (log : Log) (passed : Event → Prop) (s : Subscriber) (request : Subscription) :
    Stage → Prop
  | .arriving => ∀ e, ¬ passed e
  | .awaitingLock => ∀ e, ¬ passed e
  | .awaitingPermit => ∀ e, ¬ passed e
  | .admitted => ∀ e, ¬ passed e
  | .opening _ cursor =>
    request.lastSeen = some cursor ∧ s.lastEventId = 0 ∧ ∀ e, ¬ passed e
  | .asking purpose => request.lastSeen = some purpose.cursor ∧ Asked log passed s purpose
  | .answered purpose (.ok events) =>
    request.lastSeen = some purpose.cursor ∧ Round log passed s purpose (purpose.wanted events)
  | .answered purpose (.error _) =>
    request.lastSeen = some purpose.cursor ∧ Asked log passed s purpose
  | .delivering purpose left newest =>
    request.lastSeen = some purpose.cursor ∧ Round log passed s purpose left ∧ Seen log s newest
  | .settling cursor floor =>
    request.lastSeen = some cursor ∧ Settled log cursor passed (fun _ => False) s ∧
      Near log s.lastEventId cursor floor
  | .reconciling cursor floor =>
    request.lastSeen = some cursor ∧ Settled log cursor passed (fun _ => False) s ∧
      Near log s.lastEventId cursor floor
  | .lagging cursor floor _ =>
    request.lastSeen = some cursor ∧ Settled log cursor passed (fun _ => False) s ∧
      Near log s.lastEventId cursor floor
  | .confirming .force =>
    ∃ cursor, request.lastSeen = some cursor ∧ Settled log cursor passed (fun _ => False) s
  | _ => True

/-! ### Events of a round -/

section Round

variable {log : Log} {passed : Event → Prop} {s t : Subscriber} {purpose : Purpose}

/-- The first event left has been dealt with: the gate stands at it, and it has been queued
if it makes a frame. -/
theorem Round.next {x : Event} {rest : List Event} (h : Round log passed s purpose (x :: rest))
    (hid : t.lastEventId = x.id)
    (hq : ∀ m, m ∈ t.messages ↔ m ∈ s.messages ∨ Message.ofEvent? x = some m) :
    Round log passed t purpose rest := by
  obtain ⟨hx, hrest⟩ := List.pairwise_cons.mp h.ascending
  have hgate := h.above x List.mem_cons_self
  have hxheld := h.held x List.mem_cons_self
  refine ⟨⟨?_, fun e m ho hle => ?_, h.known, fun e hp he => ⟨fun m hm => ?_, ?_⟩⟩,
    h.near, h.covered_le, hrest,
    fun y hy => ?_, fun y hy => h.held y (List.mem_cons_of_mem _ hy), fun e m ho hlt hor => ?_⟩
  · rw [hid]
    exact hxheld.1.id_le
  · rw [hid] at hle
    by_cases hold : e.id ≤ s.lastEventId
    · exact (h.queued e m ho hold).imp_left fun hm => (hq m).mpr (.inl hm)
    · rcases h.ahead e m ho (by omega) (.inr ⟨x, List.mem_cons_self, hle⟩) with hmem | hp
      · rcases List.mem_cons.mp hmem with rfl | hmem
        · exact .inl ((hq m).mpr (.inr ho.frame))
        · have := hx e hmem
          omega
      · exact .inr hp
  · rcases (hq m).mp hm with hm | hm
    · exact (h.unqueued e hp he).1 m hm
    · rw [Message.id_eq_of_ofEvent? hm]
      intro heq
      rcases (h.unqueued e hp he).2 with hle | ⟨hmicros, -⟩
      · omega
      · have hxe := hxheld.1.eq_of_id_eq he heq
        have := hxheld.2
        rw [hxe] at this
        omega
  · rw [hid]
    rcases (h.unqueued e hp he).2 with hle | ⟨hmicros, y, hy, hlt⟩
    · exact .inl (by omega)
    · rcases List.mem_cons.mp hy with rfl | hy
      · exact .inl (Int.le_of_lt hlt)
      · exact .inr ⟨hmicros, y, hy, hlt⟩
  · rw [hid]
    exact hx y hy
  · rw [hid] at hlt
    have hor' : e.id ≤ purpose.covered ∨ ∃ y ∈ x :: rest, e.id ≤ y.id :=
      hor.imp_right fun ⟨y, hy, hle⟩ => ⟨y, List.mem_cons_of_mem _ hy, hle⟩
    rcases h.ahead e m ho (by omega) hor' with hmem | hp
    · rcases List.mem_cons.mp hmem with rfl | hmem
      · omega
      · exact .inl hmem
    · exact .inr hp

/-- When nothing is left, all is settled up to what the query has covered. -/
theorem Round.settled (h : Round log passed s purpose []) (hm : t.messages = s.messages)
    (hid : t.lastEventId = s.lastEventId ∨
      t.lastEventId = max s.lastEventId purpose.covered) :
    Settled log purpose.cursor passed (fun _ => False) t where
  gate := by
    have hg := h.gate
    have hc := h.covered_le
    omega
  queued := by
    intro e m ho hle
    rw [hm]
    by_cases hold : e.id ≤ s.lastEventId
    · exact h.queued e m ho hold
    · rcases h.ahead e m ho (by omega) (.inl (by omega)) with hmem | hp
      · cases hmem
      · exact .inr hp
  known := h.known
  unqueued := by
    intro e hp he
    rw [hm]
    have hu := h.unqueued e hp he
    refine ⟨hu.1, .inl ?_⟩
    rcases hu.2 with hle | ⟨-, x, hx, -⟩
    · omega
    · cases hx

end Round

/-! ### Answers -/

section Answer

variable {log : Log} {passed passed' : Event → Prop} {s : Subscriber} {purpose : Purpose}
  {events : List Event}

theorem Asked.ahead (h : Asked log passed s purpose)
    (hmem : ∀ e, e ∈ events ↔ log.Holds e ∧ purpose.after.micros < e.createdAt.micros)
    {e : Event} {m : Message} (ho : log.Owes purpose.cursor e m) (hlt : s.lastEventId < e.id)
    (hor : e.id ≤ purpose.covered ∨ ∃ x ∈ purpose.wanted events, e.id ≤ x.id) :
    e ∈ purpose.wanted events ∨ purpose.PassesOver events e := by
  have hopens := h.opens
  cases purpose with
  | history previous cursor covered => exact .inl ((hmem e).mpr ⟨ho.holds, ho.after⟩)
  | gap cursor floor delivered highWater =>
      simp only [Purpose.covered, Purpose.wanted, List.mem_filter, decide_eq_true_eq]
        at hopens hor ⊢
      subst hopens
      rcases hor with hle | ⟨x, ⟨hx, hdx, hxw⟩, hle⟩
      · omega
      · by_cases hfloor : floor.micros < e.createdAt.micros
        · exact .inl ⟨(hmem e).mpr ⟨ho.holds, hfloor⟩, hlt, by omega⟩
        · by_cases heq : e.id = x.id
          · obtain ⟨hxh, hxf⟩ := (hmem x).mp hx
            rw [hxh.eq_of_id_eq ho.holds heq.symm] at hxf
            exact absurd hxf hfloor
          · exact .inr ⟨hlt, by omega, x, hx, by omega, hxw⟩

/-- The answer opens the round. -/
theorem Asked.round (h : Asked log passed s purpose) (hs : s.Gated)
    (hpos : ∀ e, log.Holds e → 0 < e.id)
    (hmem : ∀ e, e ∈ events ↔ log.Holds e ∧ purpose.after.micros < e.createdAt.micros)
    (hasc : events.Pairwise (·.id < ·.id))
    (hpassed : ∀ e, passed' e ↔ passed e ∨ purpose.PassesOver events e) :
    Round log passed' s purpose (purpose.wanted events) := by
  have hopens := h.opens
  have hwanted : ∀ e ∈ purpose.wanted events, e ∈ events ∧ s.lastEventId < e.id := by
    intro e he
    cases purpose with
    | history previous cursor covered =>
        simp only at hopens
        rw [hopens]
        exact ⟨he, hpos e ((hmem e).mp he).1⟩
    | gap cursor floor delivered highWater =>
        simp only [Purpose.wanted, List.mem_filter, decide_eq_true_eq] at hopens he
        exact ⟨he.1, by omega⟩
  refine ⟨⟨h.gate, fun e m ho hle => ?_, fun e hp => ?_, fun e hp he => ?_⟩, h.near,
    h.covered_le, ?_,
    fun x hx => (hwanted x hx).2, fun x hx => (hmem x).mp (hwanted x hx).1,
    fun e m ho hlt hor => ?_⟩
  · exact (h.queued e m ho hle).imp_right fun hp => (hpassed e).mpr (.inl hp)
  · rcases (hpassed e).mp hp with hp | hp
    · exact h.known e hp
    · cases purpose with
      | history previous cursor covered => exact hp.elim
      | gap cursor floor delivered highWater =>
          obtain ⟨-, -, x, hx, hlt, -⟩ := hp
          exact Int.le_trans (Int.le_of_lt hlt) ((hmem x).mp hx).1.id_le
  · rcases (hpassed e).mp hp with hp | hp
    · have hu := h.unqueued e hp he
      exact ⟨hu.1, .inl (hu.2.resolve_right id)⟩
    · cases purpose with
      | history previous cursor covered => exact hp.elim
      | gap cursor floor delivered highWater =>
          obtain ⟨hlt, hfloor, x, hx, hex, hxw⟩ := hp
          simp only at hopens
          refine ⟨fun m hm => ?_, .inr ⟨hfloor, x, ?_, hex⟩⟩
          · have := (hs.bounds m hm).2
            omega
          · simp only [Purpose.wanted, List.mem_filter, decide_eq_true_eq]
            exact ⟨hx, by omega, hxw⟩
  · cases purpose with
    | history previous cursor covered => exact hasc
    | gap cursor floor delivered highWater => exact hasc.filter _
  · exact (h.ahead hmem ho hlt hor).imp_right fun hp => (hpassed e).mpr (.inr hp)

end Answer

/-! ### Growth -/

section Growth

variable {a b : Log} {passed skipped : Event → Prop} {s t : Subscriber} {purpose : Purpose}

theorem owes_of_grows {cursor : Instant} {e : Event} {m : Message}
    (h : b.Owes cursor e m) (hg : a.Grows b) : a.Owes cursor e m ∨ a.lastId < e.id :=
  (hg.holds_or_lt h.holds).imp_left fun he => ⟨he, h.after, h.frame⟩

theorem Settled.grow {cursor : Instant} (h : Settled a cursor passed skipped s) (hg : a.Grows b)
    (hm : t.messages = s.messages) (hid : t.lastEventId = s.lastEventId) :
    Settled b cursor passed skipped t where
  gate := by
    rw [hid]
    exact Int.le_trans h.gate hg.lastId_le
  queued := by
    intro e m ho hle
    rw [hid] at hle
    rw [hm]
    rcases owes_of_grows ho hg with ho | hlt
    · exact h.queued e m ho hle
    · have := h.gate
      omega
  known := fun e hp => Int.le_trans (h.known e hp) hg.lastId_le
  unqueued := by
    intro e hp he
    rw [hm, hid]
    rcases hg.holds_or_lt he with he | hlt
    · exact h.unqueued e hp he
    · have := h.known e hp
      omega

theorem Near.grow {id : Int} {cursor floor : Instant} (h : Near a id cursor floor)
    (hg : a.Grows b) : Near b id cursor floor :=
  h.imp_right fun ⟨x, hx, hle, hlt⟩ => ⟨x, hg.holds hx, hle, hlt⟩

theorem Purpose.IsNear.grow (h : purpose.IsNear a) (hg : a.Grows b) : purpose.IsNear b := by
  cases purpose with
  | history => trivial
  | gap => exact Near.grow h hg

theorem Round.grow {left : List Event} (h : Round a passed s purpose left) (hg : a.Grows b)
    (hm : t.messages = s.messages) (hid : t.lastEventId = s.lastEventId) :
    Round b passed t purpose left where
  toSettled := h.toSettled.grow hg hm hid
  near := h.near.grow hg
  covered_le := Int.le_trans h.covered_le hg.lastId_le
  ascending := h.ascending
  above := by rw [hid]; exact h.above
  held := fun x hx => ⟨hg.holds (h.held x hx).1, (h.held x hx).2⟩
  ahead := by
    intro e m ho hlt hor
    rw [hid] at hlt
    rcases owes_of_grows ho hg with ho | hnew
    · exact h.ahead e m ho hlt hor
    · have hc := h.covered_le
      rcases hor with hle | ⟨x, hx, hle⟩
      · omega
      · have := (h.held x hx).1.id_le
        omega

theorem Asked.grow (h : Asked a passed s purpose) (hg : a.Grows b)
    (hm : t.messages = s.messages) (hid : t.lastEventId = s.lastEventId) :
    Asked b passed t purpose where
  toSettled := h.toSettled.grow hg hm hid
  near := h.near.grow hg
  covered_le := Int.le_trans h.covered_le hg.lastId_le
  opens := by
    have hopens := h.opens
    cases purpose with
    | history => exact hid.trans hopens
    | gap => exact Eq.trans hopens hid.symm

theorem Stands.grow {request : Subscription} {stage : Stage}
    (h : Stands a passed s request stage) (hg : a.Grows b)
    (hm : t.messages = s.messages) (hid : t.lastEventId = s.lastEventId) :
    Stands b passed t request stage := by
  cases stage with
  | opening previous cursor =>
      exact ⟨h.1, hid.trans h.2.1, h.2.2⟩
  | asking purpose => exact ⟨h.1, h.2.grow hg hm hid⟩
  | answered purpose answer =>
      cases answer with
      | error failure => exact ⟨h.1, h.2.grow hg hm hid⟩
      | ok events => exact ⟨h.1, h.2.grow hg hm hid⟩
  | delivering purpose left newest =>
      refine ⟨h.1, h.2.1.grow hg hm hid, fun t ht => ?_⟩
      obtain ⟨x, hx, hle, hxt⟩ := h.2.2 t ht
      exact ⟨x, hg.holds hx, by rw [hid]; exact hle, hxt⟩
  | settling cursor floor =>
      exact ⟨h.1, h.2.1.grow hg hm hid, hid ▸ h.2.2.grow hg⟩
  | reconciling cursor floor =>
      exact ⟨h.1, h.2.1.grow hg hm hid, hid ▸ h.2.2.grow hg⟩
  | lagging cursor floor highWater =>
      exact ⟨h.1, h.2.1.grow hg hm hid, hid ▸ h.2.2.grow hg⟩
  | confirming mode =>
      cases mode with
      | force => exact h.imp fun cursor hc => ⟨hc.1, hc.2.grow hg hm hid⟩
      | _ => trivial
  | _ => exact h

theorem Stands.of_not_hasBegun {request : Subscription} {stage : Stage}
    (h : Stands a passed s request stage) (hb : stage.hasBegun = false) :
    Stands b passed t request stage := by
  cases stage with
  | arriving => exact h
  | awaitingLock => exact h
  | awaitingPermit => exact h
  | admitted => exact h
  | ended => trivial
  | _ => cases hb

end Growth

/-! ### One move of the replay -/

section Next

variable {log : Log} {passed : Event → Prop} {s t : Subscriber} {request : Subscription}
  {announced : Int}

theorem asked_history {previous : Subscriber.Previous} {cursor : Instant}
    (hzero : s.lastEventId = 0) (hnone : ∀ e, ¬ passed e) (hann : announced ≤ log.lastId)
    (hpos : ∀ e, log.Holds e → 0 < e.id) :
    Asked log passed s (.history previous cursor announced) where
  gate := by
    rw [hzero]
    exact log.lastId_nonneg
  queued := by
    intro e m ho hle
    have := hpos e ho.holds
    omega
  known := fun e hp => absurd hp (hnone e)
  unqueued := fun e hp => absurd hp (hnone e)
  near := trivial
  covered_le := hann
  opens := hzero

theorem asked_gap {cursor floor : Instant} {highWater : Int}
    (h : Settled log cursor passed (fun _ => False) s)
    (hn : Near log s.lastEventId cursor floor) :
    Asked log passed s (.gap cursor floor s.lastEventId highWater) where
  toSettled := h
  near := hn
  covered_le := h.gate
  opens := rfl

theorem seen_later {newest : Option Instant} {x : Event} (h : Seen log s newest)
    (hx : log.Holds x) (hid : s.lastEventId ≤ t.lastEventId) (hxid : x.id ≤ t.lastEventId) :
    Seen log t (some (later newest x.createdAt)) := by
  intro u hu
  rcases later_eq newest x.createdAt with heq | heq
  · exact ⟨x, hx, hxid, by rw [← heq]; exact Option.some.inj hu⟩
  · obtain ⟨y, hy, hle, hyt⟩ := h _ heq
    exact ⟨y, hy, Int.le_trans hle hid, by rw [hyt]; exact Option.some.inj hu⟩

/-- The cursor of the next gap query lies just before an event seen. -/
theorem near_of_floorBelow {newest : Option Instant} {cursor floor : Instant}
    (h : Seen log s newest) (hid : s.lastEventId ≤ t.lastEventId)
    (hf : floorBelow? newest cursor = some floor) : Near log t.lastEventId cursor floor := by
  cases newest with
  | none => exact .inl (Option.some.inj hf).symm
  | some u =>
      obtain ⟨x, hx, hle, rfl⟩ := h u rfl
      simp only [floorBelow?, Option.map_eq_some_iff] at hf
      obtain ⟨v, hv, rfl⟩ := hf
      have hmicros := (Instant.prev?_eq_some hx.isWhole hv).2
      rcases Instant.max_eq_or v cursor with hmax | hmax
      · exact .inr ⟨x, hx, Int.le_trans hle hid, by rw [hmax, hmicros]; omega⟩
      · exact .inl hmax

theorem stands_of_next {stage stage' : Stage} (hn : Next announced request stage s stage' t)
    (h : Stands log passed s request stage) (hann : announced ≤ log.lastId)
    (hpos : ∀ e, log.Holds e → 0 < e.id)
    (hzero : ∀ previous cursor, stage' = .opening previous cursor → t.lastEventId = 0) :
    Stands log passed t request stage' := by
  cases hn with
  | arrive => exact h
  | lock => exact h
  | grant => exact h
  | begin hr => exact ⟨hr, hzero _ _ rfl, h⟩
  | ask => exact ⟨h.1, asked_history h.2.1 h.2.2 hann hpos⟩
  | take => exact ⟨h.1, h.2, fun t ht => nomatch ht⟩
  | gapFailed =>
      have ha := h.2
      exact ⟨_, h.1, ha.toSettled⟩
  | @skip _ purpose e rest newest hm =>
      have hlt := h.2.1.above e List.mem_cons_self
      have hid : (s.skipPast e.id).lastEventId = e.id := by
        simp only [Subscriber.skipPast]
        omega
      exact ⟨h.1, h.2.1.next hid fun m => by simp [hm],
        seen_later h.2.2 (h.2.1.held e List.mem_cons_self).1 (by omega) (by omega)⟩
  | stale hm hid =>
      have := h.2.1.above _ List.mem_cons_self
      omega
  | @queue _ purpose e rest newest m hm hid =>
      refine ⟨h.1, h.2.1.next rfl fun m' => ?_,
        seen_later h.2.2 (h.2.1.held e List.mem_cons_self).1 (Int.le_of_lt hid) (Int.le_refl _)⟩
      rw [Subscriber.messages_queued]
      simp [hm, eq_comm]
  | closeHistory hf =>
      exact ⟨h.1, h.2.1.settled rfl (.inr rfl), near_of_floorBelow h.2.2 (Int.le_max_left ..) hf⟩
  | closeGap hlt hf =>
      exact ⟨h.1, h.2.1.settled rfl (.inl rfl), near_of_floorBelow h.2.2 (Int.le_refl _) hf⟩
  | lower => exact ⟨h.1, h.2.1.settled rfl (.inl rfl), .inl rfl⟩
  | giveUp => exact ⟨_, h.1, h.2.1.settled rfl (.inl rfl)⟩
  | settle => exact ⟨h.1, h.2.1.grow (.refl _) rfl rfl, h.2.2⟩
  | behind => exact h
  | lag => exact ⟨h.1, asked_gap h.2.1 h.2.2⟩
  | beginFresh => trivial
  | _ => trivial

end Next

end Replay

end EventStream
