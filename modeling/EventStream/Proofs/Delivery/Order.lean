import EventStream.Proofs.Batch
import EventStream.Proofs.World.Parts

/-! The order in which one connection is sent events. Whatever a run does, ids pass a gate
that only rises, so they ascend; and what passes has come from the log. -/

namespace EventStream

open Subscriber (Alike)

namespace Subscriber

/-- One move leaves the events alone and may raise the gate, or it queues one event of those
in `P` through the gate. -/
inductive Turn (P : Event → Prop) (s t : Subscriber) : Prop where
  | keep (hm : t.messages = s.messages) (hid : s.lastEventId ≤ t.lastEventId)
  | queue {e : Event} {m : Message} (he : P e) (hm : Message.ofEvent? e = some m)
      (hlt : s.lastEventId < e.id) (hq : t.messages = s.messages ++ [m])
      (hid : t.lastEventId = e.id)

theorem Turn.of_alike {P : Event → Prop} {s t : Subscriber} (h : Alike s t) : Turn P s t :=
  .keep h.messages (Int.le_of_eq h.lastEventId.symm)

theorem Turn.mono {P Q : Event → Prop} {s t : Subscriber} (h : ∀ e, P e → Q e)
    (ht : Turn P s t) : Turn Q s t := by
  cases ht with
  | keep hm hid => exact .keep hm hid
  | queue he hm hlt hq hid => exact .queue (h _ he) hm hlt hq hid

theorem Turn.lastEventId_le {P : Event → Prop} {s t : Subscriber} (h : Turn P s t) :
    s.lastEventId ≤ t.lastEventId := by
  cases h with
  | keep _ hid => exact hid
  | queue _ _ hlt _ hid => omega

theorem messages_queued (s : Subscriber) (id : Int) (m : Message) :
    ({ s.accept (.event m) with lastEventId := id } : Subscriber).messages = s.messages ++ [m] :=
  messages_accept s (.event m)

theorem turn_of_queued {P : Event → Prop} {s : Subscriber} {e : Event} {m : Message} (he : P e)
    (hm : Message.ofEvent? e = some m) (hlt : s.lastEventId < e.id) :
    Turn P s { s.accept (.event m) with lastEventId := e.id } :=
  .queue he hm hlt (messages_queued s e.id m) rfl

theorem turn_of_offer {P : Event → Prop} {s t : Subscriber} {e : Event} {m : Message} (he : P e)
    (hm : Message.ofEvent? e = some m) (ho : Offer s e.id (.event m) t) : Turn P s t := by
  cases ho with
  | stale => exact .of_alike (.refl _)
  | queued hlt => exact turn_of_queued he hm hlt
  | refused _ ht => exact .of_alike (alike_of_refuses ht)

/-- A live frame that is no event raises the gate at most. -/
theorem turn_of_offer_none {P : Event → Prop} {s t : Subscriber} {id : Int} {f : Frame}
    (hf : f.message? = none) (ho : Offer s id f t) : Turn P s t := by
  cases ho with
  | stale => exact .of_alike (.refl _)
  | queued hlt => exact .keep (alike_accept s hf).messages (Int.le_of_lt hlt)
  | refused _ ht => exact .of_alike (alike_of_refuses ht)

theorem turn_handOver (P : Event → Prop) (s : Subscriber) (announced : Int) (mode : Handover)
    {f : Frame} (hf : f.message? = none) : Turn P s (s.handOver announced mode f).1 := by
  by_cases hm : mode = .reconciled
  · subst hm
    by_cases hlt : s.lastEventId < announced
    · rw [handOver_reconciled_of_lt hlt]
      exact .of_alike (.refl s)
    · rcases handOver_reconciled_of_le (Int.not_lt.mp hlt) f with hp | ⟨t, e, hp, ht⟩
      · rw [hp]
        exact .keep (alike_accept s hf).messages (Int.le_refl _)
      · rw [hp]
        exact .of_alike (alike_of_refuses ht)
  · have hu : ∀ u : Subscriber, u = (if mode = .fresh then s.skipPast announced else s) →
        u.messages = s.messages ∧ s.lastEventId ≤ u.lastEventId := by
      rintro u rfl
      split
      · exact ⟨rfl, Int.le_max_left ..⟩
      · exact ⟨rfl, Int.le_refl _⟩
    obtain ⟨hmsg, hid⟩ := hu _ rfl
    rcases handOver_unasked announced hm f with hp | hp
    · rw [hp]
      exact .keep ((alike_accept _ hf).messages.trans hmsg) hid
    · have ha := alike_of_refuses hp
      exact .keep (ha.messages.trans hmsg) (ha.lastEventId ▸ hid)

/-! ### The gate -/

/-- The ids queued ascend from 1 on, up to where the gate stands. -/
structure Gated (s : Subscriber) : Prop where
  nonneg : 0 ≤ s.lastEventId
  ascending : s.messages.Pairwise (·.id < ·.id)
  bounds : ∀ m ∈ s.messages, 0 < m.id ∧ m.id ≤ s.lastEventId

theorem gated_new (capacity : Nat) : Gated { outbound := { capacity } } :=
  ⟨Int.le_refl 0, .nil, fun _ hm => nomatch hm⟩

/-- An event that has been queued has been queued once. -/
theorem Gated.count_eq_one_iff {s : Subscriber} (h : s.Gated) {m : Message} :
    s.messages.count m = 1 ↔ m ∈ s.messages := by
  have hnodup : s.messages.Nodup := h.ascending.imp fun hlt heq => by
    rw [heq] at hlt
    exact Int.lt_irrefl _ hlt
  rw [hnodup.count]
  split <;> simp_all

theorem Gated.turn {P : Event → Prop} {s t : Subscriber} (hs : s.Gated) (ht : Turn P s t) :
    t.Gated := by
  have hnonneg := hs.nonneg
  cases ht with
  | keep hm hid =>
      refine ⟨by omega, by rw [hm]; exact hs.ascending, fun m h => ?_⟩
      rw [hm] at h
      have hb := hs.bounds m h
      omega
  | @queue e m he hm hlt hq hid =>
      have hmid := Message.id_eq_of_ofEvent? hm
      refine ⟨by omega, ?_, fun n hn => ?_⟩
      · rw [hq]
        refine List.pairwise_append.mpr ⟨hs.ascending, List.pairwise_singleton .., ?_⟩
        intro n hn m' hm'
        rw [List.mem_singleton.mp hm']
        have hb := hs.bounds n hn
        omega
      · rw [hq] at hn
        rcases List.mem_append.mp hn with hn | hn
        · have hb := hs.bounds n hn
          omega
        · rw [List.mem_singleton.mp hn]
          omega

end Subscriber

/-! ### Events in hand -/

def Replay.Stage.events : Replay.Stage → List Event
  | .answered _ (.ok events) => events
  | .delivering _ left _ => left
  | _ => []

def Tick.Stage.events : Tick.Stage → List Event
  | .answered (.ok events) => events
  | .announcing batch => batch
  | .picking batch _ _ => batch
  | .broadcasting batch left _ _ => batch ++ left
  | _ => []

/-- What a task has been answered and may still offer. -/
def Task.events : Task → List Event
  | .replay r => r.stage.events
  | .tick stage => stage.events

/-- The event that a tick is offering it has in hand. -/
theorem Task.mem_events_of_eq {t : Task} {batch rest : List Event} {e : Event}
    {live targets : List ConnectionId}
    (h : t = .tick (.broadcasting batch (e :: rest) live targets)) : e ∈ t.events := by
  rw [h]
  exact List.mem_append_right _ List.mem_cons_self

theorem Replay.Purpose.mem_of_mem_wanted {purpose : Replay.Purpose} {events : List Event}
    {e : Event} (h : e ∈ purpose.wanted events) : e ∈ events := by
  cases purpose with
  | history => exact h
  | gap => exact (List.mem_filter.mp h).1

theorem Replay.Next.mem_events {announced : Int} {request : Subscription}
    {stage stage' : Replay.Stage} {s t : Subscriber}
    (hn : Replay.Next announced request stage s stage' t) {e : Event} (he : e ∈ stage'.events) :
    e ∈ stage.events := by
  cases hn with
  | take => exact Replay.Purpose.mem_of_mem_wanted he
  | skip => exact List.mem_cons_of_mem _ he
  | stale => exact List.mem_cons_of_mem _ he
  | queue => exact List.mem_cons_of_mem _ he
  | _ => cases he

theorem Replay.Next.turn {announced : Int} {request : Subscription}
    {stage stage' : Replay.Stage} {s t : Subscriber}
    (hn : Replay.Next announced request stage s stage' t) :
    Subscriber.Turn (· ∈ stage.events) s t := by
  cases hn with
  | skip => exact .keep rfl (Int.le_max_left ..)
  | queue hm hid => exact Subscriber.turn_of_queued List.mem_cons_self hm hid
  | refuseHistory ht => exact .of_alike (Subscriber.alike_of_refuses ht)
  | refuseGap ht => exact .of_alike (Subscriber.alike_of_refuses ht)
  | closeHistory => exact .keep rfl (Int.le_max_left ..)
  | breakHistory => exact .keep rfl (Int.le_max_left ..)
  | goLive => exact .keep (Subscriber.alike_accept s rfl).messages (Int.le_refl _)
  | refuseLive _ ht => exact .of_alike (Subscriber.alike_of_refuses ht)
  | confirm => exact Subscriber.turn_handOver _ s announced _ rfl
  | report => exact .of_alike (Subscriber.alike_push s rfl)
  | _ => exact .keep rfl (Int.le_refl _)

theorem Tick.Next.mem_events {h : Hub} {stage stage' : Tick.Stage} {checkpoint : Checkpoint}
    {subscriber : ConnectionId → Subscriber} (hn : Tick.Next h stage stage' checkpoint subscriber)
    {e : Event} (he : e ∈ stage'.events) : e ∈ stage.events := by
  cases hn with
  | sort => exact Event.mem_sortById.mp he
  | announce => exact he
  | announceNone => exact he
  | pick => exact he
  | passOver => exact he
  | fanOut => simpa [Tick.Stage.events] using he
  | offer => exact he
  | offerNone => exact he
  | mark =>
      simp only [Tick.Stage.events, List.mem_append] at he ⊢
      exact he.imp_right (List.mem_cons_of_mem _)
  | _ => cases he

namespace World

/-! ### One move -/

/-- Each subscriber is sent at most one event, and one that a task had in hand. -/
theorem Effect.turn {w w' : World} {m : Move} (h : Effect w m w') (c : ConnectionId) :
    Subscriber.Turn (fun e => ∃ k, e ∈ (w.hub.task k).events) (w.hub.subscriber c)
      (w'.hub.subscriber c) := by
  cases h.touches c with
  | alike ha => exact .of_alike ha
  | @replay k r stage ht hc hl hn =>
      exact hn.turn.mono fun e he => ⟨k, by rw [ht]; exact he⟩
  | @tick k batch e rest live targets m ht hm hp ho =>
      exact Subscriber.turn_of_offer ⟨k, Task.mem_events_of_eq ht⟩ hm ho
  | offer hf hp ho => exact Subscriber.turn_of_offer_none hf ho

/-- What a task has in hand after a move it had before, or the log has just given it. -/
theorem Effect.mem_events {w w' : World} {m : Move} (h : Effect w m w') {k : TaskId} {e : Event}
    (he : e ∈ (w'.hub.task k).events) :
    (∃ j, e ∈ (w.hub.task j).events) ∨ w.log.Holds e := by
  have hother : ∀ {j : TaskId} {t : Task}, e ∈ (update w.hub.task j t k).events →
      (∃ i, e ∈ (w.hub.task i).events) ∨ e ∈ t.events := by
    intro j t hmem
    by_cases hk : k = j
    · subst hk
      exact .inr (by simpa using hmem)
    · exact .inl ⟨k, by simpa [update_of_ne _ _ hk] using hmem⟩
  cases h with
  | inert _ hi => exact .inl ⟨k, by rw [← hi.task]; exact he⟩
  | subscribe =>
      rcases hother he with h | h
      · exact .inl h
      · cases h
  | startTick =>
      rcases hother he with h | h
      · exact .inl h
      · cases h
  | @answerReplay j r purpose a ht hs ha =>
      rcases hother he with h | h
      · exact .inl h
      · cases a with
        | error failure => cases h
        | ok events => exact .inr (((mem_iff_of_mayAnswer ha).mp h).1)
  | @answerTick j after a ht ha =>
      rcases hother he with h | h
      · exact .inl h
      · cases a with
        | error failure => cases h
        | ok events => exact .inr (((mem_iff_of_mayAnswer ha).mp h).1)
  | @replay j r stage s h' ht hn hm =>
      change e ∈ (h'.task k).events at he
      rw [hm.task] at he
      rcases hother he with h | h
      · exact .inl h
      · exact .inl ⟨j, by rw [ht]; exact hn.mem_events h⟩
  | @tick j stage stage' checkpoint subscriber ht hn =>
      rcases hother he with h | h
      · exact .inl h
      · exact .inl ⟨j, by rw [ht]; exact hn.mem_events h⟩
  | _ => exact .inl ⟨k, he⟩

/-! ### A whole run -/

section Run

variable {capacity replays : Nat} {start : Instant} {past : List (World × Move)} {w : World}

theorem gated_of_run (run : Run Possible (.new capacity replays start) past w)
    (c : ConnectionId) : (w.hub.subscriber c).Gated := by
  induction run with
  | nil => exact Subscriber.gated_new 0
  | cons run hm ih => exact ih.turn ((effect (tidy_of_run run) hm).turn c)

theorem lastEventId_le_of_run (run : Run Possible (.new capacity replays start) past w)
    (c : ConnectionId) {v : World} (hv : Visited past w v) :
    (v.hub.subscriber c).lastEventId ≤ (w.hub.subscriber c).lastEventId := by
  induction run with
  | nil =>
      rcases hv with rfl | ⟨m, hm⟩
      · exact Int.le_refl _
      · cases hm
  | cons run hm ih =>
      rcases visited_cons_iff.mp hv with rfl | hv
      · exact Int.le_refl _
      · exact Int.le_trans (ih hv) ((effect (tidy_of_run run) hm).turn c).lastEventId_le

/-- The log held `e` at some time of the run. -/
def Logged (past : List (World × Move)) (w : World) (e : Event) : Prop :=
  ∃ v, Visited past w v ∧ v.log.Holds e

theorem Logged.cons {w' : World} {m : Move} {e : Event} (h : Logged past w e) :
    Logged ((w, m) :: past) w' e := by
  obtain ⟨v, hv, he⟩ := h
  exact ⟨v, hv.cons, he⟩

theorem logged_of_mem_events (run : Run Possible (.new capacity replays start) past w)
    {k : TaskId} {e : Event} (he : e ∈ (w.hub.task k).events) : Logged past w e := by
  induction run generalizing k with
  | nil => cases he
  | @cons past v m run hm ih =>
      rcases (effect (tidy_of_run run) hm).mem_events he with ⟨j, hj⟩ | hlog
      · exact (ih hj).cons
      · exact ⟨v, .cons (.inl rfl), hlog⟩

theorem logged_of_mem_messages (run : Run Possible (.new capacity replays start) past w)
    {c : ConnectionId} {m : Message} (hm : m ∈ (w.hub.subscriber c).messages) :
    ∃ e, Logged past w e ∧ Message.ofEvent? e = some m := by
  induction run with
  | nil => cases hm
  | @cons past v move run hmove ih =>
      cases (effect (tidy_of_run run) hmove).turn c with
      | keep hq _ =>
          obtain ⟨e, he, hem⟩ := ih (hq ▸ hm)
          exact ⟨e, he.cons, hem⟩
      | @queue e m' he hem _ hq _ =>
          rw [hq] at hm
          rcases List.mem_append.mp hm with hm | hm
          · obtain ⟨d, hd, hdm⟩ := ih hm
            exact ⟨d, hd.cons, hdm⟩
          · obtain ⟨k, hk⟩ := he
            rw [List.mem_singleton.mp hm]
            exact ⟨e, (logged_of_mem_events run hk).cons, hem⟩

/-- The events that a connection is sent, whichever replays and ticks sent them, carry ids that
ascend strictly, from 1 up to the gate, which never falls; and each is the frame of a row that
the log held under that id. -/
theorem messages_in_order (run : Run Possible (.new capacity replays start) past w)
    (c : ConnectionId) :
    (w.hub.subscriber c).messages.Pairwise (·.id < ·.id) ∧
    (∀ m ∈ (w.hub.subscriber c).messages,
      0 < m.id ∧ m.id ≤ (w.hub.subscriber c).lastEventId ∧
      ∃ v, Visited past w v ∧ ∃ r ∈ v.log.rows, r.id = m.id ∧
        ∃ e, r.event = .ok e ∧ Message.ofEvent? e = some m) ∧
    ∀ v, Visited past w v →
      (v.hub.subscriber c).lastEventId ≤ (w.hub.subscriber c).lastEventId := by
  have hg := gated_of_run run c
  refine ⟨hg.ascending, fun m hm => ?_, fun v hv => lastEventId_le_of_run run c hv⟩
  obtain ⟨hpos, hle⟩ := hg.bounds m hm
  obtain ⟨e, ⟨v, hv, r, hr, hre⟩, hem⟩ := logged_of_mem_messages run hm
  have hid : r.id = m.id := by
    rw [Message.id_eq_of_ofEvent? hem, (Row.event_eq_ok hre).1]
  exact ⟨hpos, hle, v, hv, r, hr, hid, e, hre, hem⟩

end Run

/-- The first of two ticks comes to its batch after the second one, whose answer was in
reverse. -/
def overtaken : List Move :=
  [Move.connect, .subscribe 0 ⟨.systemEvents, none⟩] ++ List.replicate 5 (Move.advance 0) ++
  [Move.append (policyAt 1000), .startTick, .advance 1, .answer 1 (.ok [(policyAt 1000).event 1]),
    .append (policyAt 2000), .startTick, .advance 2,
    .answer 2 (.ok [(policyAt 2000).event 2, (policyAt 1000).event 1])] ++
  List.replicate 9 (Move.advance 2) ++ [Move.receive 0 none] ++ List.replicate 9 (Move.advance 1)

theorem messages_in_order_of_overtaken :
    let w := (new 8 8 .epoch).applyAll overtaken
    (w.hub.subscriber 0).messages.map (·.id) = [1, 2] ∧
      (w.hub.subscriber 0).messages.Pairwise (·.id < ·.id) := by
  refine ⟨by decide +kernel, ?_⟩
  have run : Run Possible (new 8 8 .epoch) ((new 8 8 .epoch).history [] overtaken)
      ((new 8 8 .epoch).applyAll overtaken) := Follows.run (by decide +kernel) .nil
  exact (messages_in_order run 0).1

end World

end EventStream
