import EventStream.Proofs.Delivery.Offers
import EventStream.Proofs.World.Cost

/-! What one tick does to one connection. A live connection has its share of the batch offered, in
the order of ids, and its queue takes as much of it as there is room for; what the tick does to
others, and in which order it comes to them, has no part in it. -/

namespace EventStream

/-! ### Room in a queue -/

namespace Subscriber

/-- How many frames the queue takes before it is full, or closed. -/
def room (s : Subscriber) : Nat :=
  if s.HasRoom then s.outbound.capacity + s.outbound.received - s.outbound.accepted.length else 0

/-- The subscriber after events that are due to it: of these as many are queued as there is room
for, the last of them moves the gate, and a queue that fills up on the way cancels it. -/
def served (s : Subscriber) (due : List Message) : Subscriber :=
  { s with
    outbound :=
      { s.outbound with accepted := s.outbound.accepted ++ (due.take s.room).map .event }
    lastEventId := ((due.take s.room).getLast?.map (·.id)).getD s.lastEventId
    cancelled := s.cancelled || (s.outbound.isOpen && decide (s.room < due.length)) }

theorem hasRoom_iff {s : Subscriber} : s.HasRoom ↔ s.outbound.isOpen = true ∧
    s.outbound.accepted.length - s.outbound.received < s.outbound.capacity := by
  rw [HasRoom, Outbound.pending, List.length_drop]

/-- The room is what the waiting frames leave of the capacity. -/
theorem room_eq {s : Subscriber} (h : s.outbound.received ≤ s.outbound.accepted.length) :
    s.room = if s.outbound.isOpen then s.outbound.capacity - s.outbound.pending.length else 0 := by
  rw [Outbound.pending, List.length_drop, room]
  cases hopen : s.outbound.isOpen with
  | false =>
      rw [if_neg fun hroom => Bool.false_ne_true (hopen.symm.trans hroom.1), if_neg nofun]
  | true =>
      have hroom := hasRoom_iff.trans (and_iff_right hopen)
      rw [if_pos rfl]
      split
      · omega
      · next hfull =>
        have := mt hroom.mpr hfull
        omega

/-- The subscriber with one more event in its queue. -/
def queued (s : Subscriber) (m : Message) : Subscriber :=
  { s.accept (.event m) with lastEventId := m.id }

theorem room_queued {s : Subscriber} (h : s.HasRoom) (m : Message) :
    s.room = (s.queued m).room + 1 := by
  obtain ⟨hopen, hlt⟩ := hasRoom_iff.mp h
  have hlength : (s.queued m).outbound.accepted.length = s.outbound.accepted.length + 1 :=
    List.length_append
  have hroom : (s.queued m).HasRoom ↔
      s.outbound.accepted.length + 1 - s.outbound.received < s.outbound.capacity := by
    rw [hasRoom_iff, hlength]
    exact and_iff_right hopen
  have hlater : (s.queued m).room = if (s.queued m).HasRoom then
      s.outbound.capacity + s.outbound.received - (s.outbound.accepted.length + 1) else 0 := by
    rw [room, hlength]
    rfl
  rw [room, if_pos h, hlater]
  split
  · next hmore =>
    have := hroom.mp hmore
    omega
  · next hfull =>
    have := mt hroom.mpr hfull
    omega

/-! ### Offers one after another -/

/-- The subscriber after it has been offered these events. -/
def offered (s : Subscriber) (ms : List Message) : Subscriber :=
  ms.foldl (fun s m => (s.enqueueLive m.id (.event m)).1) s

@[simp] theorem offered_cons (s : Subscriber) (m : Message) (ms : List Message) :
    s.offered (m :: ms) = (s.enqueueLive m.id (.event m)).1.offered ms :=
  rfl

@[simp] theorem served_nil (s : Subscriber) : s.served [] = s := by
  simp [served]

theorem served_cons_of_hasRoom {s : Subscriber} (h : s.HasRoom) (m : Message)
    (due : List Message) : s.served (m :: due) = (s.queued m).served due := by
  have hroom := room_queued h m
  simp only [served, hroom, List.take_succ_cons, List.map_cons, List.length_cons,
    Nat.add_lt_add_iff_right, List.getLast?_cons]
  generalize (s.queued m).room = n
  simp only [queued, accept, List.append_assoc, List.singleton_append]
  cases (due.take n).getLast? <;> rfl

/-- The subscriber after it has been offered what it cannot queue: if it is open, it is
cancelled. -/
def turnedAway (s : Subscriber) : Subscriber :=
  { s with cancelled := s.cancelled || s.outbound.isOpen }

theorem served_cons_of_not_hasRoom {s : Subscriber} (h : ¬ s.HasRoom) (m : Message)
    (due : List Message) : s.served (m :: due) = s.turnedAway := by
  have hroom : s.room = 0 := if_neg h
  simp [served, hroom, turnedAway]

theorem served_turnedAway {s : Subscriber} (h : ¬ s.HasRoom) (due : List Message) :
    s.turnedAway.served due = s.turnedAway := by
  cases due with
  | nil => exact served_nil _
  | cons m due =>
      have hsame : ¬ s.turnedAway.HasRoom := h
      rw [served_cons_of_not_hasRoom hsame]
      simp [turnedAway]

theorem enqueueLive_of_hasRoom {s : Subscriber} {m : Message} (ha : s.Admits m.id)
    (h : s.HasRoom) : (s.enqueueLive m.id (.event m)).1 = s.queued m := by
  rw [enqueueLive_of_admits ha, pushEvent_of_hasRoom h, queued]

theorem enqueueLive_of_not_hasRoom {s : Subscriber} {m : Message} (ha : s.Admits m.id)
    (h : ¬ s.HasRoom) : (s.enqueueLive m.id (.event m)).1 = s.turnedAway := by
  cases hopen : s.outbound.isOpen with
  | true =>
      have hfull := (enqueueLive_eq_queueFull (f := .event m)).mpr ⟨ha, hopen, h⟩
      rw [enqueueLive_of_admits ha] at hfull ⊢
      rw [(pushEvent_eq_cancel hfull).2]
      simp [turnedAway, cancel, hopen]
  | false =>
      rw [enqueueLive_of_admits ha]
      simp [pushEvent, push, Outbound.offer, turnedAway, hopen]

/-- Offers in the order of ids come to what is due being served. -/
theorem offered_eq_served {s : Subscriber} (hs : s.phase.isReplaying = false) {ms : List Message}
    (hms : ms.Pairwise (·.id < ·.id)) :
    s.offered ms = s.served (ms.filter (s.lastEventId < ·.id)) := by
  induction ms generalizing s with
  | nil => rw [List.filter_nil, served_nil]; rfl
  | cons m ms ih =>
      obtain ⟨hm, hms⟩ := List.pairwise_cons.mp hms
      rw [offered_cons]
      by_cases hlt : s.lastEventId < m.id
      · have ha : s.Admits m.id := ⟨hs, hlt⟩
        have hall : ms.filter (s.lastEventId < ·.id) = ms :=
          List.filter_eq_self.mpr fun n hn => decide_eq_true (Int.lt_trans hlt (hm n hn))
        have hlater : ms.filter ((s.queued m).lastEventId < ·.id) = ms :=
          List.filter_eq_self.mpr fun n hn => decide_eq_true (hm n hn)
        rw [List.filter_cons_of_pos (by simpa using hlt), hall]
        by_cases hroom : s.HasRoom
        · have hreplaying : (s.queued m).phase.isReplaying = false := hs
          rw [enqueueLive_of_hasRoom ha hroom, served_cons_of_hasRoom hroom, ih hreplaying hms,
            hlater]
        · have hreplaying : s.turnedAway.phase.isReplaying = false := hs
          rw [enqueueLive_of_not_hasRoom ha hroom, served_cons_of_not_hasRoom hroom,
            ih hreplaying hms, served_turnedAway hroom]
      · have hstale : ¬ s.Admits m.id := fun ha => hlt ha.2
        rw [enqueueLive_of_not_admits hstale, ih hs hms,
          List.filter_cons_of_neg (by simpa using hlt)]

/-- To be offered an event once more changes nothing. -/
theorem enqueueLive_twice (s : Subscriber) (m : Message) :
    ((s.enqueueLive m.id (.event m)).1.enqueueLive m.id (.event m)).1 =
      (s.enqueueLive m.id (.event m)).1 := by
  by_cases ha : s.Admits m.id
  · by_cases hroom : s.HasRoom
    · have hstale : ¬ (s.queued m).Admits m.id := fun h => Int.lt_irrefl _ h.2
      rw [enqueueLive_of_hasRoom ha hroom, enqueueLive_of_not_admits hstale]
    · have hadmits : s.turnedAway.Admits m.id := ha
      have hfull : ¬ s.turnedAway.HasRoom := hroom
      rw [enqueueLive_of_not_hasRoom ha hroom, enqueueLive_of_not_hasRoom hadmits hfull]
      simp [turnedAway]
  · rw [enqueueLive_of_not_admits ha, enqueueLive_of_not_admits ha]

end Subscriber

/-! ### What a tick has still to offer -/

namespace Tick

/-- The messages of events, in their order. -/
def messages (es : List Event) : List Message := es.filterMap Message.ofEvent?

theorem messages_ascending {es : List Event} (h : es.Pairwise (·.id < ·.id)) :
    (messages es).Pairwise (·.id < ·.id) := by
  refine h.filterMap _ fun d e hlt m hm n hn => ?_
  rw [Message.id_eq_of_ofEvent? hm, Message.id_eq_of_ofEvent? hn]
  exact hlt

/-- The messages for a connection, if it is one of these, subscribed and not replaying. -/
def offeredTo (connections : List ConnectionId) (c : ConnectionId) (s : Subscriber)
    (es : List Event) : List Message :=
  if c ∈ connections ∧ s.isLiveOn .systemEvents = true then messages es else []

/-- The events of an answer; a failure brings none. -/
def found : Answer → List Event
  | .ok events => events
  | .error _ => []

/-- What a tick at this stage will have offered to the connection by its end, if the query that it
may have before it is answered so. -/
def Stage.upcoming (registry : List ConnectionId) (a : Answer) (c : ConnectionId)
    (s : Subscriber) : Stage → List Message
  | answered b => offeredTo registry c s (Event.sortById (found b))
  | announcing batch => offeredTo registry c s batch
  | picking batch unseen live => if c ∈ live then messages batch else offeredTo unseen c s batch
  | broadcasting _ left live targets =>
    (if c ∈ targets then messages (left.take 1) else []) ++
      if c ∈ live then messages left.tail else []
  | ended _ => []
  | _ => offeredTo registry c s (Event.sortById (found a))

/-- When a tick comes to the next event, it has all of those left before it. -/
theorem messages_targets (left : List Event) (live : List ConnectionId) (c : ConnectionId) :
    ((if c ∈ targets left live then messages (left.take 1) else []) ++
      if c ∈ live then messages left.tail else []) = if c ∈ live then messages left else [] := by
  cases left with
  | nil => simp [messages]
  | cons e rest =>
      cases hm : Message.ofEvent? e with
      | none => simp [targets, messages, hm]
      | some m => by_cases hc : c ∈ live <;> simp [targets, messages, hm, hc]

theorem offeredTo_cons_of_live {c d : ConnectionId} {s : Subscriber}
    {unseen live : List ConnectionId} (hd : d = c → s.isLiveOn .systemEvents = true)
    (es : List Event) :
    (if c ∈ live ++ [d] then messages es else offeredTo unseen c s es) =
      if c ∈ live then messages es else offeredTo (d :: unseen) c s es := by
  by_cases hc : d = c
  · subst hc
    simp [offeredTo, hd rfl]
  · simp [offeredTo, Ne.symm hc]

theorem offeredTo_cons_of_not_live {c d : ConnectionId} {s : Subscriber}
    (hd : d = c → s.isLiveOn .systemEvents = false) (unseen : List ConnectionId) (es : List Event) :
    offeredTo (d :: unseen) c s es = offeredTo unseen c s es := by
  by_cases hc : d = c
  · simp [offeredTo, hd hc]
  · simp [offeredTo, Ne.symm hc]

/-- A step offers to a connection what it takes from what is upcoming. -/
theorem offered_upcoming_of_next {h : Hub} {stage stage' : Stage} {checkpoint : Checkpoint}
    {subscriber : ConnectionId → Subscriber} (hn : Next h stage stage' checkpoint subscriber)
    (a : Answer) (c : ConnectionId) :
    (subscriber c).offered (stage'.upcoming h.registry a c (subscriber c)) =
      (h.subscriber c).offered (stage.upcoming h.registry a c (h.subscriber c)) := by
  cases hn with
  | ask => rfl
  | fail => simp [Stage.upcoming, offeredTo, messages, found, Event.sortById]
  | idle => simp [Stage.upcoming, offeredTo, messages, found, Event.sortById]
  | sort => rfl
  | announce | announceNone => simp [Stage.upcoming]
  | pick hd =>
      rw [Stage.upcoming, Stage.upcoming, offeredTo_cons_of_live]
      rintro rfl
      exact hd
  | passOver hd =>
      rw [Stage.upcoming, Stage.upcoming, offeredTo_cons_of_not_live]
      rintro rfl
      exact hd
  | fanOut =>
      rw [Stage.upcoming, Stage.upcoming, messages_targets]
      simp [offeredTo]
  | @offer batch e rest live d targets m hm =>
      have hsingle : messages [e] = [m] := by simp [messages, hm]
      rw [← Message.id_eq_of_ofEvent? hm]
      by_cases hd : c = d
      · subst hd
        rw [update_self]
        -- A connection that is left among the targets is offered the event twice.
        by_cases hagain : c ∈ targets
        · simp [Stage.upcoming, hsingle, hagain, Subscriber.enqueueLive_twice]
        · simp [Stage.upcoming, hsingle, hagain]
      · rw [update_of_ne _ _ hd]
        simp [Stage.upcoming, hd]
  | @offerNone batch e rest live d targets hm =>
      have hnone : messages [e] = [] := by simp [messages, hm]
      simp [Stage.upcoming, hnone]
  | mark =>
      rw [Stage.upcoming, Stage.upcoming, messages_targets]
      simp
  | closeNone => simp [Stage.upcoming, messages]
  | close => simp [Stage.upcoming, messages]
  | overflow => simp [Stage.upcoming, messages]

end Tick

/-- A tick that is answered while it asks goes on with the answer, and else it stays. -/
theorem Hub.answer_tick {h : Hub} {k : TaskId} {stage : Tick.Stage} (ht : h.task k = .tick stage)
    (a : Answer) : (∃ after, stage = .asking after ∧ h.answer k a = h.setTick k (.answered a)) ∨
      h.answer k a = h := by
  cases stage with
  | asking after => exact .inl ⟨after, rfl, by simp only [answer, ht]⟩
  | _ => exact .inr (by simp only [answer, ht])

theorem Hub.canAdvance_tick {h : Hub} {k : TaskId} {stage : Tick.Stage}
    (ht : h.task k = .tick stage) (hask : ∀ after, stage ≠ .asking after)
    (hended : (h.task k).isEnded = false) : h.canAdvance k = true := by
  rw [ht] at hended
  cases stage with
  | asking after => exact absurd rfl (hask after)
  | ended outcome => cases hended
  | _ => simp only [canAdvance, ht]

namespace World

/-! ### A tick without interruption -/

/-- Only the task `k` goes on, and its query is answered so. -/
def Uninterrupted (k : TaskId) (a : Answer) (_ : World) : Move → Prop
  | .advance j => j = k
  | .answer j b => j = k ∧ b = a
  | _ => False

/-- The task is a tick with these events before it, and what is still to be offered to a connection
will leave its subscriber so. -/
structure Promises (registry : List ConnectionId) (k : TaskId) (a : Answer)
    (result : ConnectionId → Subscriber) (w : World) : Prop where
  registered : w.hub.registry = registry
  coming : ∃ stage, w.hub.task k = .tick stage ∧ ∀ c,
    (w.hub.subscriber c).offered (stage.upcoming registry a c (w.hub.subscriber c)) = result c

section Run

variable {k : TaskId} {a : Answer} {w : World} {m : Move} {registry : List ConnectionId}
  {result : ConnectionId → Subscriber}

theorem promises_step (h : w.Promises registry k a result) (hm : w.Uninterrupted k a m) :
    (w.apply m).Promises registry k a result := by
  obtain ⟨hregistry, stage, ht, hstage⟩ := h
  cases m with
  | advance j =>
      cases hm
      cases hcan : w.hub.canAdvance k with
      | false =>
          rw [apply_advance_of_not_canAdvance hcan]
          exact ⟨hregistry, stage, ht, hstage⟩
      | true =>
          obtain ⟨stage', checkpoint, subscriber, hn, heq⟩ := Hub.advance_tick ht hcan
          rw [apply, onHub, heq]
          refine ⟨hregistry, stage', update_self .., fun c => ?_⟩
          rw [← hstage c, ← hregistry]
          exact Tick.offered_upcoming_of_next hn a c
  | answer j b =>
      obtain ⟨rfl, rfl⟩ := hm
      rcases Hub.answer_tick ht b with ⟨after, rfl, heq⟩ | heq
      · rw [apply, onHub, heq]
        exact ⟨hregistry, .answered b, update_self .., hstage⟩
      · rw [apply, onHub, heq]
        exact ⟨hregistry, stage, ht, hstage⟩
  | _ => cases hm

theorem promises_of_run {v : World} {past : List (World × Move)}
    (h : v.Promises registry k a result) (run : Run (Uninterrupted k a) v past w) :
    w.Promises registry k a result := by
  induction run with
  | nil => exact h
  | cons _ hm ih => exact promises_step ih hm

/-- At the end nothing is upcoming. -/
theorem Promises.subscriber_eq (h : w.Promises registry k a result)
    (hended : (w.hub.task k).isEnded = true) (c : ConnectionId) :
    w.hub.subscriber c = result c := by
  obtain ⟨-, stage, ht, hstage⟩ := h
  rw [ht] at hended
  cases stage with
  | ended outcome => exact hstage c
  | _ => cases hended

theorem cost_found_lt (a : Answer) (after : Instant) (registered : Nat) :
    (Tick.Stage.answered a).cost (Tick.found a).length registered <
      (Tick.Stage.asking after).cost (Tick.found a).length registered := by
  cases a <;> simp only [Tick.Stage.cost, Tick.found] <;> omega

/-- The steps before a tick whose query brings these events. -/
def tickCost (k : TaskId) (a : Answer) (w : World) : Nat :=
  match w.hub.task k with
  | .tick stage => stage.cost (Tick.found a).length w.hub.registry.length
  | .replay _ => 0

theorem tickCost_eq {stage : Tick.Stage} (ht : w.hub.task k = .tick stage) (a : Answer) :
    w.tickCost k a = stage.cost (Tick.found a).length w.hub.registry.length := by
  simp only [tickCost, ht]

/-- Short of its end a tick has a step to make, and is a tick then with fewer before it. -/
theorem exists_uninterrupted {stage : Tick.Stage} (ht : w.hub.task k = .tick stage) (a : Answer)
    (hended : (w.hub.task k).isEnded = false) :
    ∃ m stage', w.Uninterrupted k a m ∧ (w.apply m).hub.task k = .tick stage' ∧
      (w.apply m).tickCost k a < w.tickCost k a := by
  by_cases hasking : ∃ after, stage = .asking after
  · obtain ⟨after, rfl⟩ := hasking
    have hstep : w.apply (.answer k a) = w.onHub (·.setTick k (.answered a)) := by
      simp only [apply, onHub, Hub.answer, ht]
    have ht' : (w.apply (.answer k a)).hub.task k = .tick (.answered a) := by
      rw [hstep]
      exact update_self ..
    refine ⟨.answer k a, _, ⟨rfl, rfl⟩, ht', ?_⟩
    rw [tickCost_eq ht, tickCost_eq ht', hstep]
    exact cost_found_lt a after _
  · have hcan := Hub.canAdvance_tick ht (fun after h => hasking ⟨after, h⟩) hended
    obtain ⟨stage', checkpoint, subscriber, hn, heq⟩ := Hub.advance_tick ht hcan
    have hstep : w.apply (.advance k) = w.onHub (·.Ticked k stage' checkpoint subscriber) :=
      congrArg (World.mk w.log) heq
    have ht' : (w.apply (.advance k)).hub.task k = .tick stage' := by
      rw [hstep]
      exact update_self ..
    refine ⟨.advance k, _, rfl, ht', ?_⟩
    rw [tickCost_eq ht, tickCost_eq ht', hstep]
    change stage'.cost _ w.hub.registry.length < _
    exact Tick.cost_lt_of_next _ hn

/-- With nothing between, a tick comes to its end. -/
theorem exists_uninterrupted_run {stage : Tick.Stage} (ht : w.hub.task k = .tick stage)
    (a : Answer) :
    ∃ past w', Run (Uninterrupted k a) w past w' ∧ (w'.hub.task k).isEnded = true := by
  have step : ∀ v : World, (∃ stage, v.hub.task k = .tick stage) →
      ¬ (v.hub.task k).isEnded = true → ∃ m, v.Uninterrupted k a m ∧
        (∃ stage, (v.apply m).hub.task k = .tick stage) ∧
        (v.apply m).tickCost k a < v.tickCost k a := by
    rintro v ⟨stage, ht⟩ hended
    obtain ⟨m, stage', hm, ht', hlt⟩ := exists_uninterrupted ht a (Bool.eq_false_iff.mpr hended)
    exact ⟨m, hm, ⟨stage', ht'⟩, hlt⟩
  obtain ⟨past, w', run, -, hended⟩ := exists_run_of_decreasing _ _ _ step ⟨stage, ht⟩
  exact ⟨past, w', run, hended⟩

end Run

/-! ### Shares -/

/-- The messages that are due to a connection of these events: those above its gate, in the order
of ids. -/
structure IsShare (es : List Event) (gate : Int) (due : List Message) : Prop where
  ascending : due.Pairwise (·.id < ·.id)
  mem_iff : ∀ m, m ∈ due ↔ gate < m.id ∧ ∃ e ∈ es, Message.ofEvent? e = some m

theorem isShare_filter {es : List Event} (h : es.Pairwise (·.id ≠ ·.id)) (gate : Int) :
    IsShare es gate ((Tick.messages (Event.sortById es)).filter (gate < ·.id)) where
  ascending := (Tick.messages_ascending (Event.sortById_ascending h)).sublist List.filter_sublist
  mem_iff m := by
    simp only [Tick.messages, List.mem_filter, List.mem_filterMap, Event.mem_sortById,
      decide_eq_true_eq]
    exact and_comm

/-- There is one share of the same events, in whatever order they come. -/
theorem IsShare.unique {es es' : List Event} {gate : Int} {due due' : List Message}
    (h : IsShare es gate due) (h' : IsShare es' gate due') (hperm : es'.Perm es) : due' = due := by
  have hnodup {l : List Message} (hl : l.Pairwise (·.id < ·.id)) : l.Nodup :=
    hl.imp fun {m n} hlt heq => Int.ne_of_lt hlt (congrArg Message.id heq)
  have hmem (m : Message) : m ∈ due' ↔ m ∈ due := by
    simp only [h.mem_iff, h'.mem_iff, hperm.mem_iff]
  exact ((List.perm_ext_iff_of_nodup (hnodup h'.ascending) (hnodup h.ascending)).mpr
    hmem).eq_of_pairwise (fun m n _ _ hlt hgt => absurd hgt (Int.lt_asymm hlt))
      h'.ascending h.ascending

/-- A tick serves this connection. -/
def Serves (v : World) (c : ConnectionId) : Prop :=
  c ∈ v.hub.registry ∧ (v.hub.subscriber c).isLiveOn .systemEvents = true

instance (v : World) (c : ConnectionId) : Decidable (v.Serves c) :=
  inferInstanceAs (Decidable (_ ∧ _))

/-- What is upcoming when a tick starts is the whole share, or nothing. -/
theorem promises_startTick (v : World) (a : Answer) :
    (v.apply .startTick).Promises v.hub.registry v.hub.started a fun c =>
      (v.hub.subscriber c).offered
        (Tick.offeredTo v.hub.registry c (v.hub.subscriber c) (Event.sortById (Tick.found a))) :=
  ⟨rfl, .starting, update_self .., fun _ => rfl⟩

/-- A tick with nothing between, which is told of these events, with its end. -/
def TicksTo (v : World) (a : Answer) (w : World) : Prop :=
  (∃ past, Run (Uninterrupted v.hub.started a) (v.apply .startTick) past w) ∧
    (w.hub.task v.hub.started).isEnded = true

theorem exists_ticksTo (v : World) (a : Answer) : ∃ w, v.TicksTo a w := by
  have ht : (v.apply .startTick).hub.task v.hub.started = .tick .starting := update_self ..
  obtain ⟨past, w, run, hended⟩ := exists_uninterrupted_run ht a
  exact ⟨w, ⟨past, run⟩, hended⟩

section TicksTo

variable {v w : World} {a : Answer} {c : ConnectionId}

theorem TicksTo.subscriber_eq (h : v.TicksTo a w) (c : ConnectionId) : w.hub.subscriber c =
    (v.hub.subscriber c).offered
      (Tick.offeredTo v.hub.registry c (v.hub.subscriber c) (Event.sortById (Tick.found a))) := by
  obtain ⟨⟨past, run⟩, hended⟩ := h
  exact (promises_of_run (promises_startTick v a) run).subscriber_eq hended c

theorem TicksTo.subscriber_of_serves (h : v.TicksTo a w)
    (hids : (Tick.found a).Pairwise (·.id ≠ ·.id)) (hc : v.Serves c) :
    ∃ due, IsShare (Tick.found a) (v.hub.subscriber c).lastEventId due ∧
      w.hub.subscriber c = (v.hub.subscriber c).served due := by
  have hreplaying : (v.hub.subscriber c).phase.isReplaying = false := by
    have hlive := hc.2
    simp only [Subscriber.isLiveOn, Bool.and_eq_true, Bool.not_eq_true'] at hlive
    exact hlive.2
  have hall : Tick.offeredTo v.hub.registry c (v.hub.subscriber c)
      (Event.sortById (Tick.found a)) = Tick.messages (Event.sortById (Tick.found a)) := if_pos hc
  refine ⟨_, isShare_filter hids _, ?_⟩
  rw [h.subscriber_eq c, hall, Subscriber.offered_eq_served hreplaying
    (Tick.messages_ascending (Event.sortById_ascending hids))]

theorem TicksTo.subscriber_of_not_serves (h : v.TicksTo a w) (hc : ¬ v.Serves c) :
    w.hub.subscriber c = v.hub.subscriber c := by
  have hnone : Tick.offeredTo v.hub.registry c (v.hub.subscriber c)
      (Event.sortById (Tick.found a)) = [] := if_neg hc
  rw [h.subscriber_eq c, hnone]
  rfl

end TicksTo

/-- A tick that nothing interrupts comes to its end. Then each connection that it serves has had its
share of the events, as far as there was room for it, and every other is as it was: the same for
connections that were alike, whatever registry and connections they were among and in whatever
order the events came. -/
theorem served_alone {v : World} {a : Answer} (hids : (Tick.found a).Pairwise (·.id ≠ ·.id)) :
    (∃ w, v.TicksTo a w) ∧ ∀ w, v.TicksTo a w → ∀ c,
      let s := v.hub.subscriber c
      (v.Serves c → ∃ due, IsShare (Tick.found a) s.lastEventId due ∧
        w.hub.subscriber c = s.served due) ∧
      (s.outbound.received ≤ s.outbound.accepted.length →
        s.room = if s.outbound.isOpen then s.outbound.capacity - s.outbound.pending.length
          else 0) ∧
      (¬ v.Serves c → w.hub.subscriber c = s) ∧
      ∀ (v' w' : World) (a' : Answer), (Tick.found a').Perm (Tick.found a) →
        v'.hub.subscriber c = s → (c ∈ v'.hub.registry ↔ c ∈ v.hub.registry) →
        v'.TicksTo a' w' → w'.hub.subscriber c = w.hub.subscriber c := by
  refine ⟨exists_ticksTo v a, fun w h c => ⟨fun hc => h.subscriber_of_serves hids hc,
    Subscriber.room_eq, fun hc => h.subscriber_of_not_serves hc,
    fun v' w' a' hperm hsame hregistered h' => ?_⟩⟩
  have hserves : v'.Serves c ↔ v.Serves c := by rw [Serves, Serves, hsame, hregistered]
  by_cases hc : v.Serves c
  · obtain ⟨due, hdue, heq⟩ := h.subscriber_of_serves hids hc
    have hids' : (Tick.found a').Pairwise (·.id ≠ ·.id) :=
      hids.perm hperm.symm fun hne => Ne.symm hne
    obtain ⟨due', hdue', heq'⟩ := h'.subscriber_of_serves hids' (hserves.mpr hc)
    rw [hsame] at hdue' heq'
    rw [heq, heq', hdue.unique hdue' hperm]
  · rw [h.subscriber_of_not_serves hc, h'.subscriber_of_not_serves (mt hserves.mp hc), hsame]

/-- A connection subscribes without history and goes live, as the task of that number. -/
def goLive (c : ConnectionId) (k : TaskId) : List Move :=
  .subscribe c ⟨.systemEvents, none⟩ :: List.replicate 5 (.advance k)

/-- Three connections are live, with a confirmation in the queue of each: the second has received
it, the third's receiver is gone. The fourth has not subscribed. -/
def crowded : List Move :=
  List.replicate 4 .connect ++ goLive 0 0 ++ goLive 1 1 ++ goLive 2 2 ++
    [.receive 1 none, .closeReceiver 2]

/-- Out of order, and the one in the middle makes no message. -/
def scrambled : List Event :=
  [(policyAt 5).event 5, { policyAt 4 with payload := "oops".toUTF8 }.event 4, (policyAt 3).event 3]

theorem served_alone_of_crowded :
    let v := (new 2 1 .epoch).applyAll crowded
    ∃ w, v.TicksTo (.ok scrambled) w ∧
      (w.hub.subscriber 0).messages.map (·.id) = [3] ∧ (w.hub.subscriber 0).cancelled = true ∧
      (w.hub.subscriber 1).messages.map (·.id) = [3, 5] ∧ (w.hub.subscriber 1).cancelled = false ∧
      (w.hub.subscriber 2).messages = [] ∧ (w.hub.subscriber 2).cancelled = false ∧
      w.hub.subscriber 3 = v.hub.subscriber 3 := by
  intro v
  have hids : (Tick.found (.ok scrambled)).Pairwise (·.id ≠ ·.id) := by decide +kernel
  obtain ⟨⟨w, hw⟩, hserved⟩ := served_alone (v := v) hids
  have hshare (gate : Int) := isShare_filter hids gate
  have hlive (c : ConnectionId) (hc : v.Serves c) : w.hub.subscriber c =
      (v.hub.subscriber c).served ((Tick.messages (Event.sortById scrambled)).filter
        ((v.hub.subscriber c).lastEventId < ·.id)) := by
    obtain ⟨due, hdue, heq⟩ := (hserved w hw c).1 hc
    rw [heq, (hshare _).unique hdue (.refl _)]
    rfl
  have hthird : w.hub.subscriber 3 = v.hub.subscriber 3 :=
    (hserved w hw 3).2.2.1 (by decide +kernel)
  refine ⟨w, hw, ?_, ?_, ?_, ?_, ?_, ?_, hthird⟩
  · rw [hlive 0 (by decide +kernel)]
    decide +kernel
  · rw [hlive 0 (by decide +kernel)]
    decide +kernel
  · rw [hlive 1 (by decide +kernel)]
    decide +kernel
  · rw [hlive 1 (by decide +kernel)]
    decide +kernel
  · rw [hlive 2 (by decide +kernel)]
    decide +kernel
  · rw [hlive 2 (by decide +kernel)]
    decide +kernel

end World

end EventStream
