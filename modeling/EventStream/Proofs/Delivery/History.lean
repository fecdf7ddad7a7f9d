import EventStream.Proofs.Delivery.Accepted
import EventStream.Proofs.World.Cost
import EventStream.Proofs.World.Permits

/-! The history that a fresh connection is sent while no tick announces anything: all that the
log has after the cursor, once and in order, or that there is none to be had. -/

namespace EventStream

open Subscriber (Puts Refuses)

/-- What the log answers to a query. -/
def Log.reply (log : Log) (cursor : Instant) : Answer := (log.eventsAfter cursor).mapError .log

/-- The frames of the events that make a message. -/
def framesOf (events : List Event) : List Frame :=
  (events.filterMap Message.ofEvent?).map .event

/-- What is found has ids above 0, each greater than the one before. -/
def IsNumbered (found : Except LogError (List Event)) : Prop :=
  ∀ events, found = .ok events → events.Pairwise (·.id < ·.id) ∧ ∀ e ∈ events, 0 < e.id

/-- How the history ends that was `found` in the log: with all its frames and the confirmation, or
with the error. -/
inductive HistoryFrames (channel : Channel) :
    Except LogError (List Event) → List Frame → Prop where
  | confirmed (events : List Event) :
      HistoryFrames channel (.ok events) (framesOf events ++ [.subscriptionConfirmed channel])
  | failed (error : LogError) : HistoryFrames channel (.error error) [.historyFailed]

namespace Replay

section SoFar

variable (found : Except LogError (List Event)) (cursor : Instant) (announced : Int)

/-- What a replay of the history has sent when it stands at a stage, and how far the gate is. -/
def SoFar (request : Subscription) (s : Subscriber) : Stage → Prop
  | .arriving => s.outbound.accepted = [] ∧ s.lastEventId = 0
  | .awaitingLock => s.outbound.accepted = [] ∧ s.lastEventId = 0
  | .awaitingPermit => s.outbound.accepted = [] ∧ s.lastEventId = 0
  | .admitted => s.outbound.accepted = [] ∧ s.lastEventId = 0
  | .opening _ after => after = cursor ∧ s.outbound.accepted = [] ∧ s.lastEventId = 0
  | .asking purpose => (∃ previous, purpose = .history previous cursor announced) ∧
      s.outbound.accepted = [] ∧ s.lastEventId = 0
  | .answered purpose answer => (∃ previous, purpose = .history previous cursor announced) ∧
      answer = found.mapError .log ∧ s.outbound.accepted = [] ∧ s.lastEventId = 0
  | .delivering purpose left _ => (∃ previous, purpose = .history previous cursor announced) ∧
      (∃ done, found = .ok (done ++ left) ∧ s.outbound.accepted = framesOf done) ∧
      ∀ e ∈ left, s.lastEventId < e.id
  | .settling .. => (∃ events, found = .ok events ∧ s.outbound.accepted = framesOf events) ∧
      announced ≤ s.lastEventId
  | .reconciling .. => (∃ events, found = .ok events ∧ s.outbound.accepted = framesOf events) ∧
      announced ≤ s.lastEventId
  | .reporting _ => (∃ error, found = .error error) ∧ s.outbound.accepted = []
  | .aborting _ => (∃ error, found = .error error) ∧ s.outbound.accepted = [.historyFailed]
  | .ended => HistoryFrames request.channel found s.outbound.accepted
  | _ => False

end SoFar

section Next

variable {found : Except LogError (List Event)} {cursor : Instant} {announced : Int}
  {request : Subscription} {stage stage' : Stage} {s t : Subscriber}

theorem framesOf_append (done left : List Event) :
    framesOf (done ++ left) = framesOf done ++ framesOf left := by
  simp only [framesOf, List.filterMap_append, List.map_append]

theorem framesOf_concat (done : List Event) (e : Event) :
    framesOf (done ++ [e]) = framesOf done ++ ((Message.ofEvent? e).map Frame.event).toList := by
  rw [framesOf_append]
  cases hm : Message.ofEvent? e <;> simp [framesOf, hm]

theorem eq_ok_of_mapError {events : List Event}
    (h : .ok events = found.mapError QueryFailure.log) : found = .ok events := by
  cases found with
  | error => cases h
  | ok => cases h; rfl

theorem eq_error_of_mapError {failure : QueryFailure}
    (h : .error failure = found.mapError QueryFailure.log) : ∃ error, found = .error error := by
  cases found with
  | error error => exact ⟨error, rfl⟩
  | ok => cases h

/-- One step of a replay that is refused no frame. -/
theorem soFar_of_next (hn : Next announced request stage s stage' t)
    (hseen : request.lastSeen = some cursor)
    (hfound : IsNumbered found)
    (hu : stage.IsUnbroken) (hopen : s.outbound.isOpen = true) (hc : s.cancelled = false)
    (hc' : t.cancelled = false) (h : SoFar found cursor announced request s stage) :
    SoFar found cursor announced request t stage' := by
  have hrefuse : ¬ Refuses s t := not_refuses hopen hc'
  have hrest {done rest : List Event} {e : Event} (heq : found = .ok (done ++ e :: rest)) :
      ∀ d ∈ rest, e.id < d.id :=
    (List.pairwise_cons.mp (List.pairwise_append.mp (hfound _ heq).1).2.1).1
  cases hn with
  | drop _ hcancel => rw [hc] at hcancel; cases hcancel
  | arrive => exact h
  | lock => exact h
  | grant => exact h
  | begin hr =>
      rw [hseen] at hr
      cases hr
      exact ⟨rfl, h⟩
  | beginFresh hr => rw [hseen] at hr; cases hr
  | ask =>
      obtain ⟨rfl, h⟩ := h
      exact ⟨⟨_, rfl⟩, h⟩
  | take =>
      obtain ⟨⟨previous, rfl⟩, hanswer, hacc, hid⟩ := h
      have heq := eq_ok_of_mapError hanswer
      refine ⟨⟨previous, rfl⟩, ⟨[], heq, hacc⟩, ?_⟩
      rw [hid]
      exact (hfound _ heq).2
  | historyFailed => exact ⟨eq_error_of_mapError h.2.1, h.2.2.1⟩
  | gapFailed =>
      obtain ⟨⟨previous, hp⟩, -⟩ := h
      cases hp
  | @skip _ _ e rest _ hm =>
      obtain ⟨hp, ⟨done, heq, hacc⟩, hleft⟩ := h
      refine ⟨hp, ⟨done ++ [e], by simpa using heq, ?_⟩, fun d hd => ?_⟩
      · rw [framesOf_concat, hm, Option.map_none, Option.toList_none, List.append_nil]
        exact hacc
      · exact Int.max_lt.mpr ⟨hleft d (List.mem_cons_of_mem _ hd), hrest heq d hd⟩
  | stale hm hid =>
      exact absurd (h.2.2 _ List.mem_cons_self) (by omega)
  | @queue _ _ e rest _ m hm hid =>
      obtain ⟨hp, ⟨done, heq, hacc⟩, -⟩ := h
      refine ⟨hp, ⟨done ++ [e], by simpa using heq, ?_⟩, hrest heq⟩
      rw [framesOf_concat, hm, ← hacc]
      rfl
  | refuseHistory hr => exact absurd hr hrefuse
  | refuseGap hr => exact absurd hr hrefuse
  | closeHistory =>
      obtain ⟨⟨previous, hp⟩, ⟨done, heq, hacc⟩, -⟩ := h
      cases hp
      rw [List.append_nil] at heq
      exact ⟨⟨done, heq, hacc⟩, Int.le_max_right ..⟩
  | @breakHistory _ _ after _ newest hf =>
      have hsome : (floorBelow? newest after).isSome = true := floorBelow?_isSome hu.newest after
      rw [hf] at hsome
      cases hsome
  | settle => exact h
  | behind hlt => exact absurd h.2 (by omega)
  | goLive =>
      obtain ⟨⟨events, rfl, hacc⟩, -⟩ := h
      change HistoryFrames request.channel _ (s.outbound.accepted ++ [_])
      rw [hacc]
      exact .confirmed events
  | refuseLive _ hr => exact absurd hr hrefuse
  | report =>
      obtain ⟨herror, hacc⟩ := h
      rcases s.push_cases .historyFailed with hp | ⟨u, e, hp, hr⟩
      · refine ⟨herror, ?_⟩
        rw [hp]
        change s.outbound.accepted ++ [_] = _
        rw [hacc]
        rfl
      · rw [hp] at hrefuse
        exact absurd hr hrefuse
  | abort =>
      obtain ⟨⟨error, rfl⟩, hacc⟩ := h
      change HistoryFrames request.channel _ s.outbound.accepted
      rw [hacc]
      exact .failed error
  | lag => cases h
  | confirm => cases h
  | _ =>
      obtain ⟨⟨previous, hp⟩, -⟩ := h
      cases hp

/-- A replay that puts a frame to the queue has put fewer there than the queue can hold. -/
theorem SoFar.hasRoom (h : SoFar found cursor announced request s stage)
    (hopen : s.outbound.isOpen = true) (hpos : 0 < s.outbound.capacity)
    (hlarge : ∀ events, found = .ok events → (framesOf events).length < s.outbound.capacity)
    {announced' : Int} (hput : (stage.puts? announced' request.channel s).isSome = true) :
    s.HasRoom := by
  have hfits (hlt : s.outbound.accepted.length < s.outbound.capacity) : s.HasRoom := by
    refine ⟨hopen, Nat.lt_of_le_of_lt ?_ hlt⟩
    rw [Outbound.pending, List.length_drop]
    exact Nat.sub_le ..
  cases stage with
  | delivering purpose left newest =>
      obtain ⟨-, ⟨done, heq, hacc⟩, -⟩ := h
      refine hfits (Nat.lt_of_le_of_lt ?_ (hlarge _ heq))
      rw [hacc, framesOf_append, List.length_append]
      exact Nat.le_add_right ..
  | reconciling =>
      obtain ⟨⟨events, heq, hacc⟩, -⟩ := h
      exact hfits (hacc ▸ hlarge events heq)
  | reporting => exact hfits (by rwa [h.2])
  | confirming => exact h.elim
  | _ => cases hput

end Next

end Replay

/-! ### One connection and one replay -/

theorem Task.question?_of_asking {r : Replay} {purpose : Replay.Purpose}
    (h : r.stage = .asking purpose) : (Task.replay r).question? = some purpose.after := by
  obtain ⟨c, request, stage⟩ := r
  cases h
  rfl

namespace Subscriber

/-- Some frames have been received, and nothing else has changed. -/
def Drained (s t : Subscriber) : Prop :=
  ∃ n, t = { s with outbound := { s.outbound with received := n } }

theorem Drained.refl (s : Subscriber) : Drained s s := ⟨s.outbound.received, rfl⟩

/-- A frame that finds room leaves the queue as open and as large as it was. -/
theorem Puts.queue {s t : Subscriber} {put : Option Frame} (h : Puts s put t)
    (hroom : put.isSome = true → s.HasRoom) :
    t.outbound.isOpen = s.outbound.isOpen ∧ t.outbound.capacity = s.outbound.capacity := by
  cases put with
  | none => rw [h.outbound]; exact ⟨rfl, rfl⟩
  | some f =>
      rw [h.outbound, Option.elim_some, push_of_hasRoom (hroom rfl)]
      exact ⟨rfl, rfl⟩

end Subscriber

open Subscriber (Drained)

namespace World

/-- The move leaves the log and what has been announced as they are, and nobody else sends to
connection `c` or takes it down; replay `k` has its query answered by the log. -/
def LeavesBe (c : ConnectionId) (k : TaskId) (w : World) : Move → Prop
  | .append _ => False
  | .insertRow .. => False
  | .deleteRow _ => False
  | .shutdown => False
  | .startTick => False
  | .resetCursor _ => False
  | .advanceCursor _ => False
  | .announce _ => False
  | .markBroadcast _ => False
  | .disconnect d => d ≠ c
  | .subscribe d _ => d ≠ c
  | .closeReceiver d => d ≠ c
  | .send d _ => d ≠ c
  | .offerLive d .. => d ≠ c
  | .advance j => (w.hub.task j).isTick = false
  | .answer j a => j = k → ∀ cursor ∈ (w.hub.task k).question?, a = w.log.reply cursor
  | _ => True

/-- A move while no tick is at work and connection `c` has nothing but replay `k`, whose frames
all find room. -/
structure Calm (c : ConnectionId) (k : TaskId) (w : World) (m : Move) : Prop where
  possible : w.Possible m
  accepts : w.Accepts c m
  leavesBe : w.LeavesBe c k m

/-- What a calm move is to the replay. -/
inductive Turned (r : Replay) (k : TaskId) (w w' : World) : Prop where
  | aside (hs : Drained (w.hub.subscriber r.connection) (w'.hub.subscriber r.connection))
      (ht : w'.hub.task k = .replay r)
  | answer {purpose} (hask : r.stage = .asking purpose)
      (hs : w'.hub.subscriber r.connection = w.hub.subscriber r.connection)
      (ht : w'.hub.task k =
        .replay { r with stage := .answered purpose (w.log.reply purpose.after) })
  | act {stage put} (hn : Replay.Next w.hub.checkpoint.announced r.request r.stage
        (w.hub.subscriber r.connection) stage (w'.hub.subscriber r.connection))
      (hput : Puts (w.hub.subscriber r.connection) put (w'.hub.subscriber r.connection))
      (hroom : put.isSome = true → (w.hub.subscriber r.connection).HasRoom)
      (ht : w'.hub.task k = .replay { r with stage })

section Calm

variable {c : ConnectionId} {k : TaskId} {w : World} {m : Move} {r : Replay}

theorem turned_of_same {w' : World} (hk : w.hub.task k = .replay r)
    (hs : w'.hub.subscriber r.connection = w.hub.subscriber r.connection)
    (ht : w'.hub.task k = w.hub.task k) : Turned r k w w' :=
  .aside (hs ▸ .refl _) (ht.trans hk)

theorem turned_advance {j : TaskId} (hk : w.hub.task k = .replay r)
    (hone : ∀ j q, w.hub.task j = .replay q → q.connection = r.connection → j = k)
    (hm : w.Calm r.connection k (.advance j)) : Turned r k w (w.apply (.advance j)) := by
  cases hcan : w.hub.canAdvance j with
  | false =>
      rw [apply_advance_of_not_canAdvance hcan]
      exact turned_of_same hk rfl rfl
  | true =>
      cases ht : w.hub.task j with
      | tick stage =>
          have hnot := hm.leavesBe
          simp [LeavesBe, ht, Task.isTick] at hnot
      | replay q =>
          by_cases hjk : j = k
          · subst hjk
            cases ht.symm.trans hk
            obtain ⟨stage, hn, htask, -⟩ := next_of_canAdvance hk hcan
            exact .act hn (w.hub.puts_advance j r.connection) (hm.accepts j rfl) htask
          · have hc : q.connection ≠ r.connection := fun hc => hjk (hone j q ht hc)
            obtain ⟨stage, s, -, hmoved, -⟩ := Hub.advance_replay ht hcan
            refine turned_of_same hk ?_ ?_
            · change (w.hub.advance j).subscriber r.connection = _
              rw [hmoved.subscriber, update_of_ne _ _ (Ne.symm hc)]
            · change (w.hub.advance j).task k = _
              rw [hmoved.task, update_of_ne _ _ (Ne.symm hjk)]

theorem turned_answer {j : TaskId} {a : Answer} (hw : w.hub.Tidy) (hk : w.hub.task k = .replay r)
    (hm : w.Calm r.connection k (.answer j a)) : Turned r k w (w.apply (.answer j a)) := by
  have hs : (w.apply (.answer j a)).hub.subscriber r.connection = w.hub.subscriber r.connection :=
    congrFun (w.hub.answer_subscriber j a) r.connection
  rcases (effect_answer hm.possible).replay_next hw hk with ht | ⟨purpose, b, hm', hask, ht⟩ |
    ⟨_, _, hm', -⟩
  · exact .aside (hs ▸ .refl _) ht
  · cases hm'
    have hq : (w.hub.task k).question? = some purpose.after := by
      rw [hk]
      exact Task.question?_of_asking hask
    have ha : a = w.log.reply purpose.after := hm.leavesBe rfl purpose.after hq
    exact .answer hask hs (ha ▸ ht)
  · cases hm'

theorem turned_of_calm (hw : w.hub.Tidy) (hk : w.hub.task k = .replay r)
    (hone : ∀ j q, w.hub.task j = .replay q → q.connection = r.connection → j = k)
    (hm : w.Calm r.connection k m) : Turned r k w (w.apply m) := by
  have hother {d : ConnectionId} (hd : d ≠ r.connection) (s : Subscriber) :
      update w.hub.subscriber d s r.connection = w.hub.subscriber r.connection :=
    update_of_ne _ _ (Ne.symm hd)
  have hlt := hw.replays k r hk
  have hleaves := hm.leavesBe
  cases m with
  | append | insertRow | deleteRow | shutdown | startTick | resetCursor | advanceCursor | announce
    | markBroadcast => exact hleaves.elim
  | connect => exact turned_of_same hk (hother (Nat.ne_of_gt hlt) _) rfl
  | register => exact turned_of_same hk rfl rfl
  | deregister => exact turned_of_same hk rfl rfl
  | disconnect d => exact turned_of_same hk (hother hleaves _) rfl
  | subscribe d request =>
      have hne : k ≠ w.hub.started := Nat.ne_of_lt (hw.lt_started_of_replay hk)
      exact turned_of_same hk rfl (update_of_ne _ _ hne)
  | advance j => exact turned_advance hk hone hm
  | toss => exact turned_of_same hk rfl rfl
  | answer j a => exact turned_answer hw hk hm
  | receive d limit =>
      by_cases hd : d = r.connection
      · subst hd
        refine .aside ⟨_, update_self ..⟩ hk
      · exact turned_of_same hk (hother hd _) rfl
  | closeReceiver d => exact turned_of_same hk (hother hleaves _) rfl
  | send d f => exact turned_of_same hk (hother hleaves _) rfl
  | offerLive d id f => exact turned_of_same hk (hother hleaves _) rfl

theorem checkpoint_of_calm (hm : w.Calm c k m) :
    (w.apply m).log = w.log ∧ (w.apply m).hub.checkpoint = w.hub.checkpoint := by
  have hleaves := hm.leavesBe
  cases m with
  | append | insertRow | deleteRow | shutdown | startTick | resetCursor | advanceCursor | announce
    | markBroadcast => exact hleaves.elim
  | advance j =>
      refine ⟨rfl, ?_⟩
      cases hcan : w.hub.canAdvance j with
      | false => rw [apply_advance_of_not_canAdvance hcan]
      | true =>
          cases ht : w.hub.task j with
          | tick stage => simp [LeavesBe, ht, Task.isTick] at hleaves
          | replay q =>
              obtain ⟨-, -, -, hcheckpoint⟩ := next_of_canAdvance ht hcan
              exact hcheckpoint
  | answer j a =>
      refine ⟨rfl, ?_⟩
      simp only [apply, onHub, Hub.answer]
      repeat' split
      all_goals rfl
  | _ => exact ⟨rfl, rfl⟩

end Calm

/-! ### A calm run -/

/-- Since the world `u` connection `c` has had nothing but replay `k`, which has sent what was in
the log then as far as it has got. -/
structure Lone (c : ConnectionId) (k : TaskId) (request : Subscription) (cursor : Instant)
    (u w : World) : Prop where
  log : w.log = u.log
  announced : w.hub.checkpoint.announced = u.hub.checkpoint.announced
  one : ∀ j q, w.hub.task j = .replay q → q.connection = c → j = k
  uncancelled : (w.hub.subscriber c).cancelled = false
  isOpen : (w.hub.subscriber c).outbound.isOpen = true
  capacity : (w.hub.subscriber c).outbound.capacity = (u.hub.subscriber c).outbound.capacity
  stage : ∃ stage, w.hub.task k = .replay ⟨c, request, stage⟩ ∧
    Replay.SoFar (u.log.eventsAfter cursor) cursor u.hub.checkpoint.announced request
      (w.hub.subscriber c) stage

section Lone

variable {c : ConnectionId} {k : TaskId} {request : Subscription} {cursor : Instant}
  {u w : World} {m : Move}

theorem Lone.one_step (h : Lone c k request cursor u w) (hw : w.hub.Tidy) (hm : w.Calm c k m)
    {j : TaskId} {q : Replay} (hj : (w.apply m).hub.task j = .replay q) (hq : q.connection = c) :
    j = k := by
  rcases (effect hw hm.possible).replay_cases hj with ⟨r, hr, hconn, -⟩ | ⟨-, d, req, rfl, rfl⟩
  · exact h.one j r hr (hconn.symm.trans hq)
  · exact absurd hq hm.leavesBe

theorem Lone.step (h : Lone c k request cursor u w) (hw : w.hub.Tidy) (hu : w.Unbroken)
    (hseen : request.lastSeen = some cursor)
    (hfound : IsNumbered (u.log.eventsAfter cursor))
    (hm : w.Calm c k m) : Lone c k request cursor u (w.apply m) := by
  obtain ⟨stage, hk, hsofar⟩ := h.stage
  obtain ⟨hlog, hcheckpoint⟩ := checkpoint_of_calm hm
  have hturned : Turned ⟨c, request, stage⟩ k w (w.apply m) := turned_of_calm hw hk h.one hm
  have hlone (huncancelled : ((w.apply m).hub.subscriber c).cancelled = false)
      (hopen : ((w.apply m).hub.subscriber c).outbound.isOpen = true)
      (hcapacity : ((w.apply m).hub.subscriber c).outbound.capacity =
        (u.hub.subscriber c).outbound.capacity)
      (hstage : ∃ stage, (w.apply m).hub.task k = .replay ⟨c, request, stage⟩ ∧
        Replay.SoFar (u.log.eventsAfter cursor) cursor u.hub.checkpoint.announced request
          ((w.apply m).hub.subscriber c) stage) : Lone c k request cursor u (w.apply m) :=
    ⟨hlog.trans h.log, (congrArg Checkpoint.announced hcheckpoint).trans h.announced,
      fun _ _ hj hq => h.one_step hw hm hj hq, huncancelled, hopen, hcapacity, hstage⟩
  cases hturned with
  | aside hs ht =>
      obtain ⟨n, hs⟩ := hs
      rw [hs] at hlone
      refine hlone h.uncancelled h.isOpen h.capacity ⟨stage, ht, ?_⟩
      cases stage <;> exact hsofar
  | @answer purpose hask hs ht =>
      cases hask
      rw [hs] at hlone
      refine hlone h.uncancelled h.isOpen h.capacity ⟨_, ht, ?_⟩
      obtain ⟨⟨previous, rfl⟩, hsofar⟩ := hsofar
      exact ⟨⟨previous, rfl⟩, by rw [← h.log]; rfl, hsofar⟩
  | @act stage' put hn hput hroom ht =>
      have hkept := hput.not_cancelled h.uncancelled hroom
      obtain ⟨hopen, hcapacity⟩ := hput.queue hroom
      refine hlone hkept (hopen.trans h.isOpen) (hcapacity.trans h.capacity) ⟨stage', ht, ?_⟩
      rw [← h.announced] at hsofar ⊢
      exact Replay.soFar_of_next hn hseen hfound (hu k _ hk) h.isOpen h.uncancelled hkept hsofar

/-- What holds of a world and stays so in a calm run. -/
structure Alone (c : ConnectionId) (k : TaskId) (request : Subscription) (cursor : Instant)
    (u w : World) : Prop where
  tidy : w.hub.Tidy
  unbroken : w.Unbroken
  lone : Lone c k request cursor u w

theorem Alone.step (h : Alone c k request cursor u w) (hseen : request.lastSeen = some cursor)
    (hfound : IsNumbered (u.log.eventsAfter cursor))
    (hm : w.Calm c k m) : Alone c k request cursor u (w.apply m) where
  tidy := tidy_apply h.tidy hm.possible
  unbroken := unbroken_step h.unbroken (effect h.tidy hm.possible)
  lone := h.lone.step h.tidy h.unbroken hseen hfound hm

theorem Alone.of_run {past : List (World × Move)} (h : Alone c k request cursor u u)
    (hseen : request.lastSeen = some cursor)
    (hfound : IsNumbered (u.log.eventsAfter cursor))
    (run : Run (Calm c k) u past w) : Alone c k request cursor u w := by
  induction run with
  | nil => exact h
  | cons _ hm ih => exact ih.step hseen hfound hm

/-- A replay that has ended has sent its history, or that there is none to be had. -/
theorem Alone.historyFrames (h : Alone c k request cursor u w)
    (hended : (w.hub.task k).isEnded = true) :
    HistoryFrames request.channel (u.log.eventsAfter cursor)
      (w.hub.subscriber c).outbound.accepted := by
  obtain ⟨stage, hk, hsofar⟩ := h.lone.stage
  rw [hk] at hended
  cases stage with
  | ended => exact hsofar
  | _ => cases hended

end Lone

/-! ### The way to the end -/

/-- A permit is free for the replay or in its hands, and nobody else is in line for one. -/
structure Spare (total : Nat) (k : TaskId) (w : World) : Prop where
  holders : (w.hub.permitHolders.filter (· ≠ k)).length < total
  awaits : ∀ j, (w.hub.task j).awaitsPermit = true → j = k

section Way

variable {c : ConnectionId} {k : TaskId} {request : Subscription} {cursor : Instant}
  {u w : World} {m : Move} {total : Nat}

theorem Spare.step (h : w.Spare total k) (hw : w.hub.Tidy) (hm : w.Steps k m) :
    (w.apply m).Spare total k where
  holders := by
    have hsame : (w.apply m).hub.permitHolders.filter (· ≠ k) =
        w.hub.permitHolders.filter (· ≠ k) := by
      simp only [Hub.permitHolders, List.filter_filter, hm.keeps.started]
      refine List.filter_congr fun j _ => ?_
      by_cases hj : j = k
      · simp [hj]
      · rw [hm.task_eq hw hj]
    rw [hsame]
    exact h.holders
  awaits := by
    intro j hj
    by_cases hjk : j = k
    · exact hjk
    · rw [hm.task_eq hw hjk] at hj
      exact h.awaits j hj

theorem mayAnswer_reply (log : Log) (cursor : Instant) :
    MayAnswer (log.eventsAfter cursor) (log.reply cursor) := by
  rw [Log.reply]
  cases log.eventsAfter cursor with
  | error => trivial
  | ok events => exact List.Perm.refl events

theorem head?_eq_of_forall {l : List TaskId} (hk : k ∈ l) (h : ∀ j ∈ l, j = k) :
    l.head? = some k := by
  cases l with
  | nil => cases hk
  | cons j l => rw [List.head?_cons, h j List.mem_cons_self]

theorem Spare.permits_pos (h : w.Spare total k) (ha : w.hub.Accounted total)
    (hk : (w.hub.task k).holdsPermit = false) : 0 < w.hub.permits := by
  have hfilter : w.hub.permitHolders.filter (· ≠ k) = w.hub.permitHolders := by
    refine List.filter_eq_self.mpr fun j hj => decide_eq_true ?_
    rintro rfl
    rw [Hub.permitHolders, List.mem_filter, hk] at hj
    cases hj.2
  have hlt := h.holders
  have htotal := ha.permits
  rw [hfilter] at hlt
  omega

theorem Lone.canAdvance (h : Lone c k request cursor u w) (ha : w.hub.Accounted total)
    (hs : w.Spare total k) {stage : Replay.Stage} (hk : w.hub.task k = .replay ⟨c, request, stage⟩)
    (hask : ∀ purpose, stage ≠ .asking purpose) (hended : stage ≠ .ended) :
    w.hub.canAdvance k = true := by
  cases stage with
  | awaitingLock =>
      have hline : (w.hub.lockLine c).head? = some k := by
        refine head?_eq_of_forall ((ha.lockLine c k).mpr ?_) fun j hj => ?_
        · simp [hk, Task.isInLine, Replay.Stage.isInLine]
        · obtain ⟨q, hq, hc, -⟩ := Task.of_isInLine ((ha.lockLine c j).mp hj)
          exact h.one j q hq hc
      exact Hub.canAdvance_of_isServed hk (by simp [Hub.isServed, hline])
  | awaitingPermit =>
      have hline : w.hub.permitLine.head? = some k := by
        refine head?_eq_of_forall ((ha.permitLine k).mpr ?_) fun j hj => ?_
        · rw [hk]
          rfl
        · exact hs.awaits j ((ha.permitLine j).mp hj)
      have hpos := hs.permits_pos ha (by rw [hk]; rfl)
      exact Hub.canAdvance_of_isServed hk (by simp [Hub.isServed, hline, hpos])
  | asking purpose => exact absurd rfl (hask purpose)
  | ended => exact absurd rfl hended
  | arriving => simp [Hub.canAdvance, hk]
  | _ => exact Hub.canAdvance_of_isServed hk rfl

/-- A replay short of its end can go on, and finds room if the queue is large enough. -/
theorem Alone.exists_step (h : Alone c k request cursor u w) (ha : w.hub.Accounted total)
    (hs : w.Spare total k) (hpos : 0 < (u.hub.subscriber c).outbound.capacity)
    (hlarge : ∀ events, u.log.eventsAfter cursor = .ok events →
      (framesOf events).length < (u.hub.subscriber c).outbound.capacity)
    (hended : (w.hub.task k).isEnded = false) : ∃ m, w.Steps k m ∧ w.Calm c k m := by
  obtain ⟨stage, hk, hsofar⟩ := h.lone.stage
  by_cases hask : ∃ purpose, stage = .asking purpose
  · obtain ⟨purpose, rfl⟩ := hask
    have hq : (w.hub.task k).question? = some purpose.after := by
      rw [hk]
      rfl
    have hanswers : w.Answers k (w.log.reply purpose.after) :=
      ⟨purpose.after, hq, mayAnswer_reply w.log purpose.after⟩
    refine ⟨.answer k (w.log.reply purpose.after), .answer hanswers, hanswers, nofun, ?_⟩
    intro _ after hafter
    cases hq.symm.trans hafter
    rfl
  · have hne : stage ≠ .ended := by
      rintro rfl
      rw [hk] at hended
      cases hended
    have hcan := h.lone.canAdvance ha hs hk (fun purpose heq => hask ⟨purpose, heq⟩) hne
    refine ⟨.advance k, .advance hcan, trivial, fun j hj hput => ?_, ?_⟩
    · cases hj
      simp only [Hub.puts?, hk, ite_true] at hput
      rw [← h.lone.capacity] at hpos hlarge
      exact hsofar.hasRoom h.lone.isOpen hpos hlarge hput
    · simp [LeavesBe, hk, Task.isTick]

/-- So it comes to its end. -/
theorem Alone.exists_run (h : Alone c k request cursor u w) (ha : w.hub.Accounted total)
    (hs : w.Spare total k) (hseen : request.lastSeen = some cursor)
    (hfound : IsNumbered (u.log.eventsAfter cursor))
    (hpos : 0 < (u.hub.subscriber c).outbound.capacity)
    (hlarge : ∀ events, u.log.eventsAfter cursor = .ok events →
      (framesOf events).length < (u.hub.subscriber c).outbound.capacity) :
    ∃ past w', Run (Calm c k) w past w' ∧ (w'.hub.task k).isEnded = true := by
  obtain ⟨past, w', run, -, hdone⟩ := exists_run_of_decreasing
    (fun v => Alone c k request cursor u v ∧ v.hub.Accounted total ∧ v.Spare total k)
    (fun v => (v.hub.task k).isEnded = true) (taskCost · k) (fun v ⟨hv, hav, hsv⟩ hended => by
      obtain ⟨m, hstep, hcalm⟩ :=
        hv.exists_step hav hsv hpos hlarge (Bool.eq_false_iff.mpr hended)
      exact ⟨m, hcalm, ⟨hv.step hseen hfound hcalm, accounted_apply hv.tidy hav,
        hsv.step hv.tidy hstep⟩, hstep.taskCost_lt⟩) ⟨h, ha, hs⟩
  exact ⟨past, w', run, hdone⟩

end Way

end World

end EventStream
