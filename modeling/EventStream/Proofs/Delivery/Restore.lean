import EventStream.Proofs.Delivery.Offers
import EventStream.Proofs.Delivery.Single

/-! A live connection whose replays bring nothing, because they ask for no history or because
their history fails. They leave the connection live, but what ticks have kept from it in the
meantime is not made up for. -/

namespace EventStream

namespace Subscriber

theorem handOver_fresh_cases (s : Subscriber) (announced : Int) (f : Frame) :
    (s.handOver announced .fresh f).1 = ((s.skipPast announced).accept f).withPhase .live ∨
      Refuses (s.skipPast announced) (s.handOver announced .fresh f).1 :=
  handOver_unasked announced (by simp) f

theorem channels_handOver_fresh (s : Subscriber) (announced : Int) (f : Frame) :
    (s.handOver announced .fresh f).1.channels = s.channels := by
  rcases s.handOver_fresh_cases announced f with hp | ht
  · rw [hp]
    rfl
  · exact (alike_of_refuses ht).channels

theorem lastEventId_handOver_fresh (s : Subscriber) (announced : Int) (f : Frame) :
    (s.handOver announced .fresh f).1.lastEventId = max s.lastEventId announced := by
  rcases s.handOver_fresh_cases announced f with hp | ht
  · rw [hp]
    rfl
  · exact (alike_of_refuses ht).lastEventId

theorem messages_handOver_fresh (s : Subscriber) (announced : Int) {f : Frame}
    (hf : f.message? = none) : (s.handOver announced .fresh f).1.messages = s.messages := by
  rcases s.handOver_fresh_cases announced f with hp | ht
  · rw [hp]
    exact (alike_accept (s.skipPast announced) hf).messages
  · exact (alike_of_refuses ht).messages

end Subscriber

namespace Replay

/-- What a history query leaves to restore if it fails. -/
def Purpose.previous? : Purpose → Option Subscriber.Previous
  | history previous _ _ => some previous
  | gap .. => none

/-- The stages of a replay that has found its connection live and brings it no events. -/
def Stage.IsFutile (request : Subscription) : Stage → Prop
  | arriving => True
  | awaitingLock => True
  | awaitingPermit => True
  | admitted => True
  | opening previous _ => request.lastSeen.isSome = true ∧ previous = ⟨.live, true⟩
  | asking purpose => request.lastSeen.isSome = true ∧ purpose.previous? = some ⟨.live, true⟩
  | answered purpose (.error _) =>
    request.lastSeen.isSome = true ∧ purpose.previous? = some ⟨.live, true⟩
  | reporting previous => request.lastSeen.isSome = true ∧ previous = ⟨.live, true⟩
  | aborting previous => request.lastSeen.isSome = true ∧ previous = ⟨.live, true⟩
  | confirming mode => request.lastSeen = none ∧ mode = .fresh
  | ended => True
  | _ => False

section Next

variable {announced : Int} {request : Subscription} {stage stage' : Stage} {s t : Subscriber}

theorem isFutile_of_next (hn : Next announced request stage s stage' t)
    (h : stage.IsFutile request)
    (hs : stage = .admitted → s.previous request.channel = ⟨.live, true⟩) :
    stage'.IsFutile request := by
  cases hn with
  | begin hr => exact ⟨by rw [hr]; rfl, hs rfl⟩
  | beginFresh hr => exact ⟨hr, rfl⟩
  | ask => exact ⟨h.1, congrArg some h.2⟩
  | historyFailed => exact ⟨h.1, Option.some.inj h.2⟩
  | gapFailed => cases h.2
  | report => exact h
  | drop => trivial
  | arrive => trivial
  | lock => trivial
  | grant => trivial
  | confirm => trivial
  | abort => trivial
  | _ => exact h.elim

/-- A futile replay leaves its subscriber subscribed. -/
theorem isSubscribed_of_next (hn : Next announced request stage s stage' t)
    (h : stage.IsFutile request) (hs : s.isSubscribed .systemEvents = true) :
    t.isSubscribed .systemEvents = true := by
  have hinsert : (s.beginReplay request.channel).isSubscribed .systemEvents = true := by
    simp only [Subscriber.isSubscribed, Subscriber.beginReplay, List.contains_eq_mem,
      decide_eq_true_eq] at hs ⊢
    exact List.mem_insert_of_mem hs
  cases hn with
  | begin => exact hinsert
  | beginFresh => exact hinsert
  | report =>
      have ha := Subscriber.alike_push s (f := .historyFailed) rfl
      simpa only [Subscriber.isSubscribed, ha.channels] using hs
  | @abort _ previous =>
      have hkeep : previous.subscribed = true := by rw [h.2]
      simpa only [Subscriber.isSubscribed, Subscriber.abortReplay, hkeep, ite_true] using hs
  | confirm =>
      obtain ⟨-, rfl⟩ := h
      simpa only [Subscriber.isSubscribed, Subscriber.channels_handOver_fresh] using hs
  | drop => exact hs
  | arrive => exact hs
  | lock => exact hs
  | grant => exact hs
  | ask => exact hs
  | historyFailed => exact hs
  | gapFailed => exact hs
  | _ => exact h.elim

theorem phase_eq_of_next (hn : Next announced request stage s stage' t)
    (hb : stage.hasBegun = false) (hb' : stage'.hasBegun = false) : t.phase = s.phase := by
  cases hn with
  | drop => rfl
  | arrive => rfl
  | lock => rfl
  | grant => rfl
  | begin => cases hb'
  | beginFresh => cases hb'
  | _ => cases hb

/-- A futile replay that has begun leaves its subscriber live. -/
theorem live_of_next (hn : Next announced request stage s stage' t)
    (h : stage.IsFutile request) (hb : stage.hasBegun = true) (hb' : stage'.hasBegun = false)
    (hs : s.cancelled = false) (hopen : s.outbound.isOpen = true) (ht : t.cancelled = false) :
    t.phase = .live := by
  cases hn with
  | drop _ hc => rw [hs] at hc; cases hc
  | @abort _ previous =>
      have hlive : previous.phase = .live := by rw [h.2]
      simp [Subscriber.abortReplay, hlive, Phase.isReplaying]
  | confirm =>
      obtain ⟨-, rfl⟩ := h
      rcases s.handOver_fresh_cases announced (.subscriptionConfirmed request.channel) with
        hp | hr
      · rw [hp]
        rfl
      · exact absurd hr (not_refuses hopen ht)
  | arrive => cases hb
  | lock => cases hb
  | grant => cases hb
  | begin => cases hb'
  | beginFresh => cases hb'
  | ask => cases hb'
  | historyFailed => cases hb'
  | gapFailed => cases hb'
  | report => cases hb'
  | _ => exact h.elim

end Next

end Replay

namespace World

/-- What may happen while connection `c` is left to its ticks: the log has no history for it. -/
structure Fruitless (c : ConnectionId) (w : World) (m : Move) : Prop where
  possible : w.Possible m
  untargeted : m.target? ≠ some c
  failed : ∀ k ∈ m.answered?, (w.hub.task k).connection? = some c → m.isFailure = true

instance (c : ConnectionId) (w : World) (m : Move) : Decidable (w.Fruitless c m) :=
  decidable_of_iff (w.Possible m ∧ m.target? ≠ some c ∧
      ∀ k ∈ m.answered?, (w.hub.task k).connection? = some c → m.isFailure = true)
    ⟨fun ⟨hp, ht, hf⟩ => ⟨hp, ht, hf⟩, fun h => ⟨h.possible, h.untargeted, h.failed⟩⟩

/-- A connection that is live, or has a replay that will make it live again. -/
structure Restorable (c : ConnectionId) (w : World) : Prop where
  subscribed : (w.hub.subscriber c).isSubscribed .systemEvents = true
  live : (∀ k r, w.hub.task k = .replay r → r.connection = c → r.stage.hasBegun = false) →
    (w.hub.subscriber c).phase = .live
  futile : ∀ k r, w.hub.task k = .replay r → r.connection = c → r.stage.IsFutile r.request

section Step

variable {c : ConnectionId} {w w' : World} {m : Move}

/-- The replay that holds the lock and has not begun finds its connection live. -/
theorem Restorable.previous (h : w.Restorable c) (hl : w.Locked) {k : TaskId} {r : Replay}
    (hk : w.hub.task k = .replay r) (hr : r.connection = c) (hs : r.stage = .admitted) :
    (w.hub.subscriber c).previous r.request.channel = ⟨.live, true⟩ := by
  have hlive : (w.hub.subscriber c).phase = .live := by
    refine h.live fun j q hj hq => ?_
    cases hb : q.stage.hasBegun with
    | false => rfl
    | true =>
        obtain rfl := hl.unique hj hk (Replay.Stage.holdsLock_of_hasBegun hb) (by rw [hs]; rfl)
          (hq.trans hr.symm)
        rw [hk] at hj
        cases hj
        rw [hs] at hb
        cases hb
  have hchannel : r.request.channel = .systemEvents := by cases r.request.channel; rfl
  simp only [Subscriber.previous, hlive, hchannel, h.subscribed]

theorem Restorable.futile_step (h : w.Restorable c) (hl : w.Locked) (hm : w.Fruitless c m)
    (he : Effect w m w') {k : TaskId} {r : Replay} (hk : w'.hub.task k = .replay r)
    (hr : r.connection = c) : r.stage.IsFutile r.request := by
  have hc := he.came k
  rw [hk] at hc
  cases hc with
  | stays _ ht => exact h.futile k r ht hr
  | subscribes => trivial
  | @answersReplay q purpose a ht hs =>
      have hq := h.futile k q ht hr
      have hfail := hm.failed k rfl (by rw [ht]; exact congrArg some hr)
      rw [hs] at hq
      cases a with
      | ok events => cases hfail
      | error failure => exact hq
  | @movesReplay q stage s ht hn =>
      have hqc : q.connection = c := hr
      refine Replay.isFutile_of_next hn (h.futile k q ht hqc) fun hs => ?_
      have hprevious := h.previous hl ht hqc hs
      rwa [← hqc] at hprevious

theorem Restorable.subscribed_step (h : w.Restorable c) (he : Effect w m w') :
    (w'.hub.subscriber c).isSubscribed .systemEvents = true := by
  have hsub := h.subscribed
  cases he.touches c with
  | alike ha => simpa only [Subscriber.isSubscribed, ha.channels] using hsub
  | replay ht hc _ hn => exact Replay.isSubscribed_of_next hn (h.futile _ _ ht hc) hsub
  | tick _ _ _ ho => simpa only [Subscriber.isSubscribed, ho.phase.2] using hsub
  | offer _ _ ho => simpa only [Subscriber.isSubscribed, ho.phase.2] using hsub

theorem Restorable.live_step (h : w.Restorable c) (hw : w.hub.Tidy) (he : Effect w m w')
    (ha : (w.hub.subscriber c).outbound.isOpen = true ∧ (w.hub.subscriber c).cancelled = false)
    (ha' : (w'.hub.subscriber c).cancelled = false)
    (hnone : ∀ k r, w'.hub.task k = .replay r → r.connection = c → r.stage.hasBegun = false) :
    (w'.hub.subscriber c).phase = .live := by
  by_cases hbegun : ∃ k r, w.hub.task k = .replay r ∧ r.connection = c ∧ r.stage.hasBegun = true
  · obtain ⟨k, r, ht, hr, hb⟩ := hbegun
    have hc := he.came k
    generalize hk : w'.hub.task k = task at hc
    cases hc with
    | stays _ hstays =>
        rw [← hstays, ht] at hk
        rw [hnone k r hk hr] at hb
        cases hb
    | subscribes heq => exact absurd heq (Nat.ne_of_lt (hw.lt_started_of_replay ht))
    | startsTick heq => exact absurd heq (Nat.ne_of_lt (hw.lt_started_of_replay ht))
    | answersReplay hq => rw [ht] at hq; cases hq; cases hnone k _ hk hr
    | answersTick hq => rw [ht] at hq; cases hq
    | movesTick hq => rw [ht] at hq; cases hq
    | @movesReplay q stage s hq hn hm =>
        rw [ht] at hq
        cases hq
        subst hr
        rw [hm.subscriber, update_self] at ha' ⊢
        exact Replay.live_of_next hn (h.futile k r ht rfl) hb (hnone k _ hk rfl) ha.2 ha.1 ha'
  · have hidle : ∀ k r, w.hub.task k = .replay r → r.connection = c →
        r.stage.hasBegun = false := fun k r ht hr =>
      Bool.eq_false_iff.mpr fun hb => hbegun ⟨k, r, ht, hr, hb⟩
    have hlive := h.live hidle
    cases he.touches c with
    | alike ha => exact ha.phase.trans hlive
    | @replay k r stage ht hc hl hn ht' =>
        exact (Replay.phase_eq_of_next hn (hidle k r ht hc) (hnone k _ ht' hc)).trans hlive
    | tick _ _ _ ho => exact ho.phase.1.trans hlive
    | offer _ _ ho => exact ho.phase.1.trans hlive

theorem restorable_step (h : w.Restorable c) (hw : w.hub.Tidy) (hl : w.Locked)
    (hm : w.Fruitless c m)
    (ha : (w.hub.subscriber c).outbound.isOpen = true ∧ (w.hub.subscriber c).cancelled = false)
    (ha' : (w'.hub.subscriber c).cancelled = false) (he : Effect w m w') : w'.Restorable c where
  subscribed := h.subscribed_step he
  live := h.live_step hw he ha ha'
  futile := fun _ _ hk hr => h.futile_step hl hm he hk hr

end Step

/-- What a connection that is not refused a frame admits is queued. -/
theorem mem_of_offer {w : World} {j : TaskId} {c : ConnectionId} {m : Message}
    (ho : (w.hub.task j).offer? = some (c, m)) (ha : (w.hub.subscriber c).Admits m.id)
    (hopen : (w.hub.subscriber c).outbound.isOpen = true)
    (hcancel : ((w.apply (.advance j)).hub.subscriber c).cancelled = false) :
    m ∈ ((w.apply (.advance j)).hub.subscriber c).messages := by
  have hs := subscriber_of_offer ho
  rw [Subscriber.enqueueLive_of_admits ha] at hs
  by_cases hroom : (w.hub.subscriber c).HasRoom
  · rw [hs, Subscriber.pushEvent_of_hasRoom hroom, Subscriber.messages_queued]
    exact List.mem_append_right _ (List.mem_singleton_self _)
  · have hrefused := Subscriber.pushEvent_of_not_hasRoom hroom m.id (.event m)
    rw [← hs] at hrefused
    exact absurd hrefused (Replay.not_refuses hopen hcancel)

section Run

variable {capacity replays : Nat} {start : Instant} {before past : List (World × Move)}
  {w₀ w : World} {c : ConnectionId}

/-- Replays that are in line when the connection is live will find it live. -/
theorem restorable_of_live (hp : w₀.Withheld) (hlive : (w₀.hub.subscriber c).phase = .live)
    (hsub : (w₀.hub.subscriber c).isSubscribed .systemEvents = true) : w₀.Restorable c where
  subscribed := hsub
  live := fun _ => hlive
  futile := by
    intro k r hk hr
    have hb : r.stage.hasBegun = false := by
      refine Bool.eq_false_iff.mpr fun hb => ?_
      have hphase := hp k r hk hb
      rw [hr, hlive] at hphase
      cases hphase
    generalize r.stage = stage at hb
    cases stage with
    | arriving => trivial
    | awaitingLock => trivial
    | awaitingPermit => trivial
    | admitted => trivial
    | ended => trivial
    | _ => cases hb

theorem possible_of_fruitless (run : Run (Fruitless c) w₀ past w) : Run Possible w₀ past w :=
  run.mono fun _ _ h => h.possible

theorem restorable_of_run (reach : Run Possible (.new capacity replays start) before w₀)
    (hstart : w₀.Restorable c) (hopen : c < w₀.hub.opened) (run : Run (Fruitless c) w₀ past w)
    (hatt : ∀ v, Visited past w v → v.Attached c) : w.Restorable c := by
  induction run with
  | nil => exact hstart
  | @cons past w m run hm ih =>
      have hall := reach.append (possible_of_fruitless run)
      have hw := tidy_of_run hall
      have hlt := Nat.lt_of_lt_of_le hopen run.opened_le
      have ha := (hatt w (.cons (.inl rfl)) hlt).2
      have ha' := (hatt _ (.inl rfl) (Nat.lt_of_lt_of_le hlt (opened_le_apply w m))).2.1
      exact restorable_step (ih fun v hv => hatt v hv.cons) hw (locked_of_run hall) hm
        ⟨ha.2, ha.1⟩ ha' (effect hw hm.possible)

end Run

/-- A connection that has gone live without history. -/
def wentLive : List Move :=
  [Move.connect, .subscribe 0 ⟨.systemEvents, none⟩] ++ List.replicate 5 (Move.advance 0)

end World

end EventStream
