import EventStream.Proofs.Delivery.Accepted

/-! The phases of a connection. A replay that has begun keeps it replaying, and at its end leaves
it live and subscribed, or as it was before. -/

namespace EventStream

namespace Subscriber

/-- Neither live nor subscribed, or both. -/
def IsSettled (s : Subscriber) : Prop :=
  s.phase = .idle ∧ s.channels = [] ∨ s.phase = .live ∧ s.channels = [.systemEvents]

/-- What a settled subscriber has been saved as. -/
def Previous.IsSettled (p : Previous) : Prop := p = ⟨.idle, false⟩ ∨ p = ⟨.live, true⟩

theorem IsSettled.previous {s : Subscriber} (h : s.IsSettled) (channel : Channel) :
    (s.previous channel).IsSettled := by
  cases channel
  rcases h with ⟨hp, hc⟩ | ⟨hp, hc⟩
  · exact .inl (by simp [Subscriber.previous, isSubscribed, hp, hc])
  · exact .inr (by simp [Subscriber.previous, isSubscribed, hp, hc])

theorem IsSettled.channels_beginReplay {s : Subscriber} (h : s.IsSettled) (channel : Channel) :
    (s.beginReplay channel).channels = [.systemEvents] := by
  cases channel
  rcases h with ⟨-, hc⟩ | ⟨-, hc⟩
  · simp [beginReplay, hc]
  · simp [beginReplay, hc]

theorem isSettled_abortReplay {s : Subscriber} (hs : s.channels = [.systemEvents])
    (channel : Channel) {p : Previous} (hp : p.IsSettled) :
    (s.abortReplay channel p).IsSettled := by
  cases channel
  rcases hp with rfl | rfl
  · exact .inl (by simp [abortReplay, hs, Phase.isReplaying])
  · exact .inr (by simp [abortReplay, hs, Phase.isReplaying])

end Subscriber

namespace Replay

theorem Stage.hasBegun_eq (stage : Stage) : stage.hasBegun =
    match stage.progress with
    | .waiting => false
    | .underway => true
    | .told => true
    | .over => false := by
  cases stage <;> rfl

theorem Stage.hasBegun_of_isDelivering {stage : Stage} (h : stage.isDelivering = true) :
    stage.hasBegun = true := by
  cases stage <;> first | rfl | cases h

section Act

open Subscriber

variable {request : Subscription} {put : Option Frame} {stage stage' : Stage} {s t : Subscriber}

/-- Only a replay that holds the lock does anything to its subscriber, and if that was settled
but while the replay was under way, it is so again. -/
theorem settled_of_act (ha : Act request put stage s stage' t)
    (hsaved : ∀ p ∈ stage.previous?, p.IsSettled)
    (hbegun : stage.hasBegun = true → s.channels = [.systemEvents])
    (hsettled : stage.holdsLock = true → stage.hasBegun = false → s.IsSettled) :
    (∀ p ∈ stage'.previous?, p.IsSettled) ∧
      (t = s ∧ stage'.hasBegun = stage.hasBegun ∨
        stage.holdsLock = true ∧ (stage'.hasBegun = true → t.channels = [.systemEvents]) ∧
          (stage'.hasBegun = false → t.IsSettled)) := by
  have hgoOn (hb : stage.hasBegun = true) (hb' : stage'.hasBegun = true)
      (hc : t.channels = s.channels) :
      stage.holdsLock = true ∧ (stage'.hasBegun = true → t.channels = [.systemEvents]) ∧
        (stage'.hasBegun = false → t.IsSettled) :=
    ⟨Stage.holdsLock_of_hasBegun hb, fun _ => hc.trans (hbegun hb), fun hnot => by
      rw [hb'] at hnot
      cases hnot⟩
  cases ha with
  | arrive => exact ⟨fun p hmem => (nomatch hmem), .inl ⟨rfl, rfl⟩⟩
  | lock => exact ⟨fun p hmem => (nomatch hmem), .inl ⟨rfl, rfl⟩⟩
  | grant => exact ⟨fun p hmem => (nomatch hmem), .inl ⟨rfl, rfl⟩⟩
  | begin hb _ hp =>
      have hs := hsettled rfl rfl
      refine ⟨fun p hmem => hp p hmem ▸ hs.previous _, .inr ⟨rfl, fun _ => ?_, fun hnot => ?_⟩⟩
      · exact hs.channels_beginReplay _
      · simp [Stage.hasBegun_eq, hb] at hnot
  | goOn hb hb' _ hc hp =>
      refine ⟨fun p hmem => hsaved p (hp p hmem), .inr (hgoOn ?_ ?_ hc)⟩
      · simp [Stage.hasBegun_eq, hb]
      · simp [Stage.hasBegun_eq, hb']
  | event hd hd' hc hp =>
      exact ⟨fun p hmem => hsaved p (hp p hmem), .inr
        (hgoOn (Stage.hasBegun_of_isDelivering hd) (Stage.hasBegun_of_isDelivering hd') hc)⟩
  | confirm hb _ hc hl =>
      have hb : stage.hasBegun = true := by simp [Stage.hasBegun_eq, hb]
      refine ⟨fun p hmem => (nomatch hmem), .inr ⟨Stage.holdsLock_of_hasBegun hb, ?_, fun _ => ?_⟩⟩
      · exact fun hnot => nomatch hnot
      · exact .inr ⟨hl, hc.trans (hbegun hb)⟩
  | report halike => exact ⟨hsaved, .inr (hgoOn rfl rfl halike.channels)⟩
  | @abort previous =>
      refine ⟨fun p hmem => (nomatch hmem), .inr ⟨rfl, fun hnot => (nomatch hnot), fun _ => ?_⟩⟩
      exact isSettled_abortReplay (hbegun rfl) _ (hsaved _ rfl)

end Act

end Replay

namespace World

/-- A replay of the connection has begun and not come to its end. -/
def IsReplaying (w : World) (c : ConnectionId) : Prop :=
  ∃ k r, w.hub.task k = .replay r ∧ r.connection = c ∧ r.stage.hasBegun = true

/-- A replay of the connection may restore this. -/
def Remembers (w : World) (c : ConnectionId) (p : Subscriber.Previous) : Prop :=
  ∃ k r, w.hub.task k = .replay r ∧ r.connection = c ∧ p ∈ r.stage.previous?

/-- The connection is settled but while one of its replays is under way, and what that replay may
restore was settled. -/
structure Phased (c : ConnectionId) (w : World) : Prop where
  settled : ¬ w.IsReplaying c → (w.hub.subscriber c).IsSettled
  begun : w.IsReplaying c → (w.hub.subscriber c).channels = [.systemEvents]
  remembered : ∀ p, w.Remembers c p → p.IsSettled

/-- Neither phase nor channels of the connection change, and none of its replays begins or
ends. -/
structure Quiet (c : ConnectionId) (w w' : World) : Prop where
  isReplaying : w'.IsReplaying c ↔ w.IsReplaying c
  channels : (w'.hub.subscriber c).channels = (w.hub.subscriber c).channels
  phase : (w'.hub.subscriber c).phase = (w.hub.subscriber c).phase
  remembers : ∀ p, w'.Remembers c p → w.Remembers c p

section Step

variable {c : ConnectionId} {w w' : World} {m : Move}

theorem SameReplays.quiet (h : SameReplays c w w')
    (hc : (w'.hub.subscriber c).channels = (w.hub.subscriber c).channels)
    (hp : (w'.hub.subscriber c).phase = (w.hub.subscriber c).phase) : Quiet c w w' where
  isReplaying := by
    constructor
    · rintro ⟨k, r, hk, hr, hb⟩
      exact ⟨k, r, (h k r hr).mp hk, hr, hb⟩
    · rintro ⟨k, r, hk, hr, hb⟩
      exact ⟨k, r, (h k r hr).mpr hk, hr, hb⟩
  channels := hc
  phase := hp
  remembers := fun _ ⟨k, r, hk, hr, hmem⟩ => ⟨k, r, (h k r hr).mp hk, hr, hmem⟩

/-- A replay moves, and has begun as much as before. -/
theorem isReplaying_iff_of_same {k : TaskId} {r : Replay} {stage : Replay.Stage}
    (hk : w.hub.task k = .replay r)
    (ht : w'.hub.task = update w.hub.task k (.replay { r with stage }))
    (hb : stage.hasBegun = r.stage.hasBegun) : w'.IsReplaying c ↔ w.IsReplaying c := by
  constructor
  · rintro ⟨j, q, hj, hq, hbegun⟩
    rw [ht] at hj
    rcases eq_or_of_update_eq hj with ⟨rfl, heq⟩ | ⟨-, hj⟩
    · cases heq
      exact ⟨j, r, hk, hq, hb ▸ hbegun⟩
    · exact ⟨j, q, hj, hq, hbegun⟩
  · rintro ⟨j, q, hj, hq, hbegun⟩
    by_cases hjk : j = k
    · subst hjk
      rw [hk] at hj
      cases hj
      exact ⟨j, { r with stage }, by rw [ht, update_self], hq, hb.trans hbegun⟩
    · exact ⟨j, q, by rw [ht, update_of_ne _ _ hjk]; exact hj, hq, hbegun⟩

/-- A replay moves and the others stay. -/
theorem remembers_of_update {k : TaskId} {r : Replay} {stage : Replay.Stage}
    (ht : w'.hub.task = update w.hub.task k (.replay { r with stage })) {p : Subscriber.Previous}
    (h : w'.Remembers c p) : p ∈ stage.previous? ∨ w.Remembers c p := by
  obtain ⟨j, q, hj, hq, hmem⟩ := h
  rw [ht] at hj
  rcases eq_or_of_update_eq hj with ⟨-, heq⟩ | ⟨-, hj⟩
  · cases heq
    exact .inl hmem
  · exact .inr ⟨j, q, hj, hq, hmem⟩

/-- Whatever it is to the connection, a move is quiet for it but for the acts of its replays. -/
theorem Concerns.quiet_or_act (hm : Concerns c w w' m) (hw : w.hub.Tidy) :
    (Quiet c w w' ∧ ∀ k ∈ m.advanced?, ∀ channel,
        w.hub.puts? k c ≠ some (.subscriptionConfirmed channel)) ∨
      ∃ k r stage, m = .advance k ∧ w.hub.task k = .replay r ∧ r.connection = c ∧
        Replay.Act r.request (w.hub.puts? k c) r.stage (w.hub.subscriber c) stage
          (w'.hub.subscriber c) ∧
        w'.hub.task = update w.hub.task k (.replay { r with stage }) := by
  cases hm with
  | aside hput hc hp ht => exact .inl ⟨ht.quiet hc hp, fun k hk channel => by simp [hput k hk]⟩
  | live _ _ hput _ hc hp ht =>
      refine .inl ⟨ht.quiet hc hp, fun k hk channel => ?_⟩
      cases hk
      simp [hput]
  | @subscribe request hs ht =>
      refine .inl ⟨⟨?_, by rw [hs], by rw [hs], ?_⟩, fun k hk => nomatch hk⟩
      · constructor
        · rintro ⟨k, r, hk, hr, hb⟩
          rw [ht] at hk
          rcases eq_or_of_update_eq hk with ⟨rfl, heq⟩ | ⟨-, hk⟩
          · cases heq
            cases hb
          · exact ⟨k, r, hk, hr, hb⟩
        · rintro ⟨k, r, hk, hr, hb⟩
          have hne := Nat.ne_of_lt (hw.lt_started_of_replay hk)
          exact ⟨k, r, by rw [ht, update_of_ne _ _ hne]; exact hk, hr, hb⟩
      · intro p hp
        obtain ⟨k, r, hk, hr, hmem⟩ := hp
        rw [ht] at hk
        rcases eq_or_of_update_eq hk with ⟨-, heq⟩ | ⟨-, hk⟩
        · cases heq
          cases hmem
        · exact ⟨k, r, hk, hr, hmem⟩
  | @answer k r purpose a hk hr hask hs ht =>
      refine .inl ⟨⟨?_, by rw [hs], by rw [hs], ?_⟩, fun k hk => nomatch hk⟩
      · exact isReplaying_iff_of_same hk ht (by rw [hask]; rfl)
      · intro p hp
        rcases remembers_of_update ht hp with hmem | hp
        · refine ⟨k, r, hk, hr, ?_⟩
          rw [hask]
          cases purpose <;> exact hmem
        · exact hp
  | act hk hc ha ht => exact .inr ⟨_, _, _, rfl, hk, hc, ha, ht⟩

/-- The replay that holds the lock is the one that has begun, if any has. -/
theorem Locked.isReplaying_iff (hl : w.Locked) {k : TaskId} {r : Replay}
    (hk : w.hub.task k = .replay r) (hlock : r.stage.holdsLock = true) :
    w.IsReplaying r.connection ↔ r.stage.hasBegun = true := by
  constructor
  · rintro ⟨j, q, hj, hq, hb⟩
    obtain rfl := hl.unique hj hk (Replay.Stage.holdsLock_of_hasBegun hb) hlock hq
    rw [hk] at hj
    cases hj
    exact hb
  · exact fun hb => ⟨k, r, hk, rfl, hb⟩

/-- When it moves, it still is. -/
theorem Locked.isReplaying_iff_of_update (hl : w.Locked) {k : TaskId} {r : Replay}
    {stage : Replay.Stage} (hk : w.hub.task k = .replay r) (hlock : r.stage.holdsLock = true)
    (ht : w'.hub.task = update w.hub.task k (.replay { r with stage })) :
    w'.IsReplaying r.connection ↔ stage.hasBegun = true := by
  constructor
  · rintro ⟨j, q, hj, hq, hb⟩
    rw [ht] at hj
    rcases eq_or_of_update_eq hj with ⟨-, heq⟩ | ⟨hjk, hj⟩
    · cases heq
      exact hb
    · exact absurd (hl.unique hj hk (Replay.Stage.holdsLock_of_hasBegun hb) hlock hq) hjk
  · exact fun hb => ⟨k, { r with stage }, by rw [ht, update_self], rfl, hb⟩

theorem Phased.quiet (h : w.Phased c) (hq : Quiet c w w') : w'.Phased c where
  settled := by
    simp only [hq.isReplaying, Subscriber.IsSettled, hq.channels, hq.phase]
    exact h.settled
  begun := by
    rw [hq.isReplaying, hq.channels]
    exact h.begun
  remembered := fun p hp => h.remembered p (hq.remembers p hp)

theorem Phased.act (h : w.Phased c) (hl : w.Locked) {k : TaskId} {r : Replay}
    {stage : Replay.Stage} {put : Option Frame} (hk : w.hub.task k = .replay r)
    (hc : r.connection = c)
    (ha : Replay.Act r.request put r.stage (w.hub.subscriber c) stage (w'.hub.subscriber c))
    (ht : w'.hub.task = update w.hub.task k (.replay { r with stage })) : w'.Phased c := by
  have hbegun (hb : r.stage.hasBegun = true) := h.begun ⟨k, r, hk, hc, hb⟩
  have hsettled (hlock : r.stage.holdsLock = true) (hb : r.stage.hasBegun = false) :=
    h.settled fun hunder => by
      rw [← hc, hl.isReplaying_iff hk hlock, hb] at hunder
      cases hunder
  obtain ⟨hsaved, hs⟩ := Replay.settled_of_act ha
    (fun p hmem => h.remembered p ⟨k, r, hk, hc, hmem⟩) hbegun hsettled
  have hremembered : ∀ p, w'.Remembers c p → p.IsSettled := fun p hp =>
    (remembers_of_update ht hp).elim (hsaved p) (h.remembered p)
  rcases hs with ⟨hsame, hb⟩ | ⟨hlock, hbegun', hsettled'⟩
  · have hiff := isReplaying_iff_of_same (c := c) hk ht hb
    refine ⟨?_, ?_, hremembered⟩
    · rw [hiff, hsame]; exact h.settled
    · rw [hiff, hsame]; exact h.begun
  · have hiff := hl.isReplaying_iff_of_update hk hlock ht
    rw [hc] at hiff
    refine ⟨fun hnot => hsettled' ?_, fun hunder => hbegun' (hiff.mp hunder), hremembered⟩
    exact Bool.eq_false_iff.mpr fun hb => hnot (hiff.mpr hb)

theorem phased_step (h : w.Phased c) (hw : w.hub.Tidy) (hl : w.Locked)
    (hm : Concerns c w w' m) : w'.Phased c := by
  rcases hm.quiet_or_act hw with ⟨hq, -⟩ | ⟨k, r, stage, -, hk, hc, ha, ht⟩
  · exact h.quiet hq
  · exact h.act hl hk hc ha ht

theorem phased_of_unopened (hw : w.hub.Tidy) (hc : w.hub.opened ≤ c) : w.Phased c := by
  have ha := hw.unopened c hc
  have hnone : ∀ k r, w.hub.task k = .replay r → r.connection ≠ c := by
    rintro k r hk rfl
    exact Nat.not_lt.mpr hc (hw.replays k r hk)
  exact ⟨fun _ => .inl ⟨ha.phase, ha.channels⟩, fun ⟨k, r, hk, hr, _⟩ => absurd hr (hnone k r hk),
    fun p ⟨k, r, hk, hr, _⟩ => absurd hr (hnone k r hk)⟩

end Step

/-- A connection is found live just if its phase says so. -/
theorem Phased.isLiveOn_iff {c : ConnectionId} {w : World} (h : w.Phased c) (hw : w.Withheld) :
    (w.hub.subscriber c).isLiveOn .systemEvents = true ↔
      (w.hub.subscriber c).phase = .live := by
  by_cases hr : w.IsReplaying c
  · obtain ⟨k, r, hk, rfl, hb⟩ := hr
    have hp := hw k r hk hb
    refine ⟨fun hlive => ?_, fun hlive => ?_⟩
    · simp [Subscriber.isLiveOn, hp] at hlive
    · rw [hlive] at hp
      cases hp
  · rcases h.settled hr with ⟨hp, hc⟩ | ⟨hp, hc⟩
    · simp [Subscriber.isLiveOn, Subscriber.isSubscribed, hp, hc]
    · simp [Subscriber.isLiveOn, Subscriber.isSubscribed, hp, hc, Phase.isReplaying]

/-! ### Connections that are shut -/

/-- The connection has been opened, and cancelled or closed since. -/
def Shut (c : ConnectionId) (w : World) : Prop :=
  c < w.hub.opened ∧
    ((w.hub.subscriber c).cancelled = true ∨ (w.hub.subscriber c).outbound.isOpen = false)

section Shut

variable {c : ConnectionId} {w : World} {m : Move}

theorem isOpen_onSubscriber (d : ConnectionId) {f : Subscriber → Subscriber}
    (hf : (w.hub.subscriber d).outbound.isOpen = false →
      (f (w.hub.subscriber d)).outbound.isOpen = false)
    (h : (w.hub.subscriber c).outbound.isOpen = false) :
    ((w.onSubscriber d f).hub.subscriber c).outbound.isOpen = false := by
  change (update w.hub.subscriber d _ c).outbound.isOpen = false
  by_cases hd : d = c
  · subst hd
    rw [update_self]
    exact hf h
  · rw [update_of_ne _ _ (Ne.symm hd)]
    exact h

/-- A queue that is closed stays closed. -/
theorem isOpen_apply (hc : c < w.hub.opened) (h : (w.hub.subscriber c).outbound.isOpen = false) :
    ((w.apply m).hub.subscriber c).outbound.isOpen = false := by
  cases m with
  | append draft =>
      simp only [apply, withLog]
      split <;> exact h
  | insertRow id row =>
      simp only [apply, withLog]
      split <;> exact h
  | connect =>
      change (update w.hub.subscriber w.hub.opened _ c).outbound.isOpen = false
      rw [update_of_ne _ _ (Nat.ne_of_lt hc)]
      exact h
  | disconnect d => exact isOpen_onSubscriber d id h
  | advance k => exact (w.hub.puts_advance k c).isOpen h
  | answer k a =>
      simp only [apply, onHub, Hub.answer]
      split
      · split <;> exact h
      · exact h
      · exact h
  | receive d limit => exact isOpen_onSubscriber d id h
  | closeReceiver d => exact isOpen_onSubscriber d (fun _ => rfl) h
  | send d f =>
      exact isOpen_onSubscriber d (fun hd => (Subscriber.puts_push rfl rfl f).isOpen hd) h
  | offerLive d id f =>
      exact isOpen_onSubscriber d (fun hd => (Subscriber.puts_enqueueLive _ id f).isOpen hd) h
  | _ => exact h

theorem shut_apply (h : w.Shut c) : (w.apply m).Shut c :=
  ⟨Nat.lt_of_lt_of_le h.1 (opened_le_apply w m), h.2.imp (cancelled_apply h.1) (isOpen_apply h.1)⟩

/-- A connection that refuses the frame of a task is shut. -/
theorem shut_of_not_accepts (hw : w.hub.Tidy) (h : ¬ w.Accepts c m) : (w.apply m).Shut c := by
  obtain ⟨k, hk, hput, hroom⟩ : ∃ k ∈ m.advanced?, (w.hub.puts? k c).isSome = true ∧
      ¬ (w.hub.subscriber c).HasRoom := by
    simpa [Accepts] using h
  cases m with
  | advance j =>
      cases hk
      obtain ⟨f, hf⟩ := Option.isSome_iff_exists.mp hput
      have hopened := hw.lt_opened_of_puts? hf
      refine ⟨Nat.lt_of_lt_of_le hopened (opened_le_apply w _), ?_⟩
      have hputs := w.hub.puts_advance k c
      rw [hf] at hputs
      exact hputs.refused hroom
  | _ => cases hk

end Shut

/-! ### A whole run -/

section Run

variable {capacity replays : Nat} {start : Instant} {past : List (World × Move)} {w : World}
  {c : ConnectionId}

theorem phased_of_run (run : Run (Hears c) (.new capacity replays start) past w) :
    w.Phased c := by
  induction run with
  | nil => exact phased_of_unopened (Hub.tidy_new capacity replays start) (Nat.zero_le c)
  | cons run hm ih =>
      have hposs := possible_of_hears run
      exact phased_step ih (tidy_of_run hposs) (locked_of_run hposs) (concerns_of_run run hm)

/-- A connection that is not shut has never been refused a frame. -/
theorem hears_of_not_shut (run : Run Possible (.new capacity replays start) past w)
    (hshut : ¬ w.Shut c) : Run (Hears c) (.new capacity replays start) past w := by
  induction run with
  | nil => exact .nil
  | @cons past w m run hm ih =>
      have hbefore : ¬ w.Shut c := fun h => hshut (shut_apply h)
      refine .cons (ih hbefore) ⟨hm, ?_, fun hc => ?_⟩
      · exact Classical.not_not.mp fun h => hshut (shut_of_not_accepts (tidy_of_run run) h)
      · exact Bool.eq_false_iff.mpr fun h => hbefore ⟨hc, .inl h⟩

end Run

/-- A connection that is open and not cancelled is never stuck between phases. While a replay of
its own has begun, it is subscribed and in a replaying phase; otherwise it is idle and not
subscribed, or live and subscribed. So it is found live just when its phase says so. -/
theorem phase_of_run {capacity replays : Nat} {start : Instant} {past : List (World × Move)}
    {w : World} {c : ConnectionId} (run : Run Possible (.new capacity replays start) past w)
    (hcancel : (w.hub.subscriber c).cancelled = false)
    (hopen : (w.hub.subscriber c).outbound.isOpen = true) :
    (w.IsReplaying c →
      ((w.hub.subscriber c).phase = .replaying ∨ (w.hub.subscriber c).phase = .reconciling) ∧
        (w.hub.subscriber c).isSubscribed .systemEvents = true) ∧
    (¬ w.IsReplaying c →
      (w.hub.subscriber c).phase = .idle ∧
          (w.hub.subscriber c).isSubscribed .systemEvents = false ∨
        (w.hub.subscriber c).phase = .live ∧
          (w.hub.subscriber c).isSubscribed .systemEvents = true) ∧
    ((w.hub.subscriber c).isLiveOn .systemEvents = true ↔ (w.hub.subscriber c).phase = .live) := by
  have hshut : ¬ w.Shut c := by
    rintro ⟨-, h | h⟩
    · rw [hcancel] at h
      cases h
    · rw [hopen] at h
      cases h
  have hphased := phased_of_run (hears_of_not_shut run hshut)
  have hunder : w.IsReplaying c → (w.hub.subscriber c).phase.isReplaying = true := by
    rintro ⟨k, r, hk, rfl, hb⟩
    exact withheld_of_run run k r hk hb
  have hsubscribed : (w.hub.subscriber c).channels = [.systemEvents] →
      (w.hub.subscriber c).isSubscribed .systemEvents = true := by
    intro h
    simp [Subscriber.isSubscribed, h]
  refine ⟨fun h => ⟨?_, hsubscribed (hphased.begun h)⟩, fun h => ?_,
    hphased.isLiveOn_iff (withheld_of_run run)⟩
  · have hp := hunder h
    cases hphase : (w.hub.subscriber c).phase with
    | replaying => exact .inl rfl
    | reconciling => exact .inr rfl
    | idle | live => rw [hphase] at hp; cases hp
  · rcases hphased.settled h with ⟨hp, hc⟩ | ⟨hp, hc⟩
    · exact .inl ⟨hp, by simp [Subscriber.isSubscribed, hc]⟩
    · exact .inr ⟨hp, hsubscribed hc⟩

/-- A live connection subscribes twice more. The history of the first of these has failed, and the
client is about to be told; the second waits for its turn. -/
def failing : List Move :=
  [Move.connect, .subscribe 0 ⟨.systemEvents, none⟩] ++ List.replicate 5 (Move.advance 0) ++
  [Move.subscribe 0 ⟨.systemEvents, some .epoch⟩, .subscribe 0 ⟨.systemEvents, none⟩] ++
  List.replicate 5 (Move.advance 1) ++
  [Move.advance 2, .answer 1 (.error .aborted), .advance 1]

theorem phase_of_failing :
    let w := (new 8 8 .epoch).applyAll failing
    let w' := w.applyAll [.advance 1, .advance 1]
    (w.hub.subscriber 0).phase.isReplaying = true ∧
      (w.hub.subscriber 0).isSubscribed .systemEvents = true ∧
      (w'.hub.subscriber 0).phase = .live ∧
      (w'.hub.subscriber 0).isLiveOn .systemEvents = true := by
  intro w w'
  have run : Run Possible (new 8 8 .epoch) ((new 8 8 .epoch).history [] failing) w :=
    Follows.run (by decide +kernel) .nil
  have run' : Run Possible (new 8 8 .epoch)
      (w.history ((new 8 8 .epoch).history [] failing) [.advance 1, .advance 1]) w' :=
    Follows.run (by decide +kernel) run
  have hreporting : w.hub.task 1 =
      .replay ⟨0, ⟨.systemEvents, some .epoch⟩, .reporting ⟨.live, true⟩⟩ := rfl
  have hlive : (w'.hub.subscriber 0).phase = .live := by decide +kernel
  obtain ⟨hphase, hsubscribed⟩ :=
    (phase_of_run (c := 0) run (by decide +kernel) (by decide +kernel)).1
      ⟨1, _, hreporting, rfl, rfl⟩
  refine ⟨?_, hsubscribed, hlive, ?_⟩
  · rcases hphase with hp | hp <;> rw [hp] <;> rfl
  · exact (phase_of_run (c := 0) run' (by decide +kernel) (by decide +kernel)).2.2.mpr hlive

end World

end EventStream
