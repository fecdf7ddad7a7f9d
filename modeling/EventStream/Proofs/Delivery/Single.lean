import EventStream.Proofs.Delivery.Sweep
import EventStream.Proofs.World.Lock

/-! A connection with one subscription, attached throughout. Until its replay hands over, no
tick has it in hand; from then on it stays live. -/

namespace EventStream

namespace Replay

/-- The replay has not asked for its history. -/
def Stage.isFresh : Stage → Bool
  | arriving => true
  | awaitingLock => true
  | awaitingPermit => true
  | admitted => true
  | opening .. => true
  | _ => false

/-- Stages of a replay with a cursor, none of whose queries or frames fails. -/
def Stage.isSmooth : Stage → Bool
  | answered _ (.error _) => false
  | confirming .fresh => false
  | confirming .reconciled => false
  | reporting _ => false
  | aborting _ => false
  | _ => true

section Next

variable {announced : Int} {request : Subscription} {stage stage' : Stage} {s t : Subscriber}

theorem isFresh_of_next (hn : Next announced request stage s stage' t)
    (h : stage'.isFresh = true) : stage.isFresh = true ∧ t.lastEventId = s.lastEventId := by
  cases hn with
  | arrive => exact ⟨rfl, rfl⟩
  | lock => exact ⟨rfl, rfl⟩
  | grant => exact ⟨rfl, rfl⟩
  | begin => exact ⟨rfl, rfl⟩
  | _ => cases h

theorem not_refuses {s t : Subscriber} (hs : s.outbound.isOpen = true) (ht : t.cancelled = false) :
    ¬ Subscriber.Refuses s t := by
  rintro (rfl | ⟨-, hclosed⟩)
  · cases ht
  · rw [hs] at hclosed
    cases hclosed

theorem isSmooth_of_next (hn : Next announced request stage s stage' t)
    (h : stage.isSmooth = true) {cursor : Instant} (hseen : request.lastSeen = some cursor)
    (hs : s.outbound.isOpen = true) (ht : t.cancelled = false) : stage'.isSmooth = true := by
  cases hn with
  | beginFresh hr => rw [hr] at hseen; cases hseen
  | historyFailed => cases h
  | gapFailed => cases h
  | refuseHistory hrefuse => exact absurd hrefuse (not_refuses hs ht)
  | report => cases h
  | _ => rfl

theorem ne_ended_of_next (hn : Next announced request stage s stage' t) : stage ≠ .ended := by
  rintro rfl
  cases hn with
  | drop hw => cases hw

/-- What a smooth move does to channels and phase: nothing, or it begins, or a replay that has
begun goes on, and is at its end if it goes live. -/
theorem phase_of_next (hn : Next announced request stage s stage' t)
    (h : stage.isSmooth = true) (hs : s.outbound.isOpen = true) (ht : t.cancelled = false) :
    t.channels = s.channels ∧ t.phase = s.phase ∨
      t.channels = s.channels.insert request.channel ∧ t.phase.isReplaying = true ∨
      stage.hasBegun = true ∧ t.channels = s.channels ∧
        (t.phase.isReplaying = true ∨ t.phase = .live ∧ stage' = .ended) := by
  cases hn with
  | begin => exact .inr (.inl ⟨rfl, rfl⟩)
  | beginFresh => exact .inr (.inl ⟨rfl, rfl⟩)
  | settle => exact .inr (.inr ⟨rfl, rfl, .inl rfl⟩)
  | goLive => exact .inr (.inr ⟨rfl, rfl, .inr ⟨rfl, rfl⟩⟩)
  | refuseHistory hrefuse => exact absurd hrefuse (not_refuses hs ht)
  | refuseGap hrefuse => exact absurd hrefuse (not_refuses hs ht)
  | refuseLive _ hrefuse => exact absurd hrefuse (not_refuses hs ht)
  | @confirm _ mode =>
      cases mode with
      | force =>
          have hmode : Subscriber.Handover.force ≠ .reconciled := by simp
          rcases Subscriber.handOver_unasked (s := s) announced hmode
            (.subscriptionConfirmed request.channel) with hp | hrefuse
          · rw [hp]
            exact .inr (.inr ⟨rfl, rfl, .inr ⟨rfl, rfl⟩⟩)
          · exact absurd hrefuse (not_refuses hs ht)
      | _ => cases h
  | report => cases h
  | abort => cases h
  | _ => exact .inl ⟨rfl, rfl⟩

end Next

end Replay

namespace Tick

/-- The connections that a tick has found live. -/
def Stage.picked : Stage → List ConnectionId
  | .picking _ _ live => live
  | .broadcasting _ _ live targets => live ++ targets
  | _ => []

theorem mem_connections_of_mem_picked {stage : Stage} {c : ConnectionId} (h : c ∈ stage.picked) :
    c ∈ stage.connections := by
  cases stage with
  | picking => exact List.mem_append_right _ h
  | broadcasting => exact h
  | _ => cases h

theorem mem_picked_of_next {h : Hub} {stage stage' : Stage} {checkpoint : Checkpoint}
    {subscriber : ConnectionId → Subscriber} (hn : Next h stage stage' checkpoint subscriber)
    {c : ConnectionId} (hc : c ∈ stage'.picked) :
    c ∈ stage.picked ∨ (h.subscriber c).isLiveOn .systemEvents = true := by
  cases hn with
  | @pick batch d unseen live hlive =>
      rcases List.mem_append.mp hc with hc | hc
      · exact .inl hc
      · rw [List.mem_singleton.mp hc]
        exact .inr hlive
  | passOver => exact .inl hc
  | fanOut =>
      left
      rcases List.mem_append.mp hc with hc | hc
      · exact hc
      · exact mem_of_mem_targets hc
  | offer =>
      left
      rcases List.mem_append.mp hc with hc | hc
      · exact List.mem_append_left _ hc
      · exact List.mem_append_right _ (List.mem_cons_of_mem _ hc)
  | offerNone =>
      left
      rcases List.mem_append.mp hc with hc | hc
      · exact List.mem_append_left _ hc
      · exact List.mem_append_right _ (List.mem_cons_of_mem _ hc)
  | mark =>
      left
      rcases List.mem_append.mp hc with hc | hc
      · exact List.mem_append_left _ hc
      · exact List.mem_append_left _ (mem_of_mem_targets hc)
  | _ => cases hc

end Tick

namespace World

/-- Once it is open, the connection is registered and neither cancelled nor closed. -/
def Attached (c : ConnectionId) (w : World) : Prop :=
  c < w.hub.opened → c ∈ w.hub.registry ∧ (w.hub.subscriber c).cancelled = false ∧
    (w.hub.subscriber c).outbound.isOpen = true

instance (c : ConnectionId) (w : World) : Decidable (w.Attached c) :=
  inferInstanceAs (Decidable (_ → _))

/-- A connection and its one replay. Before the replay begins nothing has passed the gate, and
until it ends no tick finds the connection live. -/
structure Single (c : ConnectionId) (request : Subscription) (w : World) : Prop where
  one : ∀ i j r q, w.hub.task i = .replay r → w.hub.task j = .replay q → r.connection = c →
    q.connection = c → i = j
  smooth : ∀ k r, w.hub.task k = .replay r → r.connection = c →
    r.request = request ∧ r.stage.isSmooth = true
  zero : (∀ k r, w.hub.task k = .replay r → r.connection = c → r.stage.isFresh = true) →
    (w.hub.subscriber c).lastEventId = 0
  subscribed : (w.hub.subscriber c).phase ≠ .idle →
    (w.hub.subscriber c).isSubscribed .systemEvents = true
  off : (w.hub.subscriber c).phase ≠ .live →
    (w.hub.subscriber c).channels = [] ∨ (w.hub.subscriber c).phase.isReplaying = true
  ended : (w.hub.subscriber c).phase = .live →
    ∃ k r, w.hub.task k = .replay r ∧ r.connection = c ∧ r.stage = .ended
  unseen : (w.hub.subscriber c).phase ≠ .live → ∀ j stage, w.hub.task j = .tick stage →
    c ∉ stage.picked

section Step

variable {c : ConnectionId} {request : Subscription} {w w' : World} {m : Move}

theorem Single.isLiveOn_eq_false (h : w.Single c request)
    (hp : (w.hub.subscriber c).phase ≠ .live) :
    (w.hub.subscriber c).isLiveOn .systemEvents = false := by
  rcases h.off hp with hc | hr
  · simp [Subscriber.isLiveOn, Subscriber.isSubscribed, hc]
  · simp [Subscriber.isLiveOn, hr]

theorem Single.isLiveOn_eq_true (h : w.Single c request)
    (hp : (w.hub.subscriber c).phase = .live) :
    (w.hub.subscriber c).isLiveOn .systemEvents = true := by
  simp [Subscriber.isLiveOn, h.subscribed (by simp [hp]), hp, Phase.isReplaying]

theorem Single.one_step (h : w.Single c request) (hw : w.hub.Tidy)
    (hm : w.Serving c request m) (he : Effect w m w') {i j : TaskId} {r q : Replay}
    (hi : w'.hub.task i = .replay r) (hj : w'.hub.task j = .replay q) (hr : r.connection = c)
    (hq : q.connection = c) : i = j := by
  have hnew : ∀ {k : TaskId} {p : Replay} {d : ConnectionId} {req : Subscription},
      w.hub.task k = .replay p → p.connection = c → m = .subscribe d req → d = c → False := by
    rintro k p d req hk hp rfl rfl
    refine (hm.once req (by simp [Move.request?])).2 k (hw.lt_started_of_replay hk) ?_
    rw [hk]
    exact congrArg some hp
  rcases he.replay_cases hi with ⟨r₀, hi₀, hrc, -⟩ | ⟨hi₀, c₁, req₁, hm₁, rfl⟩ <;>
    rcases he.replay_cases hj with ⟨q₀, hj₀, hqc, -⟩ | ⟨hj₀, c₂, req₂, hm₂, rfl⟩
  · exact h.one i j r₀ q₀ hi₀ hj₀ (hrc.symm.trans hr) (hqc.symm.trans hq)
  · exact (hnew hi₀ (hrc.symm.trans hr) hm₂ hq).elim
  · exact (hnew hj₀ (hqc.symm.trans hq) hm₁ hr).elim
  · rw [hi₀, hj₀]

theorem Single.smooth_step (h : w.Single c request) (hw : w.hub.Tidy)
    {cursor : Instant} (hseen : request.lastSeen = some cursor) (hm : w.Serving c request m)
    (he : Effect w m w') (ha : w.Attached c) (ha' : (w'.hub.subscriber c).cancelled = false)
    {k : TaskId} {r : Replay} (hk : w'.hub.task k = .replay r) (hr : r.connection = c) :
    r.request = request ∧ r.stage.isSmooth = true := by
  have hc := he.came k
  rw [hk] at hc
  cases hc with
  | stays _ ht => exact h.smooth k r ht hr
  | subscribes =>
      cases hr
      exact ⟨(hm.once _ (by simp [Move.request?])).1, rfl⟩
  | @answersReplay q purpose a ht hs =>
      refine ⟨(h.smooth k q ht hr).1, ?_⟩
      cases a with
      | error failure => cases hm.answered
      | ok es => rfl
  | @movesReplay q stage s ht hn hmoved =>
      obtain ⟨hreq, hsmooth⟩ := h.smooth k q ht hr
      have hopen := (ha (hr ▸ hw.replays k q ht)).2.2
      refine ⟨hreq, Replay.isSmooth_of_next hn hsmooth (hreq ▸ hseen) (hr ▸ hopen) ?_⟩
      rw [hmoved.subscriber] at ha'
      change (update w.hub.subscriber q.connection s c).cancelled = false at ha'
      rw [← hr] at ha'
      simpa using ha'

/-- What a move does to channels and phase of the connection. -/
inductive Turns (c : ConnectionId) (w w' : World) : Prop where
  | keep (hc : (w'.hub.subscriber c).channels = (w.hub.subscriber c).channels)
      (hp : (w'.hub.subscriber c).phase = (w.hub.subscriber c).phase)
  | begin {k r} (ht : w.hub.task k = .replay r) (hr : r.connection = c)
      (hne : r.stage ≠ .ended)
      (hc : (w'.hub.subscriber c).channels = (w.hub.subscriber c).channels.insert .systemEvents)
      (hp : (w'.hub.subscriber c).phase.isReplaying = true)
  | goOn {k r stage} (ht : w.hub.task k = .replay r) (hr : r.connection = c)
      (hb : r.stage.hasBegun = true) (ht' : w'.hub.task k = .replay { r with stage })
      (hc : (w'.hub.subscriber c).channels = (w.hub.subscriber c).channels)
      (hp : (w'.hub.subscriber c).phase.isReplaying = true ∨
        (w'.hub.subscriber c).phase = .live ∧ stage = .ended)

theorem Single.turns (h : w.Single c request) (hw : w.hub.Tidy) (he : Effect w m w')
    (ha : w.Attached c) (ha' : (w'.hub.subscriber c).cancelled = false) : Turns c w w' := by
  cases he.touches c with
  | alike ha => exact .keep ha.channels ha.phase
  | @replay k r stage ht hr hl hn ht' =>
      have hopen := (ha (hr ▸ hw.replays k r ht)).2.2
      rcases Replay.phase_of_next hn (h.smooth k r ht hr).2 hopen ha' with
        ⟨hc, hp⟩ | ⟨hc, hp⟩ | ⟨hb, hc, hp⟩
      · exact .keep hc hp
      · exact .begin ht hr (Replay.ne_ended_of_next hn) hc hp
      · exact .goOn ht hr hb ht' hc hp
  | tick _ _ _ ho => exact .keep ho.phase.2 ho.phase.1
  | offer _ _ ho => exact .keep ho.phase.2 ho.phase.1

/-- The replay of a live connection has ended. -/
theorem Single.stage_eq_ended (h : w.Single c request)
    (hp : (w.hub.subscriber c).phase = .live) {k : TaskId} {r : Replay}
    (hk : w.hub.task k = .replay r) (hr : r.connection = c) : r.stage = .ended := by
  obtain ⟨j, q, hj, hq, hended⟩ := h.ended hp
  obtain rfl := h.one k j r q hk hj hr hq
  rw [hk] at hj
  cases hj
  exact hended

/-- A live connection stays live. -/
theorem Single.live_step (h : w.Single c request) (ht : Turns c w w')
    (hp : (w.hub.subscriber c).phase = .live) : (w'.hub.subscriber c).phase = .live := by
  cases ht with
  | keep _ hp' => rw [hp', hp]
  | begin hk hr hne => exact absurd (h.stage_eq_ended hp hk hr) hne
  | goOn hk hr hb => rw [h.stage_eq_ended hp hk hr] at hb; cases hb

theorem Single.subscribed_step (h : w.Single c request) (hwith : w.Withheld)
    (ht : Turns c w w') (hp' : (w'.hub.subscriber c).phase ≠ .idle) :
    (w'.hub.subscriber c).isSubscribed .systemEvents = true := by
  cases ht with
  | keep hc hp =>
      rw [hp] at hp'
      simpa only [Subscriber.isSubscribed, hc] using h.subscribed hp'
  | begin _ _ _ hc =>
      simp only [Subscriber.isSubscribed, hc]
      simp
  | goOn hk hr hb _ hc =>
      have hrep := hwith _ _ hk hb
      rw [hr] at hrep
      have hidle : (w.hub.subscriber c).phase ≠ .idle := by
        intro heq
        rw [heq] at hrep
        cases hrep
      simpa only [Subscriber.isSubscribed, hc] using h.subscribed hidle

theorem Single.off_step (h : w.Single c request) (ht : Turns c w w')
    (hp' : (w'.hub.subscriber c).phase ≠ .live) :
    (w'.hub.subscriber c).channels = [] ∨ (w'.hub.subscriber c).phase.isReplaying = true := by
  cases ht with
  | keep hc hp =>
      rw [hp] at hp' ⊢
      rw [hc]
      exact h.off hp'
  | begin _ _ _ _ hp => exact .inr hp
  | goOn _ _ _ _ _ hp => exact .inr (hp.resolve_right fun hl => hp' hl.1)

theorem ended_stays (he : Effect w m w') (hw : w.hub.Tidy) {k : TaskId} {r : Replay}
    (hk : w.hub.task k = .replay r) (hr : r.stage = .ended) : w'.hub.task k = .replay r := by
  rcases he.replay_next hw hk with hk' | ⟨purpose, a, -, hs, -⟩ | ⟨stage, s, -, hn, -⟩
  · exact hk'
  · rw [hr] at hs
    cases hs
  · exact absurd hr (Replay.ne_ended_of_next hn)

theorem Single.ended_step (h : w.Single c request) (hw : w.hub.Tidy) (he : Effect w m w')
    (ht : Turns c w w') (hp' : (w'.hub.subscriber c).phase = .live) :
    ∃ k r, w'.hub.task k = .replay r ∧ r.connection = c ∧ r.stage = .ended := by
  cases ht with
  | keep _ hp =>
      rw [hp] at hp'
      obtain ⟨k, r, hk, hr, hs⟩ := h.ended hp'
      exact ⟨k, r, ended_stays he hw hk hs, hr, hs⟩
  | begin _ _ _ _ hp => rw [hp'] at hp; cases hp
  | @goOn k r stage hk hr _ ht' _ hp =>
      rcases hp with hp | ⟨-, rfl⟩
      · rw [hp'] at hp
        cases hp
      · exact ⟨k, _, ht', hr, rfl⟩

theorem Single.unseen_step (h : w.Single c request) (he : Effect w m w') (ht : Turns c w w')
    (hp' : (w'.hub.subscriber c).phase ≠ .live) {j : TaskId} {stage : Tick.Stage}
    (hj : w'.hub.task j = .tick stage) : c ∉ stage.picked := by
  have hp : (w.hub.subscriber c).phase ≠ .live := fun hp => hp' (h.live_step ht hp)
  intro hpicked
  have hc := he.came j
  rw [hj] at hc
  cases hc with
  | stays _ hold => exact h.unseen hp j stage hold hpicked
  | startsTick => cases hpicked
  | answersTick => cases hpicked
  | movesTick hold hn =>
      rcases Tick.mem_picked_of_next hn hpicked with hmem | hlive
      · exact h.unseen hp j _ hold hmem
      · rw [h.isLiveOn_eq_false hp] at hlive
        cases hlive

theorem Single.zero_step (h : w.Single c request) (hw : w.hub.Tidy) (hm : w.Serving c request m)
    (he : Effect w m w')
    (hfresh : ∀ k r, w'.hub.task k = .replay r → r.connection = c → r.stage.isFresh = true) :
    (w'.hub.subscriber c).lastEventId = 0 := by
  have hbefore : ∀ k r, w.hub.task k = .replay r → r.connection = c →
      r.stage.isFresh = true := by
    intro k r hk hr
    rcases he.replay_next hw hk with hk' | ⟨purpose, a, -, -, hk'⟩ | ⟨stage, s, -, hn, hk'⟩
    · exact hfresh k r hk' hr
    · cases hfresh k _ hk' hr
    · exact (Replay.isFresh_of_next hn (hfresh k _ hk' hr)).1
  have hzero := h.zero hbefore
  have hp : (w.hub.subscriber c).phase ≠ .live := by
    intro hp
    obtain ⟨k, r, hk, hr, hs⟩ := h.ended hp
    have hf := hbefore k r hk hr
    rw [hs] at hf
    cases hf
  cases he.touches c with
  | alike ha => rw [ha.lastEventId, hzero]
  | replay ht hr _ hn ht' =>
      rw [(Replay.isFresh_of_next hn (hfresh _ _ ht' hr)).2, hzero]
  | tick ht =>
      refine absurd ?_ (h.unseen hp _ _ ht)
      exact List.mem_append_right _ List.mem_cons_self
  | offer => exact absurd rfl hm.untargeted

theorem single_step (h : w.Single c request) (hw : w.hub.Tidy) (hwith : w.Withheld)
    {cursor : Instant} (hseen : request.lastSeen = some cursor) (hm : w.Serving c request m)
    (he : Effect w m w') (ha : w.Attached c) (ha' : (w'.hub.subscriber c).cancelled = false) :
    w'.Single c request := by
  have ht := h.turns hw he ha ha'
  exact ⟨fun i j r q => h.one_step hw hm he, fun k r => h.smooth_step hw hseen hm he ha ha',
    h.zero_step hw hm he, h.subscribed_step hwith ht, h.off_step ht, h.ended_step hw he ht,
    fun hp j stage => h.unseen_step he ht hp⟩

end Step

/-! ### A whole run -/

theorem single_of_unopened {c : ConnectionId} {w : World} (hw : w.hub.Tidy)
    (hc : w.hub.opened ≤ c) (request : Subscription) : w.Single c request := by
  have ha := hw.unopened c hc
  have hnone : ∀ k r, w.hub.task k = .replay r → r.connection ≠ c := by
    rintro k r hk rfl
    exact Nat.not_lt.mpr hc (hw.replays k r hk)
  have hphase : (w.hub.subscriber c).phase = .idle := ha.phase
  refine ⟨fun i _ r _ hi _ hr _ => absurd hr (hnone i r hi), fun k r hk hr =>
    absurd hr (hnone k r hk), fun _ => ha.lastEventId, fun hp => absurd hphase hp,
    fun _ => .inl ha.channels, fun hp => ?_, fun _ j stage hj hpicked => ?_⟩
  · rw [hphase] at hp
    cases hp
  · exact Nat.not_lt.mpr hc (hw.ticks j stage hj c (Tick.mem_connections_of_mem_picked hpicked))

section Run

variable {capacity replays : Nat} {start : Instant} {past : List (World × Move)} {w : World}
  {c : ConnectionId} {request : Subscription}

theorem possible_of_serving (run : Run (Serving c request) (.new capacity replays start) past w) :
    Run Possible (.new capacity replays start) past w :=
  run.mono fun _ _ h => h.possible

theorem single_of_run (run : Run (Serving c request) (.new capacity replays start) past w)
    {cursor : Instant} (hseen : request.lastSeen = some cursor)
    (hattached : ∀ v, Visited past w v → v.Attached c) : w.Single c request := by
  induction run with
  | nil => exact single_of_unopened (Hub.tidy_new capacity replays start) (Nat.zero_le c) request
  | @cons past w m run hm ih =>
      have hposs := possible_of_serving run
      have hw := tidy_of_run hposs
      by_cases hc : c < (w.apply m).hub.opened
      · have hlast := hattached _ (.inl rfl) hc
        exact single_step (ih fun v hv => hattached v hv.cons) hw (withheld_of_run hposs) hseen hm
          (effect hw hm.possible) (hattached w (Visited.cons (.inl rfl))) hlast.2.1
      · exact single_of_unopened (tidy_apply hw hm.possible) (Nat.not_lt.mp hc) request

end Run

end World

end EventStream
