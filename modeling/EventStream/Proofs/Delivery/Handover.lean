import EventStream.Proofs.Delivery.Ascending
import EventStream.Proofs.World.Halved

/-! A tick and the hand-overs of a connection. The tick announces before it looks at the
connection, and a hand-over reads what has been announced and decides under the lock that the
tick needs to look: so the tick finds the connection live, or the hand-over finds the batch. -/

namespace EventStream

namespace Task

/-- The tick has looked at the connection, if it was to look at it at all. -/
def hasLookedAt (c : ConnectionId) : Task → Bool
  | .tick (.picking _ unseen _) => !unseen.contains c
  | .tick (.broadcasting ..) => true
  | _ => false

/-- The connections that a tick has found live and will send its batch to. -/
def snapshot : Task → List ConnectionId
  | .tick (.picking _ _ live) => live
  | .tick (.broadcasting _ _ live _) => live
  | _ => []

/-- The events that a tick has found. -/
def batch : Task → List Event
  | .tick stage => stage.batch
  | .replay _ => []

/-- The connection with which a replay is about to begin. -/
def begins? : Task → Option ConnectionId
  | .replay { connection, stage := .admitted, .. } => some connection
  | _ => none

end Task

namespace Replay

/-- A replay that has not begun, and does not begin, leaves its subscriber as it is. -/
theorem eq_of_next {announced : Int} {request : Subscription} {stage stage' : Stage}
    {s t : Subscriber} (hn : Next announced request stage s stage' t)
    (hb : stage.hasBegun = false) (hne : stage ≠ .admitted) :
    t = s ∧ stage'.hasBegun = false := by
  cases hn with
  | drop => exact ⟨rfl, rfl⟩
  | arrive => exact ⟨rfl, rfl⟩
  | lock => exact ⟨rfl, rfl⟩
  | grant => exact ⟨rfl, rfl⟩
  | begin => exact absurd rfl hne
  | beginFresh => exact absurd rfl hne
  | _ => cases hb

end Replay

namespace Tick

/-- A tick that looks at a live connection picks it. -/
theorem mem_snapshot_of_next {h : Hub} {stage stage' : Stage} {checkpoint : Checkpoint}
    {subscriber : ConnectionId → Subscriber} (hn : Next h stage stage' checkpoint subscriber)
    {c : ConnectionId} (hlive : (h.subscriber c).isLiveOn .systemEvents = true)
    (hreg : c ∈ h.registry)
    (hs : (Task.tick stage).hasLookedAt c = true → c ∈ (Task.tick stage).snapshot)
    (hl : (Task.tick stage').hasLookedAt c = true) : c ∈ (Task.tick stage').snapshot := by
  cases hn with
  | announce => simp [Task.hasLookedAt, hreg] at hl
  | announceNone => simp [Task.hasLookedAt, hreg] at hl
  | @pick batch d unseen live =>
      by_cases hcd : c = d
      · exact List.mem_append_right _ (List.mem_singleton.mpr hcd)
      · refine List.mem_append_left _ (hs ?_)
        simpa [Task.hasLookedAt, hcd] using hl
  | @passOver batch d unseen live hoff =>
      by_cases hcd : c = d
      · subst hcd
        rw [hlive] at hoff
        cases hoff
      · refine hs ?_
        simpa [Task.hasLookedAt, hcd] using hl
  | fanOut => exact hs rfl
  | offer => exact hs rfl
  | offerNone => exact hs rfl
  | mark => exact hs rfl
  | _ => cases hl

end Tick

namespace World

/-- A connection that is live for good, and that the tick `j` has not looked at in vain. -/
structure StaysLive (j : TaskId) (c : ConnectionId) (w : World) : Prop where
  live : (w.hub.subscriber c).isLiveOn .systemEvents = true
  idle : ∀ k r, w.hub.task k = .replay r → r.connection = c → r.stage.hasBegun = false
  picked : (w.hub.task j).hasLookedAt c = true → c ∈ (w.hub.task j).snapshot

theorem staysLive_step {j : TaskId} {c : ConnectionId} {w w' : World} {m : Move}
    (h : w.StaysLive j c) (he : Effect w m w') (hreg : c ∈ w.hub.registry)
    (hbegin : ∀ k ∈ m.advanced?, (w.hub.task k).begins? ≠ some c) : w'.StaysLive j c := by
  have hadmitted : ∀ {k : TaskId} {r : Replay}, m.advanced? = some k → w.hub.task k = .replay r →
      r.connection = c → r.stage ≠ .admitted := by
    rintro k ⟨d, request, stage⟩ hm ht rfl rfl
    exact hbegin k hm (by rw [ht]; rfl)
  have hkeep : ∀ {s : Subscriber}, s.phase = (w.hub.subscriber c).phase →
      s.channels = (w.hub.subscriber c).channels → s.isLiveOn .systemEvents = true := by
    intro s hp hc
    simpa only [Subscriber.isLiveOn, Subscriber.isSubscribed, hp, hc] using h.live
  refine ⟨?_, fun k r hk hr => ?_, ?_⟩
  · cases he.touches c with
    | alike ha => exact hkeep ha.phase ha.channels
    | replay ht hr _ hn =>
        have hsame := (Replay.eq_of_next hn (h.idle _ _ ht hr) (hadmitted rfl ht hr)).1
        rw [hsame]
        exact h.live
    | tick _ _ _ ho => exact hkeep ho.phase.1 ho.phase.2
    | offer _ _ ho => exact hkeep ho.phase.1 ho.phase.2
  · have hc := he.came k
    rw [hk] at hc
    cases hc with
    | stays _ ht => exact h.idle k r ht hr
    | subscribes => rfl
    | @answersReplay q purpose a ht hs =>
        have hb := h.idle k q ht hr
        rw [hs] at hb
        cases hb
    | @movesReplay q stage s ht hn =>
        exact (Replay.eq_of_next hn (h.idle k q ht hr) (hadmitted rfl ht hr)).2
  · have hc := he.came j
    generalize w'.hub.task j = t at hc
    cases hc with
    | stays _ ht => exact ht ▸ h.picked
    | movesTick ht hn => exact Tick.mem_snapshot_of_next hn h.live hreg (ht ▸ h.picked)
    | _ =>
        intro hlooked
        cases hlooked

end World

namespace Halved

open World (Move)

/-- What concluding the connection's hand-over will come to. -/
def outcome? (x : Halved) (c : ConnectionId) :
    Option (Except Outbound.Refusal Subscriber.Standing) :=
  match x.lock c with
  | some (k, announced) =>
    match x.world.hub.task k with
    | .replay r =>
      some ((x.world.hub.subscriber c).handOver announced .reconciled
        (.subscriptionConfirmed r.request.channel)).2
    | .tick _ => none
  | none => none

/-- The connection stays registered, and no replay begins with it. -/
structure Undisturbed (c : ConnectionId) (x : Halved) (a : Act) : Prop extends Allowed x a where
  registered : c ∈ x.world.hub.registry
  unbegun : ∀ k ∈ a.advanced?, (x.world.hub.task k).begins? ≠ some c

instance (c : ConnectionId) (x : Halved) (a : Act) : Decidable (Undisturbed c x a) :=
  decidable_of_iff (x.Allowed a ∧ c ∈ x.world.hub.registry ∧
      ∀ k ∈ a.advanced?, (x.world.hub.task k).begins? ≠ some c)
    ⟨fun ⟨ha, hr, hu⟩ => ⟨ha, hr, hu⟩, fun h => ⟨h.toAllowed, h.registered, h.unbegun⟩⟩

section Step

variable {x y : Halved} {a : Act} {c : ConnectionId}

theorem outcome?_eq {k : TaskId} {announced : Int} {r : Replay}
    (hl : x.lock c = some (k, announced)) (ht : x.world.hub.task k = .replay r) :
    x.outcome? c = some ((x.world.hub.subscriber c).handOver announced .reconciled
      (.subscriptionConfirmed r.request.channel)).2 := by
  simp only [outcome?, hl, ht]

/-- What a hand-over leaves that goes live. -/
theorem conclude_of_live {h : Hub} {k : TaskId} {announced : Int} {request : Subscription}
    {cursor floor : Instant} (ht : h.task k = .replay ⟨c, request, .reconciling cursor floor⟩)
    (hlive : ((h.subscriber c).handOver announced .reconciled
      (.subscriptionConfirmed request.channel)).2 = .ok .live) :
    (h.conclude k announced).subscriber c =
        ((h.subscriber c).accept (.subscriptionConfirmed request.channel)).withPhase .live ∧
      (h.conclude k announced).task = update h.task k (.replay ⟨c, request, .ended⟩) := by
  obtain ⟨hle, -⟩ := Subscriber.le_of_handOver_reconciled rfl hlive
  rcases Subscriber.handOver_reconciled_of_le hle (.subscriptionConfirmed request.channel) with
    hp | ⟨t, e, hp, -⟩
  · simp only [Hub.conclude, ht, hp]
    exact ⟨update_self .., rfl⟩
  · rw [hp] at hlive
    cases hlive

theorem staysLive_step {j : TaskId} (h : x.world.StaysLive j c) (hu : Undisturbed c x a)
    (hy : Acted x a y) : y.world.StaysLive j c := by
  cases hy with
  | move hm hh he => exact World.staysLive_step h he hu.registered hu.unbegun
  | read hk => exact h
  | @conclude d k read hl hk =>
      obtain ⟨request, cursor, floor, ht⟩ := Task.handsOver?_eq_some.mp hk
      have hnext : World.StaysLive j c ((x.world.onHub (·.conclude k read)).seeing read) := by
        refine World.staysLive_step (w := x.world.seeing read) ⟨h.live, h.idle, h.picked⟩
          (World.effect_conclude read hk) hu.registered fun i hi => ?_
        cases hi
        change (x.world.hub.task k).begins? ≠ some c
        rw [ht]
        intro hbegins
        cases hbegins
      exact ⟨hnext.live, hnext.idle, hnext.picked⟩

/-- A hand-over that has gone live leaves no other replay that has begun. -/
theorem staysLive_of_live {j : TaskId} (hs : x.Sound)
    (hlive : x.outcome? c = some (.ok .live))
    (hj : (x.world.hub.task j).hasLookedAt c = false) :
    (x.apply (.conclude c)).world.StaysLive j c := by
  obtain ⟨k, read, hl⟩ : ∃ k read, x.lock c = some (k, read) := by
    cases hl : x.lock c with
    | none => simp [outcome?, hl] at hlive
    | some holder => exact ⟨holder.1, holder.2, rfl⟩
  obtain ⟨request, cursor, floor, ht⟩ := Task.handsOver?_eq_some.mp (hs.held c k read hl)
  rw [outcome?_eq hl ht] at hlive
  obtain ⟨hworld, htask⟩ := conclude_of_live ht (Option.some.inj hlive)
  rw [apply_conclude hl]
  refine ⟨?_, fun i r hi hr => ?_, ?_⟩
  · change (((x.world.hub.conclude k read).subscriber c).isLiveOn .systemEvents) = true
    have hsub := hs.sane.subscribed k _ ht rfl
    rw [hworld]
    simpa [Subscriber.isLiveOn, Subscriber.isSubscribed, Phase.isReplaying, Subscriber.withPhase,
      Subscriber.accept] using hsub
  · change (x.world.hub.conclude k read).task i = _ at hi
    rw [htask] at hi
    rcases eq_or_of_update_eq hi with ⟨-, hended⟩ | ⟨hik, hi⟩
    · cases hended
      rfl
    · refine Bool.eq_false_iff.mpr fun hb => hik ?_
      exact hs.sane.locked.unique hi ht (Replay.Stage.holdsLock_of_hasBegun hb) rfl hr
  · change ((x.world.hub.conclude k read).task j).hasLookedAt c = true → _
    intro hlooked
    rw [htask] at hlooked
    by_cases hjk : j = k
    · subst hjk
      rw [update_self] at hlooked
      cases hlooked
    · rw [update_of_ne _ _ hjk, hj] at hlooked
      cases hlooked

/-- Whoever holds the connection's lock has read that ids up to `least` have been announced. -/
structure Beyond (c : ConnectionId) (least : Int) (x : Halved) : Prop where
  announced : least ≤ x.world.hub.checkpoint.announced
  read : ∀ k announced, x.lock c = some (k, announced) → least ≤ announced

theorem beyond_step {least : Int} (h : x.Beyond c least) (hy : Acted x a y) :
    y.Beyond c least := by
  cases hy with
  | move hm hh he => exact ⟨Int.le_trans h.announced he.announced_le, h.read⟩
  | @read k d hk =>
      refine ⟨h.announced, fun i announced hl => ?_⟩
      rcases eq_or_of_update_eq hl with ⟨-, hlock⟩ | ⟨-, hl⟩
      · cases hlock
        exact h.announced
      · exact h.read i announced hl
  | @conclude d k read hd hk =>
      refine ⟨?_, fun i announced hl => ?_⟩
      · change least ≤ (x.world.hub.conclude k read).checkpoint.announced
        rw [Hub.checkpoint_conclude]
        exact h.announced
      · rcases eq_or_of_update_eq hl with ⟨-, hlock⟩ | ⟨-, hl⟩
        · cases hlock
        · exact h.read i announced hl

theorem outcome?_of_beyond {least : Int} (hs : x.Sound) (h : x.Beyond c least)
    (hid : (x.world.hub.subscriber c).lastEventId < least) {k : TaskId} {announced : Int}
    (hl : x.lock c = some (k, announced)) :
    x.outcome? c = some (.ok (.behind announced)) ∧ least ≤ announced := by
  have hle := h.read k announced hl
  obtain ⟨request, cursor, floor, ht⟩ := Task.handsOver?_eq_some.mp (hs.held c k announced hl)
  rw [outcome?_eq hl ht, Subscriber.handOver_reconciled_of_lt (Int.lt_of_lt_of_le hid hle)]
  exact ⟨rfl, hle⟩

/-- Also by halves, ticks have announced what they offer. -/
theorem ascending_step (h : x.world.Ascending) (hy : Acted x a y) : y.world.Ascending := by
  cases hy with
  | move hm hh he => exact World.ascending_step h he
  | read hk => exact h
  | @conclude d k read hl hk =>
      obtain ⟨request, cursor, floor, ht⟩ := Task.handsOver?_eq_some.mp hk
      have hbefore : ∀ j stage, (x.world.hub.conclude k read).task j = .tick stage →
          x.world.hub.task j = .tick stage := by
        intro j stage hj
        have hc := (World.effect_conclude read hk).came j
        generalize ht' : ((x.world.onHub (·.conclude k read)).seeing read).hub.task j = t at hc
        cases hj.symm.trans ht'
        cases hc with
        | stays _ hsame => exact hsame
        | movesTick htick => cases htick.symm.trans ht
      refine ⟨fun j stage hj => h.sound j stage (hbefore j stage hj), fun j stage hj ha => ?_⟩
      change ∀ e ∈ stage.batch, e.id ≤ (x.world.hub.conclude k read).checkpoint.announced
      rw [Hub.checkpoint_conclude]
      exact h.announced j stage (hbefore j stage hj) ha

end Step

section Run

variable {capacity replays : Nat} {start : Instant} {y : Halved}

theorem ascending_of_reaches (run : Reaches Allowed (.whole (.new capacity replays start)) y) :
    y.Sound ∧ y.world.Ascending := by
  have hnil : World.Run World.Possible (.new capacity replays start) [] _ := .nil
  exact run.preserves (P := fun x => x.world.Ascending) (fun _ _ => id)
    (fun _ _ hy h => ascending_step h hy) (sound_whole capacity replays start)
    (World.ascending_of_run hnil)

/-- No batch falls between a hand-over and a tick, whatever else goes on, and even if the tick
announces the batch in the middle of the hand-over. A connection that has gone live before the
tick looks at it is in the tick's snapshot. And once the tick has looked at it, a hand-over finds
itself behind by each event of the batch that is beyond the gate. -/
theorem mem_snapshot_or_behind
    (run : Reaches Allowed (.whole (.new capacity replays start)) y) (c : ConnectionId)
    (j : TaskId) :
    (y.outcome? c = some (.ok .live) → (y.world.hub.task j).hasLookedAt c = false →
      ∀ x, Reaches (Undisturbed c) (y.apply (.conclude c)) x →
        (x.world.hub.task j).hasLookedAt c = true → c ∈ (x.world.hub.task j).snapshot) ∧
    (y.Allowed (.move (.advance j)) → (y.world.hub.task j).check? = some c →
      ∀ e ∈ (y.world.hub.task j).batch, ∀ x, Reaches Allowed (y.apply (.move (.advance j))) x →
        (x.world.hub.subscriber c).lastEventId < e.id →
          ∀ k announced, x.lock c = some (k, announced) →
            x.outcome? c = some (.ok (.behind announced)) ∧ e.id ≤ announced) := by
  obtain ⟨hs, hascending⟩ := ascending_of_reaches run
  constructor
  · intro hlive hj x hrun
    have hl : (y.lock c).isSome = true := by
      cases hl : y.lock c with
      | none => simp [outcome?, hl] at hlive
      | some holder => rfl
    have hnext := sound_step hs (acted hs (allowed_conclude hl))
    exact (hrun.preserves (P := fun x => x.world.StaysLive j c) (fun _ _ hu => hu.toAllowed)
      (fun _ hu hy h => staysLive_step h hu hy) hnext (staysLive_of_live hs hlive hj)).2.picked
  · intro hallowed hcheck e he x hrun hid k announced hl
    obtain ⟨batch, unseen, live, ht⟩ := Task.check?_eq_some.mp hcheck
    rw [ht] at he
    have hannounced := hascending.announced j _ ht rfl e he
    have hfree : y.lock c = none := hallowed.unlocked c (by
      change c ∈ (y.world.hub.task j).locks?
      rw [ht]
      rfl)
    have hbeyond : y.Beyond c e.id := ⟨hannounced, fun _ _ hsome => by
      rw [hfree] at hsome
      cases hsome⟩
    have hacted := acted hs hallowed
    obtain ⟨hsx, hx⟩ := hrun.preserves (P := Beyond c e.id) (fun _ _ => id)
      (fun _ _ hy h => beyond_step h hy) (sound_step hs hacted) (beyond_step hbeyond hacted)
    exact outcome?_of_beyond hsx hx hid hl

end Run

/-- A replay is about to hand over, and a tick to announce an event. -/
def handingOver : List Move :=
  [Move.connect, .subscribe 0 ⟨.systemEvents, some .epoch⟩] ++ List.replicate 5 (Move.advance 0) ++
  [Move.answer 0 (.ok [])] ++ List.replicate 3 (Move.advance 0) ++
  [Move.append (World.policyAt 100000), .startTick, .advance 1,
    .answer 1 (.ok [(World.policyAt 100000).event 1]), .advance 1]

/-- The tick that announces in the middle of the hand-over finds the connection live. If it comes
to look before the hand-over, that finds itself behind. -/
theorem mem_snapshot_of_announcedInHandover :
    let before := whole ((World.new 8 8 .epoch).applyAll handingOver)
    let live := ((before.apply (.read 0)).apply (.move (.advance 1))).apply (.conclude 0)
    let passed := (before.apply (.move (.advance 1))).apply (.move (.advance 1))
    0 ∈ ((live.apply (.move (.advance 1))).world.hub.task 1).snapshot ∧
      (passed.apply (.read 0)).outcome? 0 = some (.ok (.behind 1)) := by
  intro before live passed
  have reach : Reaches Allowed (.whole (.new 8 8 .epoch)) before :=
    reaches_of_run (World.Follows.run (by decide +kernel) .nil)
  have hread : before.Allowed (.read 0) := by decide +kernel
  have hbetween : (before.apply (.read 0)).Allowed (.move (.advance 1)) := by decide +kernel
  have hannounce : before.Allowed (.move (.advance 1)) := by decide +kernel
  constructor
  · have hreach := (reach.tail ⟨_, hread, rfl⟩).tail ⟨_, hbetween, rfl⟩
    exact (mem_snapshot_or_behind hreach 0 1).1 rfl rfl _
      (.single ⟨.move (.advance 1), by decide +kernel, rfl⟩) rfl
  · have hreach := reach.tail ⟨_, hannounce, rfl⟩
    exact ((mem_snapshot_or_behind hreach 0 1).2 (by decide +kernel) rfl
      ((World.policyAt 100000).event 1) (by decide +kernel) _
      (.single ⟨.read 0, by decide +kernel, rfl⟩) (by decide +kernel) 0 1 rfl).1

end Halved

end EventStream
