import EventStream.Proofs.Delivery.Overflow
import EventStream.Proofs.Server.Waiting

/-! A connection that has been disconnected. Two things keep it silent: its replays wait, and are
dropped when they see that it is cancelled, and no tick that reads the registry from then on finds
it. A tick that has read the registry before is no longer under way: between two commands every task
waits. But a replay whose permit or answer is there may see that first, and such a one is not
silent. -/

namespace EventStream

namespace Task

/-- Not in the middle of something: about to begin, in a line, in a query or ended. -/
def isAtRest : Task → Bool
  | replay r => !r.stage.isWorking
  | tick .starting => true
  | tick (.ended _) => true
  | t => t.isInQuery

theorem isAtRest_of_isInQuery {t : Task} (h : t.isInQuery = true) : t.isAtRest = true := by
  cases t with
  | replay r =>
      obtain ⟨c, request, stage⟩ := r
      cases stage <;> first | rfl | exact h
  | tick stage => cases stage <;> first | rfl | exact h

theorem isAtRest_of_isEnded {t : Task} (h : t.isEnded = true) : t.isAtRest = true := by
  rcases eq_of_isEnded h with ⟨r, rfl⟩ | ⟨outcome, rfl⟩ <;> rfl

theorem connections_of_isAtRest {stage : Tick.Stage} (h : (tick stage).isAtRest = true) :
    stage.connections = [] := by
  cases stage <;> first | rfl | cases h

end Task

namespace Replay

/-- A replay that begins, stands in a line, takes an answer or is dropped leaves its subscriber
alone. -/
theorem subscriber_of_isWorking {announced : Int} {request : Subscription} {stage stage' : Stage}
    {s t : Subscriber} (hn : Next announced request stage s stage' t)
    (h : stage.isWorking = false) : t = s := by
  cases hn <;> first | rfl | cases h

end Replay

namespace World

/-- Connection `c` is cancelled and not registered, no tick has it in hand, and of its replays only
those work that have outrun the cancellation. -/
structure Gone (past : List (World × Move)) (c : ConnectionId) (w : World) : Prop where
  opened : c < w.hub.opened
  cancelled : (w.hub.subscriber c).cancelled = true
  unregistered : c ∉ w.hub.registry
  ticks : ∀ k stage, w.hub.task k = .tick stage → c ∉ stage.connections
  outran : ∀ k r, w.hub.task k = .replay r → r.connection = c → r.stage.isWorking = true →
    Outran past c k

section Gone

variable {past : List (World × Move)} {c : ConnectionId} {w : World} {m : Move} {k : TaskId}

theorem not_mem_registry_apply (hm : w.Possible m) (hne : m ≠ .register c) (hc : c < w.hub.opened)
    (h : c ∉ w.hub.registry) : c ∉ (w.apply m).hub.registry := by
  have hregister : ∀ d, c ≠ d → c ∉ (w.hub.register d).registry := by
    intro d hd
    simp only [Hub.register]
    split
    · exact h
    · simpa [h] using hd
  rcases registry_apply hm with heq | ⟨d, hd, heq⟩ | ⟨d, heq⟩
  · rwa [heq]
  · rw [heq]
    rcases hd with rfl | ⟨-, rfl⟩
    · exact hregister d fun heq => hne (by rw [heq])
    · exact hregister _ (Nat.ne_of_lt hc)
  · rw [heq]
    exact fun hmem => h (List.mem_filter.mp hmem).1

theorem gone_apply (hw : w.hub.Tidy) (hm : w.Possible m) (hne : m ≠ .register c)
    (h : w.Gone past c) : (w.apply m).Gone ((w, m) :: past) c where
  opened := Nat.lt_of_lt_of_le h.opened (opened_le_apply w m)
  cancelled := cancelled_apply h.opened h.cancelled
  unregistered := not_mem_registry_apply hm hne h.opened h.unregistered
  outran := outran_apply hw hm h.cancelled (fun _ => id) Replay.isWorking_of_next h.outran
  ticks := by
    intro k stage hk
    have hc := (effect hw hm).came k
    rw [hk] at hc
    cases hc with
    | stays _ ht => exact h.ticks k stage ht
    | startsTick => simp [Tick.Stage.connections]
    | answersTick => simp [Tick.Stage.connections]
    | movesTick ht hn =>
        intro hmem
        rcases Hub.mem_connections_of_next hn hmem with hmem | hmem
        · exact h.ticks k _ ht hmem
        · exact h.unregistered hmem

/-- Whatever a task does to a connection that is gone, it has outrun the cancellation. -/
theorem Gone.outran_of_ne (h : w.Gone past c)
    (hne : (w.hub.advance k).subscriber c ≠ w.hub.subscriber c) : Outran past c k := by
  cases hcan : w.hub.canAdvance k with
  | false => simp [Hub.advance, hcan] at hne
  | true =>
      cases ht : w.hub.task k with
      | replay r =>
          obtain ⟨stage, s, hn, hm, -⟩ := Hub.advance_replay ht hcan
          rw [hm.subscriber] at hne
          by_cases hr : r.connection = c
          · subst hr
            refine h.outran k r ht rfl (Bool.eq_true_of_not_eq_false fun hrest => hne ?_)
            rw [update_self]
            exact Replay.subscriber_of_isWorking hn hrest
          · exact absurd (update_of_ne _ _ (Ne.symm hr)) hne
      | tick stage =>
          obtain ⟨stage', checkpoint, subscriber, hn, heq⟩ := Hub.advance_tick ht hcan
          rw [heq] at hne
          exact absurd (Hub.subscriber_eq_of_next hn (h.ticks k stage ht)) hne

end Gone

/-- Nothing has been queued for the subscriber, and its gate, phase and channels are the same. -/
structure Untouched (s t : Subscriber) : Prop where
  accepted : t.outbound.accepted = s.outbound.accepted
  lastEventId : t.lastEventId = s.lastEventId
  phase : t.phase = s.phase
  channels : t.channels = s.channels

theorem Untouched.refl (s : Subscriber) : Untouched s s := ⟨rfl, rfl, rfl, rfl⟩

theorem Untouched.symm {s t : Subscriber} (h : Untouched s t) : Untouched t s :=
  ⟨h.accepted.symm, h.lastEventId.symm, h.phase.symm, h.channels.symm⟩

theorem Untouched.trans {s t u : Subscriber} (h : Untouched s t) (h' : Untouched t u) :
    Untouched s u :=
  ⟨h'.accepted.trans h.accepted, h'.lastEventId.trans h.lastEventId, h'.phase.trans h.phase,
    h'.channels.trans h.channels⟩

/-- Connection `c` is registered by hand. -/
def Move.registers (c : ConnectionId) : Move → Bool
  | register d => d = c
  | _ => false

/-- A frame or an event is put into the connection's queue by hand. -/
def Move.isSentTo (c : ConnectionId) : Move → Bool
  | send d _ => d = c
  | offerLive d _ _ => d = c
  | _ => false

/-- A possible move that does not register connection `c` by hand. -/
def Apart (c : ConnectionId) (w : World) (m : Move) : Prop :=
  w.Possible m ∧ m.registers c = false

instance (c : ConnectionId) (w : World) (m : Move) : Decidable (w.Apart c m) :=
  inferInstanceAs (Decidable (_ ∧ _))

theorem untouched_onSubscriber {w : World} {c d : ConnectionId} {f : Subscriber → Subscriber}
    (h : d = c → Untouched (w.hub.subscriber c) (f (w.hub.subscriber c))) :
    Untouched (w.hub.subscriber c) ((w.onSubscriber d f).hub.subscriber c) := by
  change Untouched _ (update w.hub.subscriber d _ c)
  by_cases hd : c = d
  · subst hd
    rw [update_self]
    exact h rfl
  · rw [update_of_ne _ _ hd]
    exact .refl _

/-- Whoever sends nothing to a connection that is gone does not touch it, but for a replay that has
outrun the cancellation. -/
theorem Gone.untouched {past : List (World × Move)} {c : ConnectionId} {w : World} {m : Move}
    (h : w.Gone past c) (hm : m.isSentTo c = false)
    (hspared : ∀ k, m = .advance k → Outran past c k →
      Untouched (w.hub.subscriber c) ((w.hub.advance k).subscriber c)) :
    Untouched (w.hub.subscriber c) ((w.apply m).hub.subscriber c) := by
  cases m with
  | append draft => simp only [apply, withLog]; split <;> exact .refl _
  | insertRow id row => simp only [apply, withLog]; split <;> exact .refl _
  | connect =>
      change Untouched _ (update w.hub.subscriber w.hub.opened _ c)
      rw [update_of_ne _ _ (Nat.ne_of_lt h.opened)]
      exact .refl _
  | disconnect d => exact untouched_onSubscriber fun _ => ⟨rfl, rfl, rfl, rfl⟩
  | shutdown => exact ⟨rfl, rfl, rfl, rfl⟩
  | advance k =>
      change Untouched _ ((w.hub.advance k).subscriber c)
      by_cases heq : (w.hub.advance k).subscriber c = w.hub.subscriber c
      · rw [heq]
        exact .refl _
      · exact hspared k rfl (h.outran_of_ne heq)
  | answer k a =>
      change Untouched _ ((w.hub.answer k a).subscriber c)
      rw [Hub.answer_subscriber]
      exact .refl _
  | receive d limit => exact untouched_onSubscriber fun _ => ⟨rfl, rfl, rfl, rfl⟩
  | closeReceiver d => exact untouched_onSubscriber fun _ => ⟨rfl, rfl, rfl, rfl⟩
  | send d f => exact untouched_onSubscriber fun hd => by simp [Move.isSentTo, hd] at hm
  | offerLive d id f => exact untouched_onSubscriber fun hd => by simp [Move.isSentTo, hd] at hm
  | _ => exact .refl _

/-! ### A whole run -/

/-- A replay that had outrun the cancellation has touched the connection. -/
def BrokenSilence (past : List (World × Move)) (c : ConnectionId) : Prop :=
  ∃ before after v k, past = after ++ (v, .advance k) :: before ∧ Outran before c k ∧
    ¬ Untouched (v.hub.subscriber c) ((v.hub.advance k).subscriber c)

theorem BrokenSilence.cons {past : List (World × Move)} {w : World} {m : Move} {c : ConnectionId}
    (h : BrokenSilence past c) : BrokenSilence ((w, m) :: past) c := by
  obtain ⟨before, after, v, k, rfl, h⟩ := h
  exact ⟨before, (w, m) :: after, v, k, rfl, h⟩

section Run

variable {start w : World} {past : List (World × Move)} {c : ConnectionId}

theorem possible_of_apart (run : Run (Apart c) start past w) : Run Possible start past w :=
  run.mono fun _ _ h => h.1

theorem gone_of_run (run : Run (Apart c) start past w) (hstart : start.hub.Tidy)
    (h : start.Gone [] c) : w.Gone past c := by
  induction run with
  | nil => exact h
  | cons run hm ih =>
      refine gone_apply (tidy_of_tidy (possible_of_apart run) hstart) hm.1 ?_ ih
      rintro rfl
      simpa [Move.registers] using hm.2

theorem untouched_of_run (run : Run (Apart c) start past w) (hstart : start.hub.Tidy)
    (h : start.Gone [] c) (hunsent : ∀ p ∈ past, p.2.isSentTo c = false)
    (hnone : ¬ BrokenSilence past c) :
    ∀ v, Visited past w v → Untouched (start.hub.subscriber c) (v.hub.subscriber c) := by
  induction run with
  | nil =>
      rintro v (rfl | ⟨m, hm⟩)
      · exact .refl _
      · cases hm
  | @cons past w m run hm ih =>
      have hbefore := ih (fun p hp => hunsent p (List.mem_cons_of_mem _ hp)) fun hb => hnone hb.cons
      intro v hv
      rcases visited_cons_iff.mp hv with rfl | hv
      · refine (hbefore w (.inl rfl)).trans ?_
        refine (gone_of_run run hstart h).untouched (hunsent _ List.mem_cons_self) ?_
        rintro k rfl houtran
        exact Classical.not_not.mp fun hnot => hnone ⟨past, [], w, k, rfl, houtran, hnot⟩
      · exact hbefore v hv

theorem not_brokenSilence_of_untouched (run : Run (Apart c) start past w)
    (h : ∀ v, Visited past w v → Untouched (start.hub.subscriber c) (v.hub.subscriber c)) :
    ¬ BrokenSilence past c := by
  rintro ⟨before, after, v, k, rfl, -, hnot⟩
  have hmem : (v, .advance k) ∈ after ++ (v, .advance k) :: before :=
    List.mem_append_right _ List.mem_cons_self
  exact hnot ((h v (.inr ⟨_, hmem⟩)).symm.trans (h _ (run.visited_apply hmem)))

end Run

/-! ### Outrunning the cancellation -/

section Outruns

variable {w : World} {c : ConnectionId} {k : TaskId}

/-- It takes its own next step. -/
theorem Outruns.advance_eq (h : w.Outruns c k) {r : Replay} (hk : w.hub.task k = .replay r) :
    w.hub.advance k = w.hub.advanceReplay k r := by
  obtain ⟨q, hq, rfl, hpending, hcancel, hdrop⟩ := h
  cases hk.symm.trans hq
  have hcancelled : w.hub.isCancelled r = true := by
    simp only [Hub.isCancelled, hcancel, Bool.and_true]
    generalize r.stage = stage at hpending
    cases stage <;> first | rfl | cases hpending
  exact Hub.advance_of_isServed hk (Hub.isServed_of_isCancelled hcancelled hdrop) hdrop

/-- Without a cursor, two steps lead from the permit to the hand-over. -/
theorem subscriber_of_admitted {request : Subscription}
    (hk : w.hub.task k = .replay ⟨c, request, .admitted⟩) (hfresh : request.lastSeen = none) :
    ∃ announced, ((w.applyAll (List.replicate 2 (.advance k))).hub.subscriber c) =
      (((w.hub.subscriber c).beginReplay request.channel).handOver announced .fresh
        (.subscriptionConfirmed request.channel)).1 := by
  let v := w.apply (.advance k)
  have hbegin : v.hub = (w.hub.setSubscriber c ((w.hub.subscriber c).beginReplay
      request.channel)).setStage k ⟨c, request, .admitted⟩ (.confirming .fresh) := by
    change w.hub.advance k = _
    rw [Hub.advance_of_not_isWaiting hk rfl rfl]
    simp only [Hub.advanceReplay, hfresh]
  have hv : v.hub.task k = .replay ⟨c, request, .confirming .fresh⟩ := by
    rw [hbegin]
    exact update_self ..
  have hs : v.hub.subscriber c = (w.hub.subscriber c).beginReplay request.channel := by
    rw [hbegin]
    exact update_self ..
  refine ⟨v.hub.checkpoint.announced, ?_⟩
  change (v.hub.advance k).subscriber c = _
  rw [Hub.advance_of_not_isWaiting hv rfl rfl, ← hs]
  exact update_self ..

/-- A replay without a cursor that takes its permit although its connection is cancelled confirms
the subscription and goes live, if there is room for the confirmation. -/
theorem Outruns.confirms {request : Subscription} (h : w.Outruns c k)
    (hk : w.hub.task k = .replay ⟨c, request, .awaitingPermit⟩)
    (hfresh : request.lastSeen = none) (hroom : (w.hub.subscriber c).HasRoom) :
    let t := (w.applyAll (List.replicate 3 (.advance k))).hub.subscriber c
    t.phase = .live ∧ t.outbound.accepted =
      (w.hub.subscriber c).outbound.accepted ++ [.subscriptionConfirmed request.channel] := by
  let v := w.apply (.advance k)
  have hv : v.hub = w.hub.advanceReplay k ⟨c, request, .awaitingPermit⟩ := h.advance_eq hk
  have htask : v.hub.task k = .replay ⟨c, request, .admitted⟩ := by
    rw [hv]
    exact update_self ..
  obtain ⟨announced, hs⟩ := subscriber_of_admitted htask hfresh
  have hroom' :
      (((v.hub.subscriber c).beginReplay request.channel).skipPast announced).HasRoom := by
    rw [hv]
    exact hroom
  simp only [Subscriber.handOver, Subscriber.push_of_hasRoom hroom'] at hs
  intro t
  rw [show t = _ from hs, hv]
  exact ⟨rfl, rfl⟩

end Outruns

end World

namespace Server

variable {capacity replays : Nat} {start : Instant} {s t : Server} {c : ConnectionId}

/-- Whatever is unfinished in a server that has settled waits. -/
theorem IsSettled.isAtRest {total : Nat} (hs : s.IsSettled) (hkept : s.Kept)
    (ha : s.hub.Accounted total) (k : TaskId) : (s.hub.task k).isAtRest = true := by
  cases hne : (s.hub.task k).isEnded with
  | true => exact Task.isAtRest_of_isEnded hne
  | false =>
      cases ht : s.hub.task k with
      | tick stage =>
          have hheld := hs.isHeld_of_tick hkept (by rw [ht]; rfl) hne
          exact Task.isAtRest_of_isInQuery (ht ▸ hheld.2)
      | replay r =>
          obtain ⟨d, request, stage⟩ := r
          have hstage : stage ≠ .ended := by
            rintro rfl
            rw [ht] at hne
            cases hne
          cases hs.waits hkept ha ht hstage with
          | query hheld => exact Task.isAtRest_of_isInQuery (ht ▸ hheld.2)
          | lock hr => cases hr; rfl
          | permit hr => cases hr; rfl

/-- In a cooperative run every task is at rest when others have their turn. -/
theorem isAtRest_of_reaches (h : Reaches Cooperative (.new capacity replays start) s)
    (k : TaskId) : (s.hub.task k).isAtRest = true := by
  induction h generalizing k with
  | start => rfl
  | @move s m hs hm ih =>
      have hreach := hs.mono fun _ _ => Cooperative.possible
      obtain ⟨past, run⟩ := hreach.leads
      cases m with
      | step => exact hm.elim
      | outside m =>
          have hc := (World.effect (World.tidy_of_run run) hm.2.2).came k
          change ((s.world.apply m).hub.task k).isAtRest = true
          generalize (s.world.apply m).hub.task k = t at hc
          cases hc with
          | stays _ ht => exact ht ▸ ih k
          | subscribes | startsTick => rfl
          | answersReplay | answersTick => cases hm.2.1
          | movesReplay | movesTick => cases hm.1
      | settle =>
          have hreach' : Reaches Possible (new capacity replays start) s.settle :=
            hreach.move (m := .settle) trivial
          obtain ⟨past', run'⟩ := hreach'.leads
          exact (settle_isSettled run).isAtRest (kept_of_reaches hreach')
            (World.accounted_of_run run') k
      | _ => exact ih k

theorem gone_disconnect (hrest : ∀ k, (s.hub.task k).isAtRest = true) (hc : c < s.hub.opened) :
    (s.world.apply (.disconnect c)).Gone [] c where
  opened := hc
  cancelled := by
    change (update s.hub.subscriber c _ c).cancelled = true
    rw [update_self]
    rfl
  unregistered := by simp [World.apply, World.onHub, Hub.disconnect, Hub.deregister]
  ticks := by
    intro k stage hk
    have hnone := Task.connections_of_isAtRest (hk ▸ hrest k)
    simp [hnone]
  outran := by
    intro k r hk _ hwork
    have hr : (Task.replay r).isAtRest = true := hk ▸ hrest k
    simp [Task.isAtRest, hwork] at hr

/-- A connection is disconnected between two commands, whatever its and others' ticks and replays
wait for, and is not registered again by hand. From then on no tick takes it for live or has it in
hand, whichever queries are answered and in which order the tasks go on, and what touches it is a
replay that has outrun the cancellation. So if nothing is sent to it by hand, its queued frames,
gate, phase and subscription stay what they were just when no such replay touches it. One does that
has waited for its permit without a cursor: it confirms and goes live. -/
theorem silent_iff_not_brokenSilence {past : List (World × World.Move)} {w : World}
    (h : Reaches Cooperative (.new capacity replays start) s) (hc : c < s.hub.opened)
    (run : World.Run (World.Apart c) (s.apply (.outside (.disconnect c))).world past w) :
    c ∉ w.hub.liveConnections ∧
    (∀ k stage, w.hub.task k = .tick stage → c ∉ stage.connections) ∧
    (∀ k, (w.hub.advance k).subscriber c ≠ w.hub.subscriber c → World.Outran past c k) ∧
    ((∀ p ∈ past, p.2.isSentTo c = false) →
      ((∀ v, World.Visited past w v →
          World.Untouched (s.hub.subscriber c) (v.hub.subscriber c)) ↔
        ¬ World.BrokenSilence past c)) ∧
    (∀ k request, w.Outruns c k → w.hub.task k = .replay ⟨c, request, .awaitingPermit⟩ →
      request.lastSeen = none → (w.hub.subscriber c).HasRoom →
      let t := (w.applyAll (List.replicate 3 (.advance k))).hub.subscriber c
      t.phase = .live ∧ t.outbound.accepted =
        (w.hub.subscriber c).outbound.accepted ++ [.subscriptionConfirmed request.channel]) := by
  obtain ⟨before, hrun⟩ := (h.mono fun _ _ => Cooperative.possible).leads
  have htidy := World.tidy_apply (m := .disconnect c) (World.tidy_of_run hrun) hc
  have hstart := gone_disconnect (isAtRest_of_reaches h) hc
  have hgone : w.Gone past c := World.gone_of_run run htidy hstart
  have hcancel : World.Untouched (s.hub.subscriber c)
      ((s.world.onSubscriber c Subscriber.cancel).hub.subscriber c) :=
    World.untouched_onSubscriber (w := s.world) (f := Subscriber.cancel)
      fun _ => ⟨rfl, rfl, rfl, rfl⟩
  refine ⟨fun hmem => hgone.unregistered (List.mem_filter.mp hmem).1, hgone.ticks,
    fun k => hgone.outran_of_ne, fun hunsent => ⟨fun hsame => ?_, fun hnone v hv => ?_⟩,
    fun k request => World.Outruns.confirms⟩
  · refine World.not_brokenSilence_of_untouched run fun v hv => ?_
    exact hcancel.symm.trans (hsame v hv)
  · exact hcancel.trans (World.untouched_of_run run htidy hstart hunsent hnone v hv)

/-- A live connection. A tick has found an event, but its answer is held, and so is the history of a
replay, behind which another replay stands in line. -/
def occupied : List Move :=
  [.outside .connect, .outside (.subscribe 0 ⟨.systemEvents, none⟩), .settle,
    .outside (.append (World.policyAt 100000)), .hold "t", .outside .startTick, .settle, .hold "h",
    .outside (.subscribe 0 ⟨.systemEvents, some .epoch⟩),
    .outside (.subscribe 0 ⟨.systemEvents, none⟩), .settle]

/-- The replay whose history is held is dropped, the one behind it gets the lock and the permit and
sees them first, and the tick brings its event to its end. -/
def outrun : List World.Move :=
  [.toss true, .advance 2, .toss false] ++ List.replicate 4 (.advance 3) ++
  List.replicate 5 (.advance 1)

theorem brokenSilence_of_occupied :
    let s := (new 8 8 .epoch).applyAll occupied
    let v := (s.apply (.outside (.disconnect 0))).world
    let w := v.applyAll outrun
    s.gate.held = [("t", 1), ("h", 2)] ∧ (w.hub.task 1).isEnded = true ∧
      0 ∉ w.hub.liveConnections ∧ World.BrokenSilence (v.history [] outrun) 0 := by
  intro s v w
  have hs : Reaches Cooperative (new 8 8 .epoch) s := Follows.reaches (by decide +kernel) .start
  have hrun : World.Run (World.Apart 0) v (v.history [] outrun) w :=
    World.Follows.run (by decide +kernel) .nil
  obtain ⟨hlive, -, -, hiff, -⟩ := silent_iff_not_brokenSilence hs (by decide +kernel) hrun
  refine ⟨by decide +kernel, by decide +kernel, hlive, ?_⟩
  refine Classical.not_not.mp fun hnot => ?_
  have hphase := ((hiff (by decide +kernel)).mpr hnot w (.inl rfl)).phase
  have hne : (w.hub.subscriber 0).phase ≠ (s.hub.subscriber 0).phase := by decide +kernel
  exact hne hphase

/-- The connection is disconnected while its first replay's history is held and its second stands
in line. The second gets the lock and the permit when the first is dropped, sees them before it sees
that the connection is cancelled, confirms and goes live. -/
theorem confirmed_after_disconnect :
    let s := (new 8 8 .epoch).applyAll occupied
    let t := (s.apply (.outside (.disconnect 0))).applyAll [.draw [true, false, false], .settle]
    Reaches Cooperative (new 8 8 .epoch) s ∧
      Reaches Cooperative (s.apply (.outside (.disconnect 0))) t ∧
      (s.hub.subscriber 0).phase = .replaying ∧ (t.hub.subscriber 0).phase = .live ∧
      (t.hub.subscriber 0).outbound.accepted = (s.hub.subscriber 0).outbound.accepted ++
        [.subscriptionConfirmed .systemEvents] := by
  refine ⟨Follows.reaches (by decide +kernel) .start, Follows.reaches (by decide +kernel) .start,
    ?_, ?_, ?_⟩
  all_goals decide +kernel

end Server

end EventStream
