import EventStream.Proofs.Delivery.Announced
import EventStream.Proofs.Delivery.Round

/-! What a replay has delivered when it hands over with nothing behind. Its gap queries ask
from just below the newest event that it has seen, so an event of the gap that is older can
be passed over. -/

namespace EventStream

namespace World

/-- The log grows, ids are announced by ticks, and replay `k` is answered in their order. -/
structure Orderly (k : TaskId) (w : World) (m : Move) : Prop extends Steady w m where
  ordered : m.answered? = some k → m.found.Pairwise (·.id < ·.id)

instance (k : TaskId) (w : World) (m : Move) : Decidable (w.Orderly k m) :=
  decidable_of_iff (w.Steady m ∧ (m.answered? = some k → m.found.Pairwise (·.id < ·.id)))
    ⟨fun h => ⟨h.1, h.2⟩, fun h => ⟨h.toSteady, h.ordered⟩⟩

/-- If replay `k` is about to open its history, nothing has passed its connection's gate. -/
def OpensAtZero (w : World) (k : TaskId) : Prop :=
  match w.hub.task k with
  | .replay ⟨c, _, .opening ..⟩ => (w.hub.subscriber c).lastEventId = 0
  | _ => True

instance (w : World) (k : TaskId) : Decidable (w.OpensAtZero k) := by
  unfold OpensAtZero
  split <;> infer_instance

/-- The hand-over of a replay that has reconciled. -/
def handOver (w : World) (r : Replay) :
    Subscriber × Except Outbound.Refusal Subscriber.Standing :=
  (w.hub.subscriber r.connection).handOver w.hub.checkpoint.announced .reconciled
    (.subscriptionConfirmed r.request.channel)

/-- An answer that passes over the event has come for replay `k`. -/
def PassesOver (w : World) (k : TaskId) (e : Event) : Prop :=
  ∃ r purpose es, w.hub.task k = .replay r ∧ r.stage = .answered purpose (.ok es) ∧
    purpose.PassesOver es e

/-- A gap query of replay `k` asked only for what is newer than the event, and its answer had
an event of a later id. -/
def PassedOver (past : List (World × Move)) (w : World) (k : TaskId) (e : Event) : Prop :=
  ∃ v, Visited past w v ∧ v.PassesOver k e

theorem passedOver_cons_iff {past : List (World × Move)} {w w' : World} {m : Move} {k : TaskId}
    {e : Event} :
    PassedOver ((w, m) :: past) w' k e ↔ PassedOver past w k e ∨ w'.PassesOver k e := by
  constructor
  · rintro ⟨v, hv, hp⟩
    rcases visited_cons_iff.mp hv with rfl | hv
    · exact .inr hp
    · exact .inl ⟨v, hv, hp⟩
  · rintro (⟨v, hv, hp⟩ | hp)
    · exact ⟨v, hv.cons, hp⟩
    · exact ⟨w', .inl rfl, hp⟩

/-- Without a new answer nothing more is passed over. -/
theorem passedOver_cons_eq {past : List (World × Move)} {w w' : World} {m : Move} {k : TaskId}
    (h : ∀ e, w'.PassesOver k e → w.PassesOver k e) :
    PassedOver ((w, m) :: past) w' k = PassedOver past w k := by
  funext e
  apply propext
  rw [passedOver_cons_iff]
  exact or_iff_left_of_imp fun hp => ⟨w, .inl rfl, h e hp⟩

theorem passedOver_cons_eq_of_task {past : List (World × Move)} {w w' : World} {m : Move}
    {k : TaskId} (h : w'.hub.task k = w.hub.task k) :
    PassedOver ((w, m) :: past) w' k = PassedOver past w k := by
  apply passedOver_cons_eq
  rintro e ⟨r, purpose, es, hr, hp⟩
  exact ⟨r, purpose, es, h ▸ hr, hp⟩

theorem passedOver_cons_eq_of_stage {past : List (World × Move)} {w w' : World} {m : Move}
    {k : TaskId} {r : Replay} (hk : w'.hub.task k = .replay r)
    (hs : ∀ purpose es, r.stage ≠ .answered purpose (.ok es)) :
    PassedOver ((w, m) :: past) w' k = PassedOver past w k := by
  apply passedOver_cons_eq
  rintro e ⟨q, purpose, es, hq, hstage, -⟩
  rw [hk] at hq
  cases hq
  exact absurd hstage (hs purpose es)

/-- An answer adds to what has been passed over what it passes over itself. -/
theorem passedOver_cons_iff_of_answered {past : List (World × Move)} {w w' : World} {m : Move}
    {k : TaskId} {r : Replay} {purpose : Replay.Purpose} {es : List Event}
    (hk : w'.hub.task k = .replay r) (hs : r.stage = .answered purpose (.ok es)) (e : Event) :
    PassedOver ((w, m) :: past) w' k e ↔ PassedOver past w k e ∨ purpose.PassesOver es e := by
  rw [passedOver_cons_iff]
  refine or_congr_right ⟨?_, fun hp => ⟨r, purpose, es, hk, hs, hp⟩⟩
  rintro ⟨q, purpose', es', hq, hs', hp⟩
  rw [hk] at hq
  cases hq
  rw [hs] at hs'
  cases hs'
  exact hp

theorem not_answered_of_next {announced : Int} {request : Subscription}
    {stage stage' : Replay.Stage} {s t : Subscriber}
    (hn : Replay.Next announced request stage s stage' t) (purpose : Replay.Purpose)
    (answer : Answer) : stage' ≠ .answered purpose answer := by
  cases hn <;> simp

section Run

variable {capacity replays : Nat} {start : Instant} {past : List (World × Move)} {w : World}
  {k : TaskId}

theorem steady_of_orderly (run : Run (Orderly k) (.new capacity replays start) past w) :
    Run Steady (.new capacity replays start) past w :=
  run.mono fun _ _ h => h.toSteady

theorem not_passedOver_of_le (run : Run Possible (.new capacity replays start) past w)
    (hk : w.hub.started ≤ k) (e : Event) : ¬ PassedOver past w k e := by
  induction run with
  | nil =>
      rintro ⟨v, rfl | ⟨m, hm⟩, r, purpose, es, hr, -⟩
      · cases hr
      · cases hm
  | @cons past w m run hm ih =>
      have he := effect (tidy_of_run run) hm
      rw [passedOver_cons_iff]
      rintro (hp | ⟨r, purpose, es, hr, -⟩)
      · exact ih (Nat.le_trans he.started_le hk) hp
      · rw [(tidy_apply (tidy_of_run run) hm).unstarted k hk] at hr
        cases hr

theorem stands_of_run (run : Run (Orderly k) (.new capacity replays start) past w) {r : Replay}
    (hk : w.hub.task k = .replay r) (hzero : ∀ v, Visited past w v → v.OpensAtZero k) :
    Replay.Stands w.log (PassedOver past w k) (w.hub.subscriber r.connection) r.request
      r.stage := by
  induction run generalizing r with
  | nil => cases hk
  | @cons past w m run hm ih =>
      have hsteady := steady_of_orderly run
      have hposs := possible_of_steady hsteady
      have he := effect (tidy_of_run hposs) hm.possible
      have hg := grows_apply hm.appends
      have hann := announced_le_lastId hsteady
      have hpos : ∀ e, w.log.Holds e → 0 < e.id := fun e => id_pos_of_holds hsteady
      have hzero' : ∀ v, Visited past w v → v.OpensAtZero k := fun v hv => hzero v hv.cons
      have hopen : ∀ previous cursor, r.stage = .opening previous cursor →
          ((w.apply m).hub.subscriber r.connection).lastEventId = 0 := by
        intro previous cursor hs
        have h := hzero _ (.inl rfl)
        obtain ⟨c, request, stage⟩ := r
        cases hs
        simpa only [OpensAtZero, hk] using h
      have hc := he.came k
      rw [hk] at hc
      cases hc with
      | stays hne ht =>
          rw [passedOver_cons_eq_of_task (hk.trans ht.symm)]
          have hold := ih ht hzero'
          cases hb : r.stage.hasBegun with
          | false => exact hold.of_not_hasBegun hb
          | true =>
              rcases touches_of_hasBegun (locked_of_run hposs) (withheld_of_run hposs) ht hb he with
                ha | ⟨stage, -, ht', hn⟩
              · exact hold.grow hg ha.messages ha.lastEventId
              · rw [hk] at ht'
                obtain ⟨c, request, stage'⟩ := r
                cases ht'
                exact (Replay.stands_of_next hn hold hann hpos hopen).grow hg rfl rfl
      | @subscribes c request hstarted =>
          rw [passedOver_cons_eq_of_stage hk (by simp)]
          exact not_passedOver_of_le hposs (Nat.le_of_eq hstarted.symm)
      | @answersReplay q purpose a ht hs ha =>
          have hold := ih ht hzero'
          rw [hs] at hold
          have hb : q.stage.hasBegun = true := by rw [hs]; rfl
          rcases touches_of_hasBegun (locked_of_run hposs) (withheld_of_run hposs) ht hb he with
            hal | ⟨_, hmove, -⟩
          · cases a with
            | error failure =>
                rw [passedOver_cons_eq_of_stage hk (by simp)]
                exact ⟨hold.1, hold.2.grow hg hal.messages hal.lastEventId⟩
            | ok es =>
                have hround := hold.2.round (gated_of_run hposs q.connection) hpos
                  (fun e => mem_iff_of_mayAnswer ha) (hm.ordered rfl)
                  (passedOver_cons_iff_of_answered (m := .answer k (.ok es)) hk rfl)
                exact ⟨hold.1, hround.grow hg hal.messages hal.lastEventId⟩
          · cases hmove
      | @movesReplay q stage s ht hn hmoved hlock =>
          have hsub : (w.apply (.advance k)).hub.subscriber q.connection = s := by
            rw [hmoved.subscriber, update_self]
          rw [passedOver_cons_eq_of_stage hk fun _ _ => not_answered_of_next hn _ _]
          rw [← hsub] at hn
          exact (Replay.stands_of_next hn (ih ht hzero') hann hpos hopen).grow hg rfl rfl

/-- A replay that has opened on an untouched connection and hands over with nothing behind has
queued everything owed up to what has been announced, each event once, except for what its gap
queries have passed over. -/
theorem count_eq_one_iff_not_passedOver
    (run : Run (Orderly k) (.new capacity replays start) past w) {r : Replay}
    (hk : w.hub.task k = .replay r) {cursor from' floor : Instant}
    (hlast : r.request.lastSeen = some cursor) (hs : r.stage = .reconciling from' floor)
    (hzero : ∀ v, Visited past w v → v.OpensAtZero k) (hlive : (w.handOver r).2 = .ok .live)
    {e : Event} {m : Message} (ho : w.log.Owes cursor e m)
    (hid : e.id ≤ w.hub.checkpoint.announced) :
    (w.handOver r).1.messages.count m = 1 ↔ ¬ PassedOver past w k e := by
  have h := stands_of_run run hk hzero
  rw [hs] at h
  obtain ⟨hreq, hsettled, -⟩ := h
  obtain rfl : cursor = from' := Option.some.inj (hlast.symm.trans hreq)
  obtain ⟨hle, hmessages⟩ := Subscriber.le_of_handOver_reconciled rfl hlive
  have hgated := gated_of_run (possible_of_steady (steady_of_orderly run)) r.connection
  rw [handOver, hmessages, hgated.count_eq_one_iff]
  constructor
  · intro hm hp
    exact (hsettled.unqueued e hp ho.holds).1 m hm (Message.id_eq_of_ofEvent? ho.frame)
  · intro hp
    exact (hsettled.queued e m ho (Int.le_trans hid hle)).resolve_right hp

/-- When times increase with ids, a gap query reaches down to all that it has not covered. -/
theorem not_passedOver_of_increasing (run : Run (Orderly k) (.new capacity replays start) past w)
    {r : Replay} (hk : w.hub.task k = .replay r) {cursor : Instant}
    (hlast : r.request.lastSeen = some cursor) (hzero : ∀ v, Visited past w v → v.OpensAtZero k)
    (hinc : w.log.rows.Pairwise (·.createdAt < ·.createdAt)) {e : Event} {m : Message}
    (ho : w.log.Owes cursor e m) : ¬ PassedOver past w k e := by
  rintro ⟨v, hv, q, purpose, es, hq, hs, hp⟩
  obtain ⟨past', run', hsub⟩ := run.visited hv
  have h := stands_of_run run' hq fun u hu => hzero u (hsub u hu)
  rw [hs] at h
  cases purpose with
  | history => exact hp
  | gap from' floor delivered highWater =>
      obtain ⟨hlt, hfloor, -⟩ := hp
      obtain rfl : cursor = from' := by
        obtain ⟨stage, hk'⟩ := replay_of_visited
          (possible_of_steady (steady_of_orderly run)) hv hq
        rw [hk] at hk'
        cases hk'
        exact Option.some.inj (hlast.symm.trans h.1)
      have hcursor := ho.after
      rcases h.2.near with rfl | ⟨x, hx, hle, hx'⟩
      · omega
      · have hxw := (grows_of_visited (steady_of_orderly run) hv).holds hx
        have := Log.Holds.rel_of_pairwise hinc hxw ho.holds (by omega)
        omega

end Run

/-- While the history is on its way two events are added, an older and a newer one, and a tick
announces both. The gap is asked for from just below the history's event on. -/
def olderInGap : List Move :=
  [Move.append (policyAt 500000), .connect,
    .subscribe 0 ⟨.systemEvents, some (policyAt 50000).createdAt⟩] ++
  List.replicate 5 (Move.advance 0) ++
  [Move.answer 0 (.ok [(policyAt 500000).event 1]), .append (policyAt 300000),
    .append (policyAt 600000), .startTick, .advance 1,
    .answer 1 (.ok [(policyAt 500000).event 1, (policyAt 300000).event 2,
      (policyAt 600000).event 3])] ++
  List.replicate 8 (Move.advance 1) ++ List.replicate 6 (Move.advance 0) ++
  [Move.answer 0 (.ok [(policyAt 500000).event 1, (policyAt 600000).event 3])] ++
  List.replicate 3 (Move.advance 0)

/-- The replay of that run, about to hand over. -/
def olderInGapReplay : Replay where
  connection := 0
  request := ⟨.systemEvents, some (policyAt 50000).createdAt⟩
  stage := .reconciling (policyAt 50000).createdAt (policyAt 599999).createdAt

theorem newer_not_passedOver :
    let past := (new 8 8 .epoch).history [] olderInGap
    let w := (new 8 8 .epoch).applyAll olderInGap
    ¬ PassedOver past w 0 ((policyAt 600000).event 3) := by
  have run : Run (Orderly 0) (new 8 8 .epoch) ((new 8 8 .epoch).history [] olderInGap)
      ((new 8 8 .epoch).applyAll olderInGap) := Follows.run (by decide +kernel) .nil
  refine (count_eq_one_iff_not_passedOver run (r := olderInGapReplay) rfl rfl rfl ?_ rfl
    (m := ⟨3, none, none, .known .policyCreated, "null", (policyAt 600000).createdAt⟩)
    ⟨?_, ?_, ?_⟩ ?_).mp ?_
  · exact forall_visited_iff.mpr (by decide +kernel)
  · decide +kernel
  · decide +kernel
  · decide +kernel
  · decide +kernel
  · decide +kernel

/-- The older event is owed and announced, and the replay goes live without it. -/
theorem older_missing :
    let past := (new 8 8 .epoch).history [] olderInGap
    let w := (new 8 8 .epoch).applyAll olderInGap
    let m : Message := ⟨2, none, none, .known .policyCreated, "null", (policyAt 300000).createdAt⟩
    Run (Orderly 0) (new 8 8 .epoch) past w ∧ w.hub.task 0 = .replay olderInGapReplay ∧
      (∀ v, Visited past w v → v.OpensAtZero 0) ∧ (w.handOver olderInGapReplay).2 = .ok .live ∧
      w.log.Owes (policyAt 50000).createdAt ((policyAt 300000).event 2) m ∧
      2 ≤ w.hub.checkpoint.announced ∧ (w.handOver olderInGapReplay).1.messages.count m = 0 := by
  refine ⟨Follows.run (by decide +kernel) .nil, rfl, forall_visited_iff.mpr (by decide +kernel),
    rfl, ⟨?_, ?_, ?_⟩, ?_, ?_⟩
  · decide +kernel
  · decide +kernel
  · decide +kernel
  · decide +kernel
  · decide +kernel

end World

end EventStream
