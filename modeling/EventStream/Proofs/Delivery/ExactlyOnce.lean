import EventStream.Proofs.Delivery.Tail

/-! What a connection with one subscription has been sent when it is live: each event once, but
for those that its replay was forced past and that no tick offered it in time. -/

namespace EventStream

namespace Subscription

instance (text : String) (request : Subscription) : Decidable (decode text = .ok request) :=
  decidable_of_iff ((decode text).toOption = some request)
    (by cases decode text <;> simp [Except.toOption])

theorem isWhole_of_decode {text : String} {request : Subscription} {cursor : Instant}
    (h : decode text = .ok request) (hs : request.lastSeen = some cursor) : cursor.IsWhole := by
  unfold decode at h
  simp only [bind, Except.bind, pure, Except.pure, throw, throwThe, MonadExceptOf.throw] at h
  repeat' split at h
  all_goals cases h
  · cases hs
  · next ht _ _ _ =>
    cases hs
    exact Instant.isWhole_of_ofMillis? ht

end Subscription

namespace Replay

theorem goesLive_of_next {announced : Int} {request : Subscription} {stage stage' : Stage}
    {s t : Subscriber} (hn : Next announced request stage s stage' t)
    (hsmooth : stage.isSmooth = true) (hs : s.outbound.isOpen = true) (ht : t.cancelled = false)
    (hp : s.phase ≠ .live) (hp' : t.phase = .live) :
    t.messages = s.messages ∧ t.lastEventId = s.lastEventId ∧
      ((∃ cursor floor, stage = .reconciling cursor floor ∧ announced ≤ s.lastEventId) ∨
        stage = .confirming .force) := by
  cases hn with
  | begin => cases hp'
  | beginFresh => cases hp'
  | settle => cases hp'
  | @goLive _ cursor floor hle =>
      exact ⟨(Subscriber.alike_accept s rfl).messages, rfl, .inl ⟨cursor, floor, rfl, hle⟩⟩
  | refuseHistory hrefuse => exact absurd hrefuse (not_refuses hs ht)
  | refuseGap hrefuse => exact absurd hrefuse (not_refuses hs ht)
  | refuseLive _ hrefuse => exact absurd hrefuse (not_refuses hs ht)
  | @confirm _ mode =>
      cases mode with
      | force =>
          have hmode : Subscriber.Handover.force ≠ .reconciled := by simp
          rcases Subscriber.handOver_unasked (s := s) announced hmode
            (.subscriptionConfirmed request.channel) with heq | hrefuse
          · rw [heq]
            exact ⟨(Subscriber.alike_accept s rfl).messages, rfl, .inr rfl⟩
          · exact absurd hrefuse (not_refuses hs ht)
      | _ => cases hsmooth
  | report => cases hsmooth
  | abort => cases hsmooth
  | _ => exact absurd hp' hp

end Replay

namespace World

/-- A replay of the connection is about to hand over by force, and the event has been announced
but is not behind the gate. -/
def Forces (w : World) (c : ConnectionId) (e : Event) : Prop :=
  (∃ k r, w.hub.task k = .replay r ∧ r.connection = c ∧ r.stage = .confirming .force) ∧
    (w.hub.subscriber c).lastEventId < e.id ∧ e.id ≤ w.hub.checkpoint.announced

/-- The replay of the connection was forced past the event. -/
def ForcedPast (past : List (World × Move)) (w : World) (c : ConnectionId) (e : Event) : Prop :=
  ∃ v, Visited past w v ∧ v.Forces c e

/-- A tick offered the event to the connection before a later one had passed the gate. -/
def Offered (past : List (World × Move)) (c : ConnectionId) (e : Event) : Prop :=
  ∃ v j, (v, .advance j) ∈ past ∧ (v.hub.subscriber c).lastEventId < e.id ∧
    ∃ batch rest live targets,
      v.hub.task j = .tick (.broadcasting batch (e :: rest) live (c :: targets))

section Run

variable {capacity replays : Nat} {start : Instant} {past : List (World × Move)} {w : World}
  {c : ConnectionId} {request : Subscription} {cursor : Instant}

theorem orderly_of_serving (run : Run (Serving c request) (.new capacity replays start) past w)
    (k : TaskId) : Run (Orderly k) (.new capacity replays start) past w :=
  run.mono fun _ _ h => ⟨h.toSteady, fun _ => h.ordered⟩

/-- Before the replay asks for its history nothing has passed the gate. -/
theorem opensAtZero_of_run (run : Run (Serving c request) (.new capacity replays start) past w)
    (hseen : request.lastSeen = some cursor)
    (hregular : ∀ v, Visited past w v → v.Regular start c) {k : TaskId} {r : Replay}
    (hk : w.hub.task k = .replay r) (hr : r.connection = c) {v : World}
    (hv : Visited past w v) : v.OpensAtZero k := by
  obtain ⟨past', run', hsub⟩ := run.visited hv
  have h := (served_of_run run' hseen fun u hu => hregular u (hsub u hu)).single
  unfold OpensAtZero
  split
  · next d req previous from' hv' =>
    obtain ⟨stage, hk'⟩ := replay_of_visited (possible_of_serving run) hv hv'
    rw [hk] at hk'
    cases hk'
    cases hr
    refine h.zero fun j q hj hq => ?_
    obtain rfl := h.one j k q _ hj hv' hq rfl
    rw [hj] at hv'
    cases hv'
    rfl
  · trivial

/-- What the replay has settled when it is about to go live. -/
theorem settled_of_run (run : Run (Serving c request) (.new capacity replays start) past w)
    (hseen : request.lastSeen = some cursor)
    (hregular : ∀ v, Visited past w v → v.Regular start c) {k : TaskId} {r : Replay}
    (hk : w.hub.task k = .replay r) (hr : r.connection = c)
    (hs : (∃ from' floor, r.stage = .reconciling from' floor) ∨ r.stage = .confirming .force) :
    Replay.Settled w.log cursor (fun _ => False) (fun _ => False) (w.hub.subscriber c) := by
  have hreq := ((served_of_run run hseen hregular).single.smooth k r hk hr).1
  have hzero : ∀ v, Visited past w v → v.OpensAtZero k := fun v hv =>
    opensAtZero_of_run run hseen hregular hk hr hv
  have hstands := stands_of_run (orderly_of_serving run k) hk hzero
  have hsettled : Replay.Settled w.log cursor (PassedOver past w k) (fun _ => False)
      (w.hub.subscriber c) := by
    rw [hreq, hr] at hstands
    rcases hs with ⟨from', floor, hs⟩ | hs
    · rw [hs] at hstands
      obtain rfl : cursor = from' := Option.some.inj (hseen.symm.trans hstands.1)
      exact hstands.2.1
    · rw [hs] at hstands
      obtain ⟨from', hfrom, h⟩ := hstands
      obtain rfl : cursor = from' := Option.some.inj (hseen.symm.trans hfrom)
      exact h
  have hinc := (hregular w (.inl rfl)).spaced.increasing (by omega)
  refine ⟨hsettled.gate, fun e m ho hle => ?_, fun _ hf => hf.elim, fun _ hf => hf.elim⟩
  refine .inl ((hsettled.queued e m ho hle).resolve_right ?_)
  exact not_passedOver_of_increasing (orderly_of_serving run k) hk (hreq ▸ hseen) hzero hinc ho

theorem tailing_of_run (run : Run (Serving c request) (.new capacity replays start) past w)
    (hseen : request.lastSeen = some cursor)
    (hregular : ∀ v, Visited past w v → v.Regular start c)
    (hlive : (w.hub.subscriber c).phase = .live) :
    w.Tailing (ForcedPast past w c) c cursor := by
  induction run with
  | nil => cases hlive
  | @cons past w m run hm ih =>
      have hregular' : ∀ v, Visited past w v → v.Regular start c := fun v hv => hregular v hv.cons
      have h := served_of_run run hseen hregular'
      have h' := served_of_run (.cons run hm) hseen hregular
      have he := effect h.tidy hm.possible
      have hg := grows_apply hm.appends
      by_cases hp : (w.hub.subscriber c).phase = .live
      · refine ((ih hregular' hp).step h h' hm he hp hg).mono fun e ⟨v, hv, hf⟩ => ?_
        exact ⟨v, hv.cons, hf⟩
      · cases he.touches c with
        | alike ha => exact absurd (ha.phase.symm.trans hlive) hp
        | tick _ _ _ ho => exact absurd (ho.phase.1.symm.trans hlive) hp
        | offer _ _ ho => exact absurd (ho.phase.1.symm.trans hlive) hp
        | @replay k r stage hk hr _ hn _ hcp =>
            obtain ⟨-, hsmooth⟩ := h.single.smooth k r hk hr
            have hopen := (h.attached (hr ▸ h.tidy.replays k r hk)).2.2
            have hcancel := (h'.attached (h'.tidy.lt_opened (by simp [hlive]))).2.1
            obtain ⟨hq, hid, hstage⟩ :=
              Replay.goesLive_of_next hn hsmooth hopen hcancel hp hlive
            have hsettled := settled_of_run run hseen hregular' hk hr
              (hstage.imp_left fun ⟨from', floor, hs, _⟩ => ⟨from', floor, hs⟩)
            have hgrown := hsettled.grow hg hq hid
            refine h'.tailing hgrown.gate (fun e msg ho hle => ?_) fun e msg ho hle => ?_
            · exact .inl ((hgrown.queued e msg ho hle).resolve_right id)
            · rw [hcp] at hle
              rw [hid]
              rcases hstage with ⟨-, -, -, hann⟩ | hforce
              · exact .inl (Int.le_trans hle hann)
              · by_cases hlt : (w.hub.subscriber c).lastEventId < e.id
                · exact .inr ⟨w, .cons (.inl rfl), ⟨k, r, hk, hr, hforce⟩, hlt, hle⟩
                · exact .inl (Int.not_lt.mp hlt)

/-! ### Events that the replay was forced past -/

/-- A replay that is about to hand over by force has only that left to do. -/
theorem stage_of_forcedPast (run : Run (Serving c request) (.new capacity replays start) past w)
    {e : Event} (hf : ForcedPast past w c e) :
    ∃ k r, w.hub.task k = .replay r ∧ r.connection = c ∧
      (r.stage = .confirming .force ∨ r.stage = .ended) := by
  induction run with
  | nil =>
      obtain ⟨v, rfl | ⟨m, hm⟩, ⟨k, r, hk, -⟩, -⟩ := hf
      · cases hk
      · cases hm
  | @cons past w m run hm ih =>
      obtain ⟨v, hv, hforces⟩ := hf
      rcases visited_cons_iff.mp hv with rfl | hv
      · obtain ⟨⟨k, r, hk, hr, hs⟩, -⟩ := hforces
        exact ⟨k, r, hk, hr, .inl hs⟩
      · obtain ⟨k, r, hk, hr, hs⟩ := ih ⟨v, hv, hforces⟩
        have hw := tidy_of_run (possible_of_serving run)
        have he := effect hw hm.possible
        rcases hs with hs | hs
        · rcases he.replay_next hw hk with hk' | ⟨purpose, a, -, hask, -⟩ | ⟨stage, s, -, hn, hk'⟩
          · exact ⟨k, r, hk', hr, .inl hs⟩
          · rw [hs] at hask
            cases hask
          · refine ⟨k, _, hk', hr, .inr ?_⟩
            rw [hs] at hn
            cases hn with
            | drop hw => cases hw
            | confirm => rfl
        · exact ⟨k, r, ended_stays he hw hk hs, hr, .inr hs⟩

/-- What has been announced was in the log when the replay was forced past it. -/
theorem holds_of_forcedPast (run : Run Steady (.new capacity replays start) past w) {m : Move}
    (hm : w.Steady m) {e : Event} (hf : ForcedPast past w c e) (he : (w.apply m).log.Holds e) :
    w.log.Holds e := by
  obtain ⟨v, hv, -, -, hle⟩ := hf
  obtain ⟨past', run', -⟩ := run.visited hv
  have hann := announced_le_lastId run'
  have hlast := (grows_of_visited run hv).lastId_le
  exact ((grows_apply hm.appends).holds_or_lt he).resolve_right (by omega)

/-- When the replay has only a forced hand-over left to do, an event is queued by a tick. -/
theorem Served.broadcasts_of_queued (h : w.Served start c request) {m : Move}
    (he : Effect w m (w.apply m)) (hm : m.target? ≠ some c) {k : TaskId} {r : Replay}
    (hk : w.hub.task k = .replay r) (hr : r.connection = c)
    (hs : r.stage = .confirming .force ∨ r.stage = .ended) {e : Event} {msg : Message}
    (hheld : w.log.Holds e) (hmsg : Message.ofEvent? e = some msg)
    (hold : msg ∉ (w.hub.subscriber c).messages)
    (hq : msg ∈ ((w.apply m).hub.subscriber c).messages) :
    ∃ j batch rest live targets, m = .advance j ∧ (w.hub.subscriber c).lastEventId < e.id ∧
      w.hub.task j = .tick (.broadcasting batch (e :: rest) live (c :: targets)) := by
  cases he.touches c with
  | alike ha => exact absurd (ha.messages ▸ hq) hold
  | @replay j q stage hj hqc hl hn =>
      obtain rfl := h.single.one j k q r hj hk hqc hr
      rw [hj] at hk
      cases hk
      have hforce : r.stage = .confirming .force := by
        refine hs.resolve_right fun hs => ?_
        rw [hs] at hl
        cases hl
      have hturn := hn.turn
      rw [hforce] at hturn
      cases hturn with
      | keep hmsgs => exact absurd (hmsgs ▸ hq) hold
      | queue hmem => cases hmem
  | @tick j batch x rest live targets xm hj hxm _ ho =>
      generalize hs : (w.apply (.advance j)).hub.subscriber c = s at ho hq
      cases ho with
      | stale => exact absurd hq hold
      | refused _ hrefuse =>
          exact absurd ((Subscriber.alike_of_refuses hrefuse).messages ▸ hq) hold
      | queued hlt =>
          rw [Subscriber.messages_queued] at hq
          have hxe : msg = xm := by simpa [hold] using hq
          have hid : x.id = e.id := by
            rw [← Message.id_eq_of_ofEvent? hxm, ← hxe, Message.id_eq_of_ofEvent? hmsg]
          have hxh : w.log.Holds x := h.held j x (Task.mem_events_of_eq hj)
          obtain rfl : x = e := hxh.eq_of_id_eq hheld hid
          exact ⟨j, batch, rest, live, targets, rfl, hlt, hj⟩
  | offer => exact absurd rfl hm

/-- An event that the replay was forced past is only queued when a tick offers it. -/
theorem offered_of_mem_messages
    (run : Run (Serving c request) (.new capacity replays start) past w)
    (hseen : request.lastSeen = some cursor)
    (hregular : ∀ v, Visited past w v → v.Regular start c) {e : Event} {msg : Message}
    (hheld : w.log.Holds e) (hmsg : Message.ofEvent? e = some msg) (hf : ForcedPast past w c e)
    (hq : msg ∈ (w.hub.subscriber c).messages) : Offered past c e := by
  induction run with
  | nil => cases hq
  | @cons past w m run hm ih =>
      have hregular' : ∀ v, Visited past w v → v.Regular start c := fun v hv => hregular v hv.cons
      have h := served_of_run run hseen hregular'
      have h' := served_of_run (.cons run hm) hseen hregular
      obtain ⟨v, hv, hforces⟩ := hf
      rcases visited_cons_iff.mp hv with rfl | hv
      · have hbound := (h'.gated.bounds msg hq).2
        have hid := Message.id_eq_of_ofEvent? hmsg
        have hgate := hforces.2.1
        omega
      · have hfw : ForcedPast past w c e := ⟨v, hv, hforces⟩
        have hew := holds_of_forcedPast (run.mono fun _ _ h => h.toSteady) hm.toSteady hfw hheld
        by_cases hold : msg ∈ (w.hub.subscriber c).messages
        · obtain ⟨u, j, hu, ho⟩ := ih hregular' hew hfw hold
          exact ⟨u, j, List.mem_cons_of_mem _ hu, ho⟩
        · obtain ⟨k, r, hk, hr, hs⟩ := stage_of_forcedPast run hfw
          obtain ⟨j, batch, rest, live, targets, rfl, hlt, hj⟩ :=
            h.broadcasts_of_queued (effect h.tidy hm.possible) hm.untargeted hk hr hs hew hmsg
              hold hq
          exact ⟨w, j, List.mem_cons_self, hlt, batch, rest, live, targets, hj⟩

/-- What a tick has offered in time has been queued. -/
theorem mem_messages_of_offered
    (run : Run (Serving c request) (.new capacity replays start) past w)
    (hseen : request.lastSeen = some cursor)
    (hregular : ∀ v, Visited past w v → v.Regular start c) {e : Event} {msg : Message}
    (hmsg : Message.ofEvent? e = some msg) (ho : Offered past c e) :
    msg ∈ (w.hub.subscriber c).messages := by
  induction run with
  | nil =>
      obtain ⟨v, j, hv, -⟩ := ho
      cases hv
  | @cons past w m run hm ih =>
      have hregular' : ∀ v, Visited past w v → v.Regular start c := fun v hv => hregular v hv.cons
      have h := served_of_run run hseen hregular'
      have h' := served_of_run (.cons run hm) hseen hregular
      obtain ⟨v, j, hv, hlt, batch, rest, live, targets, hj⟩ := ho
      rcases List.mem_cons.mp hv with heq | hv
      · cases heq
        have hlive : (w.hub.subscriber c).phase = .live := by
          by_cases hp : (w.hub.subscriber c).phase = .live
          · exact hp
          · refine absurd ?_ (h.single.unseen hp j _ hj)
            exact List.mem_append_right _ List.mem_cons_self
        have hcan : w.hub.canAdvance j = true := by simp [Hub.canAdvance, hj]
        obtain ⟨stage, checkpoint, subscriber, hn, hw'⟩ := Hub.advance_tick hj hcan
        rcases h.offered_cases h' hlive hn hw' hmsg with ⟨hle, -⟩ | ⟨-, hs⟩
        · omega
        · rw [hs, Subscriber.messages_queued]
          exact List.mem_append_right _ (List.mem_singleton_self _)
      · have hold := ih hregular' ⟨v, j, hv, hlt, batch, rest, live, targets, hj⟩
        cases (effect h.tidy hm.possible).turn c with
        | keep hq => rw [hq]; exact hold
        | queue _ _ _ hq => rw [hq]; exact List.mem_append_left _ hold

end Run

/-- While the history is on its way a tick announces an event that is older than the cursor, so
the replay asks for a gap in which it is owed nothing. While that answer is on its way an event
is added and announced. -/
def announcedInGap : List Move :=
  [Move.connect, .subscribe 0 ⟨.systemEvents, some (policyAt 100000).createdAt⟩] ++
  List.replicate 5 (Move.advance 0) ++
  [Move.answer 0 (.ok []), .append (policyAt 50000), .startTick, .advance 1,
    .answer 1 (.ok [(policyAt 50000).event 1])] ++
  List.replicate 6 (Move.advance 1) ++ List.replicate 5 (Move.advance 0) ++
  [Move.answer 0 (.ok []), .append (policyAt 200000), .startTick, .advance 2,
    .answer 2 (.ok [(policyAt 200000).event 2])] ++
  List.replicate 6 (Move.advance 2) ++ List.replicate 3 (Move.advance 0)

end World

end EventStream
