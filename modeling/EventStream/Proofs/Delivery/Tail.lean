import EventStream.Proofs.Delivery.Due
import EventStream.Proofs.Delivery.Gap
import EventStream.Proofs.Delivery.Single

/-! A live connection that is served its one subscription. What it has not been sent is with a
tick that still has it to offer, except for events that its replay was forced past. -/

namespace EventStream

namespace Log

/-- Every event makes a frame. -/
def Framed (log : Log) : Prop := ∀ e, log.Holds e → (Message.ofEvent? e).isSome = true

instance (log : Log) : Decidable log.Framed :=
  decidable_of_iff (∀ r ∈ log.rows, ∀ e ∈ r.event.toOption, (Message.ofEvent? e).isSome = true) (by
    constructor
    · rintro h e ⟨r, hr, he⟩
      exact h r hr e (by rw [he]; rfl)
    · intro h r hr e he
      refine h e ⟨r, hr, ?_⟩
      cases hre : r.event with
      | error failure => rw [hre] at he; cases he
      | ok d => rw [hre] at he; cases he; rfl)

end Log

namespace World

/-- Times increase by two microseconds, all events make frames, and the connection stays. -/
structure Regular (start : Instant) (c : ConnectionId) (w : World) : Prop where
  spaced : w.log.Spaced 2 start
  framed : w.log.Framed
  attached : w.Attached c

/-- What is known of each world in which connection `c` is served. -/
structure Served (start : Instant) (c : ConnectionId) (request : Subscription) (w : World) : Prop
    extends Regular start c w where
  tidy : w.hub.Tidy
  gated : (w.hub.subscriber c).Gated
  single : w.Single c request
  swept : Swept start w
  held : ∀ j e, e ∈ (w.hub.task j).events → w.log.Holds e
  announced : w.hub.checkpoint.announced ≤ w.log.lastId

theorem served_of_run {capacity replays : Nat} {start : Instant} {past : List (World × Move)}
    {w : World} {c : ConnectionId} {request : Subscription}
    (run : Run (Serving c request) (.new capacity replays start) past w) {cursor : Instant}
    (hseen : request.lastSeen = some cursor)
    (hregular : ∀ v, Visited past w v → v.Regular start c) : w.Served start c request := by
  have hsteady : Run Steady (.new capacity replays start) past w := run.mono fun _ _ h => h.toSteady
  have hposs := possible_of_steady hsteady
  have hw := hregular w (.inl rfl)
  exact ⟨hw, tidy_of_run hposs, gated_of_run hposs c,
    single_of_run run hseen fun v hv => (hregular v hv).attached, swept_of_run run hw.spaced,
    fun _ _ => holds_of_mem_events hsteady, announced_le_lastId hsteady⟩

/-- What a live connection is owed and its gate has not passed is due from a tick, as far as it
has been announced or polled; `forced` are the exceptions. -/
structure Tailing (forced : Event → Prop) (c : ConnectionId) (cursor : Instant) (w : World) :
    Prop where
  gate : (w.hub.subscriber c).lastEventId ≤ w.log.lastId
  queued : ∀ e m, w.log.Owes cursor e m → e.id ≤ (w.hub.subscriber c).lastEventId →
    m ∈ (w.hub.subscriber c).messages ∨ forced e
  polled : ∀ e m, w.log.Owes cursor e m →
    e.createdAt.micros ≤ w.hub.checkpoint.after.micros →
    e.id ≤ (w.hub.subscriber c).lastEventId ∨ forced e
  batches : ∀ j stage, w.hub.task j = .tick stage → stage.isAnnounced = true →
    ∀ e m, w.log.Owes cursor e m → e ∈ stage.batch →
    e.id ≤ (w.hub.subscriber c).lastEventId ∨ forced e ∨ e ∈ stage.due c
  announced : ∀ e m, w.log.Owes cursor e m → e.id ≤ w.hub.checkpoint.announced →
    e.id ≤ (w.hub.subscriber c).lastEventId ∨ forced e ∨
      ∃ j stage x, w.hub.task j = .tick stage ∧ x ∈ stage.due c ∧ w.log.Holds x ∧ e.id ≤ x.id

section Step

variable {start : Instant} {c : ConnectionId} {request : Subscription} {w w' : World} {m : Move}

/-- An offer to a live connection is not refused. -/
theorem Served.offer_cases (h : w.Served start c request) (h' : w'.Served start c request)
    (hlive : (w.hub.subscriber c).phase = .live) {id : Int} {f : Frame}
    (ho : Subscriber.Offer (w.hub.subscriber c) id f (w'.hub.subscriber c)) :
    id ≤ (w.hub.subscriber c).lastEventId ∧ w'.hub.subscriber c = w.hub.subscriber c ∨
      (w.hub.subscriber c).lastEventId < id ∧
        w'.hub.subscriber c = { (w.hub.subscriber c).accept f with lastEventId := id } := by
  have hlive' : (w'.hub.subscriber c).phase = .live := ho.phase.1.trans hlive
  have hopen := (h.attached (h.tidy.lt_opened (by simp [hlive]))).2.2
  have hcancel := (h'.attached (h'.tidy.lt_opened (by simp [hlive']))).2.1
  generalize w'.hub.subscriber c = s at ho hcancel
  cases ho with
  | stale hle => exact .inl ⟨hle, rfl⟩
  | queued hlt => exact .inr ⟨hlt, rfl⟩
  | refused _ hrefuse => exact absurd hrefuse (Replay.not_refuses hopen hcancel)

/-- What a move that leaves the connection live does to its gate: nothing, or a tick has queued
an event through it. -/
inductive Passes (c : ConnectionId) (w w' : World) : Prop where
  | keep (hq : (w'.hub.subscriber c).messages = (w.hub.subscriber c).messages)
      (hid : (w'.hub.subscriber c).lastEventId = (w.hub.subscriber c).lastEventId)
  | queue {k batch e rest live targets m}
      (ht : w.hub.task k = .tick (.broadcasting batch (e :: rest) live (c :: targets)))
      (hm : Message.ofEvent? e = some m) (hlt : (w.hub.subscriber c).lastEventId < e.id)
      (hq : (w'.hub.subscriber c).messages = (w.hub.subscriber c).messages ++ [m])
      (hid : (w'.hub.subscriber c).lastEventId = e.id)

theorem Served.passes (h : w.Served start c request) (h' : w'.Served start c request)
    (hm : w.Serving c request m) (he : Effect w m w')
    (hlive : (w.hub.subscriber c).phase = .live) : Passes c w w' := by
  cases he.touches c with
  | alike ha => exact .keep ha.messages ha.lastEventId
  | replay ht hr hl =>
      rw [h.single.stage_eq_ended hlive ht hr] at hl
      cases hl
  | @tick k batch e rest live targets msg ht hmsg hp ho =>
      rcases h.offer_cases h' hlive ho with ⟨-, hs⟩ | ⟨hlt, hs⟩
      · exact .keep (by rw [hs]) (by rw [hs])
      · refine .queue ht hmsg hlt ?_ (by rw [hs])
        rw [hs]
        exact Subscriber.messages_queued _ _ _
  | offer => exact absurd rfl hm.untargeted

theorem Passes.lastEventId_le (h : Passes c w w') :
    (w.hub.subscriber c).lastEventId ≤ (w'.hub.subscriber c).lastEventId := by
  cases h with
  | keep _ hid => exact Int.le_of_eq hid.symm
  | queue _ _ hlt _ hid => rw [hid]; exact Int.le_of_lt hlt

/-- A live connection is past an event when a tick has offered it. -/
theorem Served.offered_cases (h : w.Served start c request) (h' : w'.Served start c request)
    (hlive : (w.hub.subscriber c).phase = .live) {k : TaskId} {batch rest : List Event} {x : Event}
    {live targets : List ConnectionId} {stage : Tick.Stage} {checkpoint : Checkpoint}
    {subscriber : ConnectionId → Subscriber}
    (hn : Tick.Next w.hub (.broadcasting batch (x :: rest) live (c :: targets)) stage checkpoint
      subscriber)
    (hw' : w'.hub = w.hub.Ticked k stage checkpoint subscriber) {msg : Message}
    (hx : Message.ofEvent? x = some msg) :
    x.id ≤ (w.hub.subscriber c).lastEventId ∧ w'.hub.subscriber c = w.hub.subscriber c ∨
      (w.hub.subscriber c).lastEventId < x.id ∧ w'.hub.subscriber c =
        { (w.hub.subscriber c).accept (.event msg) with lastEventId := x.id } := by
  cases hn with
  | offer hmsg =>
      obtain rfl := Option.some.inj (hx.symm.trans hmsg)
      have hs : w'.hub.subscriber c =
          update w.hub.subscriber c ((w.hub.subscriber c).enqueueLive x.id (.event msg)).1 c := by
        rw [hw']
        rfl
      rw [update_self] at hs
      have ho := Subscriber.offer_enqueueLive (s := w.hub.subscriber c) (by rw [hlive]; rfl) x.id
        (.event msg)
      rw [← hs] at ho
      exact h.offer_cases h' hlive ho
  | offerNone hnone =>
      rw [hnone] at hx
      cases hx

/-- What a tick has due to a live connection stays due until the connection is past it. -/
theorem Served.due_step (h : w.Served start c request) (h' : w'.Served start c request)
    (he : Effect w m w') (hlive : (w.hub.subscriber c).phase = .live) {k : TaskId}
    {stage : Tick.Stage} (hk : w.hub.task k = .tick stage) {x : Event} (hx : x ∈ stage.due c)
    (hmsg : (Message.ofEvent? x).isSome = true) :
    (∃ stage', w'.hub.task k = .tick stage' ∧ x ∈ stage'.due c) ∨
      x.id ≤ (w'.hub.subscriber c).lastEventId := by
  have hc := he.came k
  generalize hk' : w'.hub.task k = t at hc
  cases hc with
  | stays _ ht => exact .inl ⟨stage, ht.symm.trans hk, hx⟩
  | startsTick heq =>
      subst heq
      rw [h.tidy.unstarted _ (Nat.le_refl _)] at hk
      cases hk
      cases hx
  | answersTick ht =>
      rw [ht] at hk
      cases hk
      cases hx
  | movesTick ht hn hw' =>
      rw [ht] at hk
      cases hk
      rcases Tick.mem_due_of_next hn (h.single.isLiveOn_eq_true hlive) hmsg hx with
        hx | ⟨batch, rest, live, targets, rfl⟩
      · exact .inl ⟨_, rfl, hx⟩
      · obtain ⟨msg, hmsg⟩ := Option.isSome_iff_exists.mp hmsg
        rcases h.offered_cases h' hlive hn hw' hmsg with ⟨hle, hs⟩ | ⟨-, hs⟩
        · exact .inr (by rw [hs]; exact hle)
        · exact .inr (Int.le_of_eq (by rw [hs]))
  | subscribes heq =>
      subst heq
      rw [h.tidy.unstarted _ (Nat.le_refl _)] at hk
      cases hk
      cases hx
  | answersReplay ht => rw [hk] at ht; cases ht
  | movesReplay ht => rw [hk] at ht; cases ht

/-! ### The tail under a move -/

section Tailing

variable {forced : Event → Prop} {cursor : Instant}

/-- When all that has been announced is behind the gate, so is what ticks have polled. -/
theorem Served.tailing (h : w.Served start c request)
    (hgate : (w.hub.subscriber c).lastEventId ≤ w.log.lastId)
    (hqueued : ∀ e m, w.log.Owes cursor e m → e.id ≤ (w.hub.subscriber c).lastEventId →
      m ∈ (w.hub.subscriber c).messages ∨ forced e)
    (hall : ∀ e m, w.log.Owes cursor e m → e.id ≤ w.hub.checkpoint.announced →
      e.id ≤ (w.hub.subscriber c).lastEventId ∨ forced e) : w.Tailing forced c cursor where
  gate := hgate
  queued := hqueued
  polled := by
    intro e m ho hle
    rcases h.swept.cursor with hstart | ⟨-, x, hx, hid, hxt⟩
    · have := h.spaced.start_lt ho.holds
      rw [hstart] at hle
      omega
    · exact hall e m ho (Int.le_trans (h.spaced.id_le hx ho.holds (by omega)) hid)
  batches := by
    intro j stage hj ha e m ho he
    exact (hall e m ho (h.swept.announced j stage hj ha e he)).imp_right .inl
  announced := fun e m ho hid => (hall e m ho hid).imp_right .inl

theorem Tailing.queued_step (ht : w.Tailing forced c cursor) (h : w.Served start c request)
    (hg : w.log.Grows w'.log) (hp : Passes c w w') {e : Event} {msg : Message}
    (ho : w'.log.Owes cursor e msg) (hid : e.id ≤ (w'.hub.subscriber c).lastEventId) :
    msg ∈ (w'.hub.subscriber c).messages ∨ forced e := by
  have hgate := ht.gate
  cases hp with
  | keep hq hl =>
      rw [hl] at hid
      rw [hq]
      rcases Replay.owes_of_grows ho hg with ho | hlt
      · exact ht.queued e msg ho hid
      · omega
  | @queue k batch x rest live targets m hk hm hlt hq hl =>
      rw [hl] at hid
      have hx : w.log.Holds x := h.held k x (Task.mem_events_of_eq hk)
      have hle := hx.id_le
      have ho : w.log.Owes cursor e msg :=
        (Replay.owes_of_grows ho hg).resolve_right (by omega)
      have hmsgs : ∀ n ∈ (w.hub.subscriber c).messages, n ∈ (w'.hub.subscriber c).messages := by
        intro n hn
        rw [hq]
        exact List.mem_append_left _ hn
      by_cases hold : e.id ≤ (w.hub.subscriber c).lastEventId
      · exact (ht.queued e msg ho hold).imp_left (hmsgs msg)
      · have hord := h.swept.ordered k _ hk
        obtain ⟨front, hfront⟩ := hord.2
        have hmem : x ∈ batch := by rw [← hfront]; simp
        rcases h.swept.complete k _ hk x hmem e ho.holds hid with hbatch | hpolled
        · rcases ht.batches k _ hk rfl e msg ho hbatch with hle | hf | hdue
          · exact absurd hle hold
          · exact .inr hf
          · have hleft := (Tick.mem_of_mem_due hdue).2
            have hasc := hord.1
            rw [← hfront] at hasc
            have hxs := (List.pairwise_cons.mp (List.pairwise_append.mp hasc).2.1).1
            rcases List.mem_cons.mp hleft with rfl | hrest
            · left
              rw [hq, Option.some.inj (ho.frame.symm.trans hm)]
              exact List.mem_append_right _ (List.mem_singleton_self _)
            · have := hxs e hrest
              omega
        · exact .inr ((ht.polled e msg ho hpolled).resolve_left hold)

theorem Tailing.gate_step (ht : w.Tailing forced c cursor) (h : w.Served start c request)
    (hg : w.log.Grows w'.log) (hp : Passes c w w') :
    (w'.hub.subscriber c).lastEventId ≤ w'.log.lastId := by
  refine Int.le_trans ?_ hg.lastId_le
  cases hp with
  | keep _ hl =>
      rw [hl]
      exact ht.gate
  | @queue k batch x rest live targets m hk _ _ _ hl =>
      have hx : w.log.Holds x := h.held k x (Task.mem_events_of_eq hk)
      rw [hl]
      exact hx.id_le

theorem Tailing.polled_step (ht : w.Tailing forced c cursor) (h : w.Served start c request)
    (h' : w'.Served start c request) (hm : w.Serving c request m) (he : Effect w m w')
    (hg : w.log.Grows w'.log) {e : Event} {msg : Message} (ho : w'.log.Owes cursor e msg)
    (hle : e.createdAt.micros ≤ w'.hub.checkpoint.after.micros) :
    e.id ≤ (w.hub.subscriber c).lastEventId ∨ forced e := by
  rcases h.swept.after_cases hm he h.spaced h.held with
    hsame | ⟨k, batch, newest, after, hclose, -, -, d, hd, hdh, hafter⟩
  · rw [hsame] at hle
    rcases h.swept.cursor with hstart | ⟨-, x, hx, -, hxt⟩
    · have := h'.spaced.start_lt ho.holds
      rw [hstart] at hle
      omega
    · have hid := h'.spaced.id_le (hg.holds hx) ho.holds (by omega)
      have := hx.id_le
      exact ht.polled e msg ((Replay.owes_of_grows ho hg).resolve_right (by omega)) hle
  · have hid := h'.spaced.id_le (hg.holds hdh) ho.holds (by omega)
    have := hdh.id_le
    have ho : w.log.Owes cursor e msg := (Replay.owes_of_grows ho hg).resolve_right (by omega)
    obtain ⟨live, targets, hk⟩ := hclose.stage
    rcases h.swept.complete k _ hk d hd e ho.holds hid with hbatch | hpolled
    · rcases ht.batches k _ hk rfl e msg ho hbatch with hle | hf | hdue
      · exact .inl hle
      · exact .inr hf
      · cases (Tick.mem_of_mem_due hdue).2
    · exact ht.polled e msg ho hpolled

theorem Tailing.batches_step (ht : w.Tailing forced c cursor) (h : w.Served start c request)
    (h' : w'.Served start c request) (he : Effect w m w') (hp : Passes c w w')
    (hlive : (w.hub.subscriber c).phase = .live) {k : TaskId} {stage : Tick.Stage}
    (hk : w'.hub.task k = .tick stage) (ha : stage.isAnnounced = true)
    {e : Event} {msg : Message} (ho : w'.log.Owes cursor e msg) (hin : e ∈ stage.batch) :
    e.id ≤ (w'.hub.subscriber c).lastEventId ∨ forced e ∨ e ∈ stage.due c := by
  have hframe : (Message.ofEvent? e).isSome = true := by rw [ho.frame]; rfl
  have hold : ∀ before, w.hub.task k = .tick before → e ∈ before.batch →
      before.isAnnounced = true →
      e.id ≤ (w'.hub.subscriber c).lastEventId ∨ forced e ∨ e ∈ stage.due c := by
    intro before hb hmem hann
    have hheld := h.held k e (by rw [hb]; exact Tick.Stage.mem_events_of_mem_batch hmem)
    rcases ht.batches k before hb hann e msg ⟨hheld, ho.after, ho.frame⟩ hmem with hle | hf | hdue
    · exact .inl (Int.le_trans hle hp.lastEventId_le)
    · exact .inr (.inl hf)
    · rcases h.due_step h' he hlive hb hdue hframe with ⟨stage', hk', hdue'⟩ | hle
      · rw [hk] at hk'
        cases hk'
        exact .inr (.inr hdue')
      · exact .inl hle
  have hc := he.came k
  rw [hk] at hc
  cases hc with
  | stays _ hb => exact hold stage hb hin ha
  | startsTick => cases ha
  | answersTick => cases ha
  | @movesTick before _ _ _ hb hn =>
      rcases Tick.isAnnounced_cases hn ha with hann | ⟨batch, rfl, rfl⟩
      · have hmem := (Tick.mem_batch_of_next hn (Tick.Stage.isUnderway_of_mem_batch hin)).mp hin
        exact hold before hb hmem hann
      · have hreg := (h.attached (h.tidy.lt_opened (by simp [hlive]))).1
        right
        right
        simp only [Tick.Stage.due, hreg, true_or, ite_true]
        exact hin

theorem Tailing.announced_step (ht : w.Tailing forced c cursor) (h : w.Served start c request)
    (h' : w'.Served start c request) (hm : w.Serving c request m) (he : Effect w m w')
    (hp : Passes c w w') (hlive : (w.hub.subscriber c).phase = .live) (hg : w.log.Grows w'.log)
    {e : Event} {msg : Message} (ho : w'.log.Owes cursor e msg)
    (hid : e.id ≤ w'.hub.checkpoint.announced) :
    e.id ≤ (w'.hub.subscriber c).lastEventId ∨ forced e ∨
      ∃ j stage x, w'.hub.task j = .tick stage ∧ x ∈ stage.due c ∧ w'.log.Holds x ∧
        e.id ≤ x.id := by
  have hold : e.id ≤ w.hub.checkpoint.announced → e.id ≤ (w'.hub.subscriber c).lastEventId ∨
      forced e ∨ ∃ j stage x, w'.hub.task j = .tick stage ∧ x ∈ stage.due c ∧
        w'.log.Holds x ∧ e.id ≤ x.id := by
    intro hle
    have hann := h.announced
    have ho := (Replay.owes_of_grows ho hg).resolve_right (by omega)
    rcases ht.announced e msg ho hle with hle | hf | ⟨j, stage, x, hj, hx, hxh, hex⟩
    · exact .inl (Int.le_trans hle hp.lastEventId_le)
    · exact .inr (.inl hf)
    · rcases h.due_step h' he hlive hj hx (h.framed x hxh) with ⟨stage', hj', hx'⟩ | hle
      · exact .inr (.inr ⟨j, stage', x, hj', hx', hg.holds hxh, hex⟩)
      · exact .inl (Int.le_trans hex hle)
  rcases he.announced with heq | ⟨k, batch, last, hk, hl, hk', heq⟩ | ⟨id, rfl⟩
  · rw [heq] at hid
    exact hold hid
  · by_cases hle : e.id ≤ w.hub.checkpoint.announced
    · exact hold hle
    · have hmem := List.mem_of_getLast? hl
      have hxh : w.log.Holds last := h.held k last (by rw [hk]; exact hmem)
      have hreg := (h.attached (h.tidy.lt_opened (by simp [hlive]))).1
      refine .inr (.inr ⟨k, _, last, hk', ?_, hg.holds hxh, by omega⟩)
      simp only [Tick.Stage.due, hreg, true_or, ite_true]
      exact hmem
  · cases hm.unannounced

theorem Tailing.step (ht : w.Tailing forced c cursor) (h : w.Served start c request)
    (h' : w'.Served start c request) (hm : w.Serving c request m) (he : Effect w m w')
    (hlive : (w.hub.subscriber c).phase = .live) (hg : w.log.Grows w'.log) :
    w'.Tailing forced c cursor := by
  have hp := h.passes h' hm he hlive
  refine ⟨ht.gate_step h hg hp, fun e msg => ht.queued_step h hg hp, fun e msg ho hle => ?_,
    fun k stage hk ha e msg => ht.batches_step h h' he hp hlive hk ha,
    fun e msg => ht.announced_step h h' hm he hp hlive hg⟩
  exact (ht.polled_step h h' hm he hg ho hle).imp_left fun hid =>
    Int.le_trans hid hp.lastEventId_le

theorem Tailing.mono {forced' : Event → Prop} (h : w.Tailing forced c cursor)
    (hf : ∀ e, forced e → forced' e) : w.Tailing forced' c cursor where
  gate := h.gate
  queued := fun e m ho hid => (h.queued e m ho hid).imp_right (hf e)
  polled := fun e m ho hle => (h.polled e m ho hle).imp_right (hf e)
  batches := fun j stage hj ha e m ho he =>
    (h.batches j stage hj ha e m ho he).imp_right (.imp_left (hf e))
  announced := fun e m ho hid => (h.announced e m ho hid).imp_right (.imp_left (hf e))

end Tailing

end Step

end World

end EventStream
