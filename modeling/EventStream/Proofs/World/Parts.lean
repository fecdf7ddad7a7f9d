import EventStream.Proofs.World.Effect

/-! What one move does to one task, to one subscriber and to the checkpoint. -/

namespace EventStream

open Subscriber (Alike Offer)

namespace World

/-! ### One task under a move -/

/-- How task `k` has come to what it is after a move. -/
inductive Came (w w' : World) (k : TaskId) : Move → Task → Prop where
  | stays {m t} (hm : m.answered? ≠ some k) (ht : w.hub.task k = t) : Came w w' k m t
  | subscribes {c request} (hk : k = w.hub.started) :
      Came w w' k (.subscribe c request) (.replay { connection := c, request })
  | startsTick (hk : k = w.hub.started) : Came w w' k .startTick (.tick .starting)
  | answersReplay {r purpose a} (ht : w.hub.task k = .replay r) (hs : r.stage = .asking purpose)
      (ha : MayAnswer (w.log.eventsAfter purpose.after) a) :
      Came w w' k (.answer k a) (.replay { r with stage := .answered purpose a })
  | answersTick {after a} (ht : w.hub.task k = .tick (.asking after))
      (ha : MayAnswer (w.log.eventsAfter after) a) :
      Came w w' k (.answer k a) (.tick (.answered a))
  | movesReplay {r stage s} (ht : w.hub.task k = .replay r)
      (hn : Replay.Next w.hub.checkpoint.announced r.request r.stage
        (w.hub.subscriber r.connection) stage s)
      (hm : w.hub.Moved k r stage s w'.hub)
      (hlock : r.stage = .awaitingLock → stage ≠ .ended →
        (w.hub.lockLine r.connection).head? = some k) :
      Came w w' k (.advance k) (.replay { r with stage })
  | movesTick {stage stage' checkpoint subscriber} (ht : w.hub.task k = .tick stage)
      (hn : Tick.Next w.hub stage stage' checkpoint subscriber)
      (hw : w'.hub = w.hub.Ticked k stage' checkpoint subscriber) :
      Came w w' k (.advance k) (.tick stage')

theorem Effect.came {w w' : World} {m : Move} (h : Effect w m w') (k : TaskId) :
    Came w w' k m (w'.hub.task k) := by
  have hstays : m.answered? ≠ some k → w'.hub.task k = w.hub.task k →
      Came w w' k m (w'.hub.task k) := by
    intro hm heq
    exact .stays hm heq.symm
  cases h with
  | inert hm hi => exact hstays (by simp [hm]) (by rw [hi.task])
  | relog hm => exact hstays (by simp [hm]) rfl
  | subscribe hc =>
      change Came _ _ k _ (update w.hub.task w.hub.started _ k)
      by_cases hk : k = w.hub.started
      · subst hk
        rw [update_self]
        exact .subscribes rfl
      · exact hstays (by simp [Move.answered?]) (update_of_ne _ _ hk)
  | startTick =>
      change Came _ _ k _ (update w.hub.task w.hub.started _ k)
      by_cases hk : k = w.hub.started
      · subst hk
        rw [update_self]
        exact .startsTick rfl
      · exact hstays (by simp [Move.answered?]) (update_of_ne _ _ hk)
  | @answerReplay j r purpose a ht hs ha =>
      change Came _ _ k _ (update w.hub.task j _ k)
      by_cases hk : k = j
      · subst hk
        rw [update_self]
        exact .answersReplay ht hs ha
      · exact hstays (by simpa [Move.answered?] using Ne.symm hk) (update_of_ne _ _ hk)
  | @answerTick j after a ht ha =>
      change Came _ _ k _ (update w.hub.task j _ k)
      by_cases hk : k = j
      · subst hk
        rw [update_self]
        exact .answersTick ht ha
      · exact hstays (by simpa [Move.answered?] using Ne.symm hk) (update_of_ne _ _ hk)
  | @replay j r stage s h' ht hn hm hlock =>
      change Came _ _ k _ (h'.task k)
      by_cases hk : k = j
      · subst hk
        rw [hm.task, update_self]
        exact .movesReplay ht hn hm hlock
      · exact hstays (by simp [Move.answered?]) (by rw [hm.task]; exact update_of_ne _ _ hk)
  | @tick j stage stage' checkpoint subscriber ht hn =>
      change Came _ _ k _ (update w.hub.task j _ k)
      by_cases hk : k = j
      · subst hk
        rw [update_self]
        exact .movesTick ht hn rfl
      · exact hstays (by simp [Move.answered?]) (update_of_ne _ _ hk)
  | _ => exact hstays (by simp [Move.answered?]) rfl

/-- Where a replay comes from: it was one before, or it has just been asked for. -/
theorem Effect.replay_cases {w w' : World} {m : Move} (h : Effect w m w') {k : TaskId}
    {r' : Replay} (hk : w'.hub.task k = .replay r') :
    (∃ r, w.hub.task k = .replay r ∧ r'.connection = r.connection ∧ r'.request = r.request) ∨
      k = w.hub.started ∧ ∃ c request, m = .subscribe c request ∧
        r' = { connection := c, request } := by
  have hc := h.came k
  rw [hk] at hc
  cases hc with
  | stays _ ht => exact .inl ⟨r', ht, rfl, rfl⟩
  | subscribes heq => exact .inr ⟨heq, _, _, rfl, rfl⟩
  | answersReplay ht => exact .inl ⟨_, ht, rfl, rfl⟩
  | movesReplay ht => exact .inl ⟨_, ht, rfl, rfl⟩

/-- What becomes of a replay: it stays, it is answered, or it moves by one of its rules. -/
theorem Effect.replay_next {w w' : World} {m : Move} (h : Effect w m w') (hw : w.hub.Tidy)
    {k : TaskId} {r : Replay} (hk : w.hub.task k = .replay r) :
    w'.hub.task k = .replay r ∨
      (∃ purpose a, m = .answer k a ∧ r.stage = .asking purpose ∧
        w'.hub.task k = .replay { r with stage := .answered purpose a }) ∨
      ∃ stage s, m = .advance k ∧ Replay.Next w.hub.checkpoint.announced r.request r.stage
        (w.hub.subscriber r.connection) stage s ∧ w'.hub.task k = .replay { r with stage } := by
  have hlt := hw.lt_started_of_replay hk
  have hc := h.came k
  generalize hk' : w'.hub.task k = t at hc
  cases hc with
  | stays _ ht => exact .inl (ht.symm.trans hk)
  | subscribes heq => exact absurd heq (Nat.ne_of_lt hlt)
  | startsTick heq => exact absurd heq (Nat.ne_of_lt hlt)
  | answersReplay ht hs => rw [hk] at ht; cases ht; exact .inr (.inl ⟨_, _, rfl, hs, rfl⟩)
  | answersTick ht => rw [hk] at ht; cases ht
  | movesReplay ht hn => rw [hk] at ht; cases ht; exact .inr (.inr ⟨_, _, rfl, hn, rfl⟩)
  | movesTick ht => rw [hk] at ht; cases ht

/-- A replay stays what it is but for its stage. -/
theorem Effect.replay_task {w w' : World} {m : Move} (h : Effect w m w') (hw : w.hub.Tidy)
    {k : TaskId} {r : Replay} (hk : w.hub.task k = .replay r) :
    ∃ stage, w'.hub.task k = .replay { r with stage } := by
  rcases h.replay_next hw hk with hk' | ⟨purpose, a, -, -, hk'⟩ | ⟨stage, s, -, -, hk'⟩
  · exact ⟨r.stage, hk'⟩
  · exact ⟨_, hk'⟩
  · exact ⟨stage, hk'⟩

/-- A replay is one from then on. -/
theorem replay_of_visited {capacity replays : Nat} {start : Instant} {past : List (World × Move)}
    {w v : World} (run : Run Possible (.new capacity replays start) past w)
    (hv : Visited past w v) {k : TaskId} {r : Replay} (hk : v.hub.task k = .replay r) :
    ∃ stage, w.hub.task k = .replay { r with stage } := by
  induction run with
  | nil =>
      rcases hv with rfl | ⟨m, hm⟩
      · exact ⟨r.stage, hk⟩
      · cases hm
  | cons run hm ih =>
      rcases visited_cons_iff.mp hv with rfl | hv
      · exact ⟨r.stage, hk⟩
      · obtain ⟨stage, hw⟩ := ih hv
        obtain ⟨stage', hw'⟩ := (effect (tidy_of_run run) hm).replay_task (tidy_of_run run) hw
        exact ⟨stage', hw'⟩

theorem Effect.started_le {w w' : World} {m : Move} (h : Effect w m w') :
    w.hub.started ≤ w'.hub.started := by
  cases h with
  | inert _ hi => exact Nat.le_of_eq hi.started.symm
  | subscribe => exact Nat.le_succ _
  | startTick => exact Nat.le_succ _
  | replay _ _ hm => exact Nat.le_of_eq hm.started.symm
  | _ => exact Nat.le_refl _

/-! ### One subscriber under a move -/

/-- A replay waits for its lock without touching its subscriber. -/
theorem subscriber_eq_of_not_holdsLock {announced : Int} {request : Subscription}
    {stage stage' : Replay.Stage} {s t : Subscriber}
    (hn : Replay.Next announced request stage s stage' t) (hl : stage.holdsLock = false) :
    t = s := by
  cases hn with
  | drop => rfl
  | arrive => rfl
  | lock => rfl
  | _ => cases hl

/-- How a move touches the subscriber of connection `c`: by a replay of `c` that holds the
lock, or by an event that `c` is offered while it does not replay. -/
inductive Touches (w w' : World) (c : ConnectionId) : Move → Prop where
  | alike {m} (ha : Alike (w.hub.subscriber c) (w'.hub.subscriber c)) : Touches w w' c m
  | replay {k r stage} (ht : w.hub.task k = .replay r) (hc : r.connection = c)
      (hl : r.stage.holdsLock = true)
      (hn : Replay.Next w.hub.checkpoint.announced r.request r.stage (w.hub.subscriber c) stage
        (w'.hub.subscriber c))
      (ht' : w'.hub.task k = .replay { r with stage })
      (hp : w'.hub.checkpoint = w.hub.checkpoint) : Touches w w' c (.advance k)
  | tick {k batch e rest live targets m}
      (ht : w.hub.task k = .tick (.broadcasting batch (e :: rest) live (c :: targets)))
      (hm : Message.ofEvent? e = some m)
      (hp : (w.hub.subscriber c).phase.isReplaying = false)
      (ho : Offer (w.hub.subscriber c) e.id (.event m) (w'.hub.subscriber c)) :
      Touches w w' c (.advance k)
  | offer {id f} (hf : f.message? = none) (hp : (w.hub.subscriber c).phase.isReplaying = false)
      (ho : Offer (w.hub.subscriber c) id f (w'.hub.subscriber c)) :
      Touches w w' c (.offerLive c id f)

theorem Effect.touches {w w' : World} {m : Move} (h : Effect w m w') (c : ConnectionId) :
    Touches w w' c m := by
  cases h with
  | inert _ hi => exact .alike (hi.subscriber c)
  | @replay k r stage s h' ht hn hm =>
      have hs : h'.subscriber c = update w.hub.subscriber r.connection s c := by rw [hm.subscriber]
      by_cases hc : r.connection = c
      · rw [← hc, update_self] at hs
        cases hl : r.stage.holdsLock with
        | true =>
            have ht' : h'.task k = .replay { r with stage } := by rw [hm.task, update_self]
            refine .replay ht hc hl ?_ ht' hm.checkpoint
            change Replay.Next _ _ _ _ stage (h'.subscriber c)
            rw [← hc, hs]
            exact hn
        | false =>
            refine .alike ?_
            change Alike _ (h'.subscriber c)
            rw [← hc, hs, subscriber_eq_of_not_holdsLock hn hl]
            exact .refl _
      · refine .alike ?_
        change Alike _ (h'.subscriber c)
        rw [hs, update_of_ne _ _ (Ne.symm hc)]
        exact .refl _
  | @tick k stage stage' checkpoint subscriber ht hn =>
      cases hn with
      | @offer batch e rest live d targets m hm =>
          by_cases hcd : c = d
          · subst hcd
            cases hp : (w.hub.subscriber c).phase.isReplaying with
            | true =>
                refine .alike ?_
                change Alike _ (update w.hub.subscriber c _ c)
                rw [update_self, Subscriber.enqueueLive_of_isReplaying hp]
                exact .refl _
            | false =>
                refine .tick ht hm hp ?_
                change Offer _ _ _ (update w.hub.subscriber c _ c)
                rw [update_self]
                exact Subscriber.offer_enqueueLive hp e.id _
          · refine .alike ?_
            change Alike _ (update w.hub.subscriber d _ c)
            rw [update_of_ne _ _ hcd]
            exact .refl _
      | _ => exact .alike (.refl _)
  | @offerLive d id f hf =>
      by_cases hcd : c = d
      · subst hcd
        have hs : (w.onSubscriber c fun s => (s.enqueueLive id f).1).hub.subscriber c =
            ((w.hub.subscriber c).enqueueLive id f).1 := update_self ..
        cases hp : (w.hub.subscriber c).phase.isReplaying with
        | true =>
            refine .alike ?_
            rw [hs, Subscriber.enqueueLive_of_isReplaying hp]
            exact .refl _
        | false =>
            refine .offer hf hp ?_
            rw [hs]
            exact Subscriber.offer_enqueueLive hp id f
      · refine .alike ?_
        change Alike _ (update w.hub.subscriber d _ c)
        rw [update_of_ne _ _ hcd]
        exact .refl _
  | _ => exact .alike (.refl _)

/-! ### The checkpoint under a move -/

/-- Ids are announced by a tick, the greatest of its batch, or from outside. -/
theorem Effect.announced {w w' : World} {m : Move} (h : Effect w m w') :
    w'.hub.checkpoint.announced = w.hub.checkpoint.announced ∨
      (∃ k batch last, w.hub.task k = .tick (.announcing batch) ∧ batch.getLast? = some last ∧
        w'.hub.task k = .tick (.picking batch w.hub.registry []) ∧
        w'.hub.checkpoint.announced = max w.hub.checkpoint.announced last.id) ∨
      ∃ id, m = .announce id := by
  cases h with
  | inert _ hi => exact .inl (by rw [hi.checkpoint])
  | replay _ _ hm => exact .inl (congrArg Checkpoint.announced hm.checkpoint)
  | tick ht hn =>
      cases hn with
      | announce hl => exact .inr (.inl ⟨_, _, _, ht, hl, update_self .., rfl⟩)
      | close => exact .inl (Checkpoint.advanceTo_announced _ _)
      | _ => exact .inl rfl
  | advanceCursor => exact .inl (Checkpoint.advanceTo_announced _ _)
  | announce => exact .inr (.inr ⟨_, rfl⟩)
  | _ => exact .inl rfl

/-- What has been announced stays announced. -/
theorem Effect.announced_le {w w' : World} {m : Move} (h : Effect w m w') :
    w.hub.checkpoint.announced ≤ w'.hub.checkpoint.announced := by
  cases h with
  | inert _ hi => exact Int.le_of_eq (by rw [hi.checkpoint])
  | replay _ _ hm => exact Int.le_of_eq (congrArg Checkpoint.announced hm.checkpoint).symm
  | tick _ hn =>
      cases hn with
      | announce => exact Int.le_max_left ..
      | close => exact Int.le_of_eq (Checkpoint.advanceTo_announced _ _).symm
      | _ => exact Int.le_refl _
  | advanceCursor => exact Int.le_of_eq (Checkpoint.advanceTo_announced _ _).symm
  | announce => exact Int.le_max_left ..
  | _ => exact Int.le_refl _

/-- The tick `k` closes over its batch, the newest of which is of the time `newest`. -/
structure Closes (w w' : World) (k : TaskId) (batch : List Event) (newest after : Instant) :
    Prop where
  stage : ∃ live targets, w.hub.task k = .tick (.broadcasting batch [] live targets)
  latest : Hub.newest? batch = some newest
  next : newest.next? = some after
  hub : w'.hub = w.hub.Ticked k (.ended (.polled batch.length))
    (w.hub.checkpoint.advanceTo after) w.hub.subscriber

/-- The cursor moves when a tick closes, or from outside. -/
theorem Effect.after {w w' : World} {m : Move} (h : Effect w m w') :
    w'.hub.checkpoint.after = w.hub.checkpoint.after ∨
      (∃ k batch newest after, Closes w w' k batch newest after) ∨
      (∃ t, m = .resetCursor t) ∨ ∃ t, m = .advanceCursor t := by
  cases h with
  | inert _ hi => exact .inl (by rw [hi.checkpoint])
  | replay _ _ hm => exact .inl (congrArg Checkpoint.after hm.checkpoint)
  | tick ht hn =>
      cases hn with
      | close hnewest hafter =>
          exact .inr (.inl ⟨_, _, _, _, ⟨_, _, ht⟩, hnewest, hafter, rfl⟩)
      | _ => exact .inl rfl
  | resetCursor => exact .inr (.inr (.inl ⟨_, rfl⟩))
  | advanceCursor => exact .inr (.inr (.inr ⟨_, rfl⟩))
  | _ => exact .inl rfl

end World

end EventStream
