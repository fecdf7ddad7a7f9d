import EventStream.Proofs.Log
import EventStream.Proofs.World

/-! What one move can do to a world, said once. Most moves from outside are inert: they touch
neither the log, the tasks and the checkpoint nor what subscribers have been sent. -/

namespace EventStream

open Subscriber (Alike)

theorem Task.eq_of_isEnded {t : Task} (h : t.isEnded = true) :
    (∃ r : Replay, t = .replay { r with stage := .ended }) ∨
      ∃ outcome, t = .tick (.ended outcome) := by
  cases t with
  | replay r =>
      obtain ⟨c, request, stage⟩ := r
      cases stage with
      | ended => exact .inl ⟨⟨c, request, .ended⟩, rfl⟩
      | _ => cases h
  | tick stage =>
      cases stage with
      | ended outcome => exact .inr ⟨outcome, rfl⟩
      | _ => cases h

namespace Hub

/-- Numbers that have not been given stand for nothing yet. -/
structure Tidy (h : Hub) : Prop where
  registered : ∀ c ∈ h.registry, c < h.opened
  unopened : ∀ c, h.opened ≤ c → Alike { outbound := { capacity := 0 } } (h.subscriber c)
  replays : ∀ k r, h.task k = .replay r → r.connection < h.opened
  ticks : ∀ k stage, h.task k = .tick stage → ∀ c ∈ stage.connections, c < h.opened
  unstarted : ∀ k, h.started ≤ k → h.task k = .tick (.ended (.polled 0))

theorem tidy_new (capacity replays : Nat) (start : Instant) :
    (Hub.new capacity replays start).Tidy where
  registered := by simp [Hub.new]
  unopened := fun _ _ => .refl _
  replays := by simp [Hub.new]
  ticks := by
    intro k stage hk
    cases hk
    simp [Tick.Stage.connections]
  unstarted := fun _ _ => rfl

theorem Tidy.lt_started_of_replay {h : Hub} (hh : h.Tidy) {k : TaskId} {r : Replay}
    (ht : h.task k = .replay r) : k < h.started := by
  by_cases hk : k < h.started
  · exact hk
  · rw [hh.unstarted k (Nat.not_lt.mp hk)] at ht
    cases ht

theorem Tidy.lt_started_of_tick {h : Hub} (hh : h.Tidy) {k : TaskId} {stage : Tick.Stage}
    (ht : h.task k = .tick stage) (hne : stage ≠ .ended (.polled 0)) : k < h.started := by
  by_cases hk : k < h.started
  · exact hk
  · rw [hh.unstarted k (Nat.not_lt.mp hk)] at ht
    cases ht
    exact absurd rfl hne

theorem Tidy.lt_started {h : Hub} (hh : h.Tidy) {k : TaskId}
    (hk : (h.task k).isEnded = false) : k < h.started := by
  by_cases hlt : k < h.started
  · exact hlt
  · rw [hh.unstarted k (Nat.not_lt.mp hlt)] at hk
    cases hk

theorem Tidy.lt_opened {h : Hub} (hh : h.Tidy) {c : ConnectionId}
    (hp : (h.subscriber c).phase ≠ .idle) : c < h.opened := by
  by_cases hc : c < h.opened
  · exact hc
  · exact absurd (hh.unopened c (Nat.not_lt.mp hc)).phase hp

theorem Tidy.mem_unfinishedReplays {h : Hub} (hh : h.Tidy) {k : TaskId} {r : Replay}
    (ht : h.task k = .replay r) (hs : r.stage ≠ .ended) : r ∈ h.unfinishedReplays := by
  refine List.mem_filterMap.mpr ⟨k, ?_, by rw [ht]⟩
  refine List.mem_filter.mpr ⟨List.mem_range.mpr (hh.lt_started_of_replay ht), ?_⟩
  rw [ht]
  change (!r.stage.isEnded) = true
  generalize r.stage = stage at hs
  cases stage with
  | ended => exact absurd rfl hs
  | _ => rfl

/-! ### Tidiness is kept -/

/-- Changes of the registry and of opened connections. -/
theorem Tidy.of_alike {h h' : Hub} (hh : h.Tidy) (hopened : h'.opened = h.opened)
    (hregistry : ∀ c ∈ h'.registry, c < h.opened) (htask : h'.task = h.task)
    (hstarted : h'.started = h.started)
    (hsub : ∀ c, h.opened ≤ c → Alike (h.subscriber c) (h'.subscriber c)) : h'.Tidy where
  registered := by rw [hopened]; exact hregistry
  unopened := by
    rw [hopened]
    exact fun c hc => (hh.unopened c hc).trans (hsub c hc)
  replays := by rw [hopened, htask]; exact hh.replays
  ticks := by rw [hopened, htask]; exact hh.ticks
  unstarted := by rw [hstarted, htask]; exact hh.unstarted

/-- Changes of one task and of opened connections. -/
theorem Tidy.of_update {h h' : Hub} (hh : h.Tidy) {k : TaskId} {t : Task} (hk : k < h.started)
    (htask : h'.task = update h.task k t) (hopened : h'.opened = h.opened)
    (hregistry : h'.registry = h.registry) (hstarted : h'.started = h.started)
    (hsub : ∀ c, h.opened ≤ c → h'.subscriber c = h.subscriber c)
    (hreplay : ∀ r, t = .replay r → r.connection < h.opened)
    (htick : ∀ stage, t = .tick stage → ∀ c ∈ stage.connections, c < h.opened) : h'.Tidy where
  registered := by rw [hopened, hregistry]; exact hh.registered
  unopened := by
    rw [hopened]
    intro c hc
    rw [hsub c hc]
    exact hh.unopened c hc
  replays := by
    rw [hopened, htask]
    intro j r hj
    rcases eq_or_of_update_eq hj with ⟨-, ht⟩ | ⟨-, hj⟩
    · exact hreplay r ht
    · exact hh.replays j r hj
  ticks := by
    rw [hopened, htask]
    intro j stage hj
    rcases eq_or_of_update_eq hj with ⟨-, ht⟩ | ⟨-, hj⟩
    · exact htick stage ht
    · exact hh.ticks j stage hj
  unstarted := by
    rw [hstarted, htask]
    intro j hj
    rw [update_of_ne _ _ (Nat.ne_of_gt (Nat.lt_of_lt_of_le hk hj))]
    exact hh.unstarted j hj

theorem Tidy.connect {h : Hub} (hh : h.Tidy) : h.connect.2.Tidy where
  registered := by
    intro c hc
    simp only [Hub.connect, register] at hc ⊢
    split at hc
    · exact Nat.lt_succ_of_lt (hh.registered c hc)
    · rcases List.mem_append.mp hc with hc | hc
      · exact Nat.lt_succ_of_lt (hh.registered c hc)
      · rw [List.mem_singleton.mp hc]
        exact Nat.lt_succ_self _
  unopened := by
    intro c hc
    have hlt : h.opened < c := hc
    change Alike _ (update h.subscriber h.opened _ c)
    rw [update_of_ne _ _ (by omega)]
    exact hh.unopened c (by omega)
  replays := fun k r hk => Nat.lt_succ_of_lt (hh.replays k r hk)
  ticks := fun k stage hk c hc => Nat.lt_succ_of_lt (hh.ticks k stage hk c hc)
  unstarted := hh.unstarted

theorem Tidy.spawn {h : Hub} (hh : h.Tidy) {t : Task}
    (hreplay : ∀ r, t = .replay r → r.connection < h.opened)
    (htick : ∀ stage, t = .tick stage → stage.connections = []) : (h.spawn t).2.Tidy where
  registered := hh.registered
  unopened := hh.unopened
  replays := by
    intro k r hk
    rcases eq_or_of_update_eq hk with ⟨-, ht⟩ | ⟨-, hk⟩
    · exact hreplay r ht
    · exact hh.replays k r hk
  ticks := by
    intro k stage hk c hc
    rcases eq_or_of_update_eq hk with ⟨-, ht⟩ | ⟨-, hk⟩
    · rw [htick stage ht] at hc
      cases hc
    · exact hh.ticks k stage hk c hc
  unstarted := by
    intro k hk
    have hlt : h.started < k := hk
    change update h.task h.started t k = _
    rw [update_of_ne _ _ (by omega)]
    exact hh.unstarted k (by omega)

theorem Tidy.moved {h h' : Hub} (hh : h.Tidy) {k : TaskId} {r : Replay} {stage : Replay.Stage}
    {s : Subscriber} (ht : h.task k = .replay r) (hm : h.Moved k r stage s h') : h'.Tidy := by
  have hc := hh.replays k r ht
  refine hh.of_update (hh.lt_started_of_replay ht) hm.task hm.opened hm.registry hm.started
    (fun c hle => ?_) (fun q hq => ?_) (by simp)
  · rw [hm.subscriber, update_of_ne _ _ (Nat.ne_of_gt (Nat.lt_of_lt_of_le hc hle))]
  · cases hq
    exact hc

theorem ne_ended_of_next {h : Hub} {stage stage' : Tick.Stage} {checkpoint : Checkpoint}
    {subscriber : ConnectionId → Subscriber} (hn : Tick.Next h stage stage' checkpoint subscriber)
    (outcome : Tick.Outcome) : stage ≠ .ended outcome := by
  cases hn <;> simp

theorem mem_connections_of_next {h : Hub} {stage stage' : Tick.Stage} {checkpoint : Checkpoint}
    {subscriber : ConnectionId → Subscriber} (hn : Tick.Next h stage stage' checkpoint subscriber)
    {c : ConnectionId} (hc : c ∈ stage'.connections) : c ∈ stage.connections ∨ c ∈ h.registry := by
  cases hn with
  | announce => exact .inr (by simpa [Tick.Stage.connections] using hc)
  | announceNone => exact .inr (by simpa [Tick.Stage.connections] using hc)
  | fanOut =>
      left
      simp only [Tick.Stage.connections, List.mem_append] at hc
      simpa [Tick.Stage.connections] using hc.imp_right Tick.mem_of_mem_targets
  | mark =>
      left
      simp only [Tick.Stage.connections, List.mem_append] at hc
      simpa [Tick.Stage.connections] using hc.imp_right Tick.mem_of_mem_targets
  | pick | passOver | offer | offerNone =>
      left
      simp only [Tick.Stage.connections, List.mem_append, List.mem_cons] at hc ⊢
      grind
  | _ => simp [Tick.Stage.connections] at hc

/-- A tick changes no subscriber but those that it has in hand. -/
theorem subscriber_eq_of_next {h : Hub} {stage stage' : Tick.Stage} {checkpoint : Checkpoint}
    {subscriber : ConnectionId → Subscriber} (hn : Tick.Next h stage stage' checkpoint subscriber)
    {c : ConnectionId} (hc : c ∉ stage.connections) : subscriber c = h.subscriber c := by
  cases hn with
  | @offer batch e rest live d targets m hm =>
      have hne : c ≠ d := by
        rintro rfl
        exact hc (by simp [Tick.Stage.connections])
      rw [update_of_ne _ _ hne]
  | _ => rfl

theorem Tidy.ticked {h : Hub} (hh : h.Tidy) {k : TaskId} {stage stage' : Tick.Stage}
    {checkpoint : Checkpoint} {subscriber : ConnectionId → Subscriber}
    (ht : h.task k = .tick stage) (hn : Tick.Next h stage stage' checkpoint subscriber) :
    (h.Ticked k stage' checkpoint subscriber).Tidy := by
  have hlt := hh.ticks k stage ht
  refine hh.of_update (hh.lt_started_of_tick ht (ne_ended_of_next hn _)) rfl rfl rfl rfl
    (fun c hle => ?_) (by simp) (fun _ hq c hc => ?_)
  · exact subscriber_eq_of_next hn fun hmem => Nat.not_lt.mpr hle (hlt c hmem)
  · cases hq
    rcases mem_connections_of_next hn hc with hc | hc
    · exact hlt c hc
    · exact hh.registered c hc

theorem Tidy.answer {h : Hub} (hh : h.Tidy) (k : TaskId) (a : Answer) : (h.answer k a).Tidy := by
  cases ht : h.task k with
  | replay r =>
      simp only [Hub.answer, ht]
      split
      · refine hh.of_update (hh.lt_started_of_replay ht) rfl rfl rfl rfl (fun _ _ => rfl)
          (fun q hq => ?_) (by simp)
        cases hq
        exact hh.replays k r ht
      · exact hh
  | tick stage =>
      cases stage with
      | asking after =>
          simp only [Hub.answer, ht]
          refine hh.of_update (hh.lt_started_of_tick ht (by simp)) rfl rfl rfl rfl
            (fun _ _ => rfl) (by simp) (fun stage hs => ?_)
          cases hs
          simp [Tick.Stage.connections]
      | _ => simpa only [Hub.answer, ht] using hh

theorem Tidy.setSubscriber {h : Hub} (hh : h.Tidy) {c : ConnectionId} (hc : c < h.opened)
    (s : Subscriber) : (h.setSubscriber c s).Tidy := by
  refine hh.of_alike rfl hh.registered rfl rfl fun d hd => ?_
  change Alike _ (update h.subscriber c s d)
  rw [update_of_ne _ _ (Nat.ne_of_gt (Nat.lt_of_lt_of_le hc hd))]
  exact .refl _

end Hub

namespace World

/-! ### Answers -/

theorem mem_iff_of_mayAnswer {log : Log} {cursor : Instant} {events : List Event}
    (h : MayAnswer (log.eventsAfter cursor) (.ok events)) {e : Event} :
    e ∈ events ↔ log.Holds e ∧ cursor.micros < e.createdAt.micros := by
  cases hf : log.eventsAfter cursor with
  | error failure => rw [hf] at h; exact h.elim
  | ok found =>
      rw [hf] at h
      exact h.mem_iff.trans (Log.mem_of_eventsAfter_eq_ok hf)

/-! ### The effect of a move -/

/-- Nothing has changed for the log, the tasks and the checkpoint, and no subscriber has been
sent an event, moved its gate or changed its phase. -/
structure Inert (w w' : World) : Prop where
  log : w'.log = w.log
  task : w'.hub.task = w.hub.task
  started : w'.hub.started = w.hub.started
  lockLine : w'.hub.lockLine = w.hub.lockLine
  checkpoint : w'.hub.checkpoint = w.hub.checkpoint
  subscriber : ∀ c, Alike (w.hub.subscriber c) (w'.hub.subscriber c)

theorem Inert.refl (w : World) : Inert w w :=
  ⟨rfl, rfl, rfl, rfl, rfl, fun _ => .refl _⟩

theorem inert_onSubscriber (w : World) (c : ConnectionId) (f : Subscriber → Subscriber)
    (h : Alike (w.hub.subscriber c) (f (w.hub.subscriber c))) : Inert w (w.onSubscriber c f) where
  log := rfl
  task := rfl
  started := rfl
  lockLine := rfl
  checkpoint := rfl
  subscriber := by
    intro d
    change Alike _ (update w.hub.subscriber c _ d)
    by_cases hd : d = c
    · subst hd
      simpa using h
    · rw [update_of_ne _ _ hd]
      exact .refl _

theorem inert_register (w : World) (c : ConnectionId) : Inert w (w.onHub (·.register c)) :=
  ⟨rfl, rfl, rfl, rfl, rfl, fun _ => .refl _⟩

theorem inert_disconnect (w : World) (c : ConnectionId) : Inert w (w.onHub (·.disconnect c)) := by
  have h := inert_onSubscriber w c Subscriber.cancel (Subscriber.alike_cancel _)
  exact ⟨h.log, h.task, h.started, h.lockLine, h.checkpoint, h.subscriber⟩

theorem inert_shutdown (w : World) : Inert w (w.onHub Hub.shutdown) :=
  ⟨rfl, rfl, rfl, rfl, rfl, fun c => Subscriber.alike_cancel (w.hub.subscriber c)⟩

theorem inert_connect {w : World} (hw : w.hub.Tidy) : Inert w (w.onHub (·.connect.2)) where
  log := rfl
  task := rfl
  started := rfl
  lockLine := rfl
  checkpoint := rfl
  subscriber := by
    intro d
    change Alike _ (update w.hub.subscriber w.hub.opened _ d)
    by_cases hd : d = w.hub.opened
    · have hu := hw.unopened d (Nat.le_of_eq hd.symm)
      rw [hd] at hu ⊢
      rw [update_self]
      exact ⟨hu.messages.symm, hu.lastEventId.symm, hu.phase.symm, hu.channels.symm⟩
    · rw [update_of_ne _ _ hd]
      exact .refl _

/-- What a possible move does. Moves with a rule of their own are those on which deliveries
depend. -/
inductive Effect (w : World) : Move → World → Prop where
  | inert {m w'} (hm : m.answered? = none) (h : Inert w w') : Effect w m w'
  | relog {m log} (hm : m.answered? = none) : Effect w m { w with log }
  | subscribe {c request} (hc : c < w.hub.opened) :
      Effect w (.subscribe c request) (w.onHub fun h => (h.subscribe c request).2)
  | startTick : Effect w .startTick (w.onHub (·.startTick.2))
  | answerReplay {k r purpose a} (ht : w.hub.task k = .replay r) (hs : r.stage = .asking purpose)
      (ha : MayAnswer (w.log.eventsAfter purpose.after) a) :
      Effect w (.answer k a) (w.onHub (·.setStage k r (.answered purpose a)))
  | answerTick {k after a} (ht : w.hub.task k = .tick (.asking after))
      (ha : MayAnswer (w.log.eventsAfter after) a) :
      Effect w (.answer k a) (w.onHub (·.setTick k (.answered a)))
  | replay {k r stage s h'} (ht : w.hub.task k = .replay r)
      (hn : Replay.Next w.hub.checkpoint.announced r.request r.stage
        (w.hub.subscriber r.connection) stage s)
      (hm : w.hub.Moved k r stage s h')
      (hlock : r.stage = .awaitingLock → stage ≠ .ended →
        (w.hub.lockLine r.connection).head? = some k) :
      Effect w (.advance k) { w with hub := h' }
  | tick {k stage stage' checkpoint subscriber} (ht : w.hub.task k = .tick stage)
      (hn : Tick.Next w.hub stage stage' checkpoint subscriber) :
      Effect w (.advance k) { w with hub := w.hub.Ticked k stage' checkpoint subscriber }
  | offerLive {c id f} (hf : f.message? = none) :
      Effect w (.offerLive c id f) (w.onSubscriber c fun s => (s.enqueueLive id f).1)
  | resetCursor {time} :
      Effect w (.resetCursor time) (w.onHub (·.mapCheckpoint (·.reset time)))
  | advanceCursor {time} :
      Effect w (.advanceCursor time) (w.onHub (·.mapCheckpoint (·.advanceTo time)))
  | announce {id} : Effect w (.announce id) (w.onHub (·.mapCheckpoint (·.announce id)))
  | markBroadcast {id} :
      Effect w (.markBroadcast id) (w.onHub (·.mapCheckpoint (·.markBroadcast id)))

/-- A task that cannot go on stays where it is. -/
theorem apply_advance_of_not_canAdvance {w : World} {k : TaskId}
    (hcan : w.hub.canAdvance k = false) : w.apply (.advance k) = w := by
  simp only [apply, onHub, Hub.advance, hcan, Bool.false_eq_true, ite_false]

/-- An answer moves the replay that has asked. -/
theorem task_answer {w : World} {k : TaskId} {r : Replay} (hk : w.hub.task k = .replay r)
    {purpose : Replay.Purpose} (hs : r.stage = .asking purpose) (a : Answer) :
    (w.apply (.answer k a)).hub.task k = .replay { r with stage := .answered purpose a } := by
  change (w.hub.answer k a).task k = _
  simp only [Hub.answer, hk, hs, Hub.setStage, Hub.setTask, update_self]

/-- A replay that can go on takes its next step, which leaves the checkpoint as it is. -/
theorem next_of_canAdvance {w : World} {k : TaskId} {r : Replay} (hk : w.hub.task k = .replay r)
    (hcan : w.hub.canAdvance k = true) :
    ∃ stage, Replay.Next w.hub.checkpoint.announced r.request r.stage
        (w.hub.subscriber r.connection) stage
        ((w.apply (.advance k)).hub.subscriber r.connection) ∧
      (w.apply (.advance k)).hub.task k = .replay { r with stage } ∧
      (w.apply (.advance k)).hub.checkpoint = w.hub.checkpoint := by
  obtain ⟨stage, s, hn, hmoved, -⟩ := Hub.advance_replay hk hcan
  refine ⟨stage, ?_, ?_, hmoved.checkpoint⟩
  · change Replay.Next _ _ _ _ stage ((w.hub.advance k).subscriber r.connection)
    rw [hmoved.subscriber, update_self]
    exact hn
  · change (w.hub.advance k).task k = _
    rw [hmoved.task, update_self]

theorem effect_advance (w : World) (k : TaskId) :
    Effect w (.advance k) (w.onHub (·.advance k)) := by
  cases hcan : w.hub.canAdvance k with
  | false =>
      rw [show w.onHub (·.advance k) = w from apply_advance_of_not_canAdvance hcan]
      exact .inert rfl (.refl w)
  | true =>
      cases ht : w.hub.task k with
      | replay r =>
          obtain ⟨stage, s, hn, hm, hlock⟩ := Hub.advance_replay ht hcan
          exact .replay ht hn hm hlock
      | tick stage =>
          obtain ⟨stage', checkpoint, subscriber, hn, heq⟩ := Hub.advance_tick ht hcan
          rw [show w.onHub (·.advance k) =
            { w with hub := w.hub.Ticked k stage' checkpoint subscriber } by simp only [onHub, heq]]
          exact .tick ht hn

theorem effect_answer {w : World} {k : TaskId} {a : Answer} (h : w.Answers k a) :
    Effect w (.answer k a) (w.onHub (·.answer k a)) := by
  obtain ⟨cursor, hq, ha⟩ := h
  cases ht : w.hub.task k with
  | replay r =>
      obtain ⟨c, request, stage⟩ := r
      cases stage with
      | asking purpose =>
          rw [ht] at hq
          cases hq
          have hans : w.hub.answer k a =
              w.hub.setStage k ⟨c, request, .asking purpose⟩ (.answered purpose a) := by
            simp only [Hub.answer, ht]
          simp only [onHub, hans]
          exact .answerReplay ht rfl ha
      | _ => rw [ht] at hq; cases hq
  | tick stage =>
      cases stage with
      | asking after =>
          rw [ht] at hq
          cases hq
          have hans : w.hub.answer k a = w.hub.setTick k (.answered a) := by
            simp only [Hub.answer, ht]
          simp only [onHub, hans]
          exact .answerTick ht ha
      | _ => rw [ht] at hq; cases hq

theorem effect_withLog {α : Type} (w : World) {m : Move} (hm : m.answered? = none)
    (found : Except LogError (α × Log)) : Effect w m (w.withLog found) := by
  cases found with
  | error e => exact .inert hm (.refl w)
  | ok found => exact .relog hm

theorem effect {w : World} {m : Move} (hw : w.hub.Tidy) (hm : w.Possible m) :
    Effect w m (w.apply m) := by
  cases m with
  | append draft => exact effect_withLog w rfl _
  | insertRow id row => exact effect_withLog w rfl _
  | deleteRow id => exact .relog rfl
  | connect => exact .inert rfl (inert_connect hw)
  | register c => exact .inert rfl (inert_register w c)
  | deregister c => exact .inert rfl ⟨rfl, rfl, rfl, rfl, rfl, fun _ => .refl _⟩
  | disconnect c => exact .inert rfl (inert_disconnect w c)
  | shutdown => exact .inert rfl (inert_shutdown w)
  | subscribe c request => exact .subscribe hm
  | startTick => exact .startTick
  | advance k => exact effect_advance w k
  | toss cancelFirst => exact .inert rfl ⟨rfl, rfl, rfl, rfl, rfl, fun _ => .refl _⟩
  | answer k a => exact effect_answer hm
  | receive c limit =>
      exact .inert rfl (inert_onSubscriber w c
        (fun s => { s with outbound := (s.outbound.receive limit).2 }) ⟨rfl, rfl, rfl, rfl⟩)
  | closeReceiver c =>
      exact .inert rfl (inert_onSubscriber w c
        (fun s => { s with outbound := s.outbound.close }) ⟨rfl, rfl, rfl, rfl⟩)
  | send c f =>
      exact .inert rfl
        (inert_onSubscriber w c (fun s => (s.push f).1) (Subscriber.alike_push _ hm.2))
  | offerLive c id f => exact .offerLive hm.2
  | resetCursor time => exact .resetCursor
  | advanceCursor time => exact .advanceCursor
  | announce id => exact .announce
  | markBroadcast id => exact .markBroadcast

/-! ### Every world of a run is tidy -/

theorem tidy_apply {w : World} {m : Move} (hw : w.hub.Tidy) (hm : w.Possible m) :
    (w.apply m).hub.Tidy := by
  cases m with
  | append draft =>
      simp only [apply, withLog]
      split <;> exact hw
  | insertRow id row =>
      simp only [apply, withLog]
      split <;> exact hw
  | deleteRow id => exact hw
  | connect => exact hw.connect
  | register c =>
      refine hw.of_alike rfl (fun d hd => ?_) rfl rfl fun _ _ => .refl _
      simp only [apply, onHub, Hub.register] at hd
      split at hd
      · exact hw.registered d hd
      · rcases List.mem_append.mp hd with hd | hd
        · exact hw.registered d hd
        · rw [List.mem_singleton.mp hd]
          exact hm
  | deregister c =>
      exact hw.of_alike rfl (fun d hd => hw.registered d (List.mem_filter.mp hd).1) rfl rfl
        fun _ _ => .refl _
  | disconnect c =>
      exact hw.of_alike rfl (fun d hd => hw.registered d (List.mem_filter.mp hd).1) rfl rfl
        fun d _ => (inert_disconnect w c).subscriber d
  | shutdown => exact hw.of_alike rfl hw.registered rfl rfl fun d _ => Subscriber.alike_cancel _
  | subscribe c request =>
      refine hw.spawn (fun r hr => ?_) (by simp)
      cases hr
      exact hm
  | startTick =>
      refine hw.spawn (by simp) (fun stage hs => ?_)
      cases hs
      rfl
  | advance k =>
      cases hcan : w.hub.canAdvance k with
      | false => rwa [apply_advance_of_not_canAdvance hcan]
      | true =>
          cases ht : w.hub.task k with
          | replay r =>
              obtain ⟨stage, s, -, hmoved, -⟩ := Hub.advance_replay ht hcan
              exact hw.moved ht hmoved
          | tick stage =>
              obtain ⟨stage', checkpoint, subscriber, hn, heq⟩ := Hub.advance_tick ht hcan
              simp only [apply, onHub, heq]
              exact hw.ticked ht hn
  | toss cancelFirst => exact hw.of_alike rfl hw.registered rfl rfl fun _ _ => .refl _
  | answer k a => exact hw.answer k a
  | receive c limit => exact hw.setSubscriber hm _
  | closeReceiver c => exact hw.setSubscriber hm _
  | send c f => exact hw.setSubscriber hm.1 _
  | offerLive c id f => exact hw.setSubscriber hm.1 _
  | resetCursor time => exact hw.of_alike rfl hw.registered rfl rfl fun _ _ => .refl _
  | advanceCursor time => exact hw.of_alike rfl hw.registered rfl rfl fun _ _ => .refl _
  | announce id => exact hw.of_alike rfl hw.registered rfl rfl fun _ _ => .refl _
  | markBroadcast id => exact hw.of_alike rfl hw.registered rfl rfl fun _ _ => .refl _

theorem tidy_of_run {capacity replays : Nat} {start : Instant} {past : List (World × Move)}
    {w : World} (run : Run Possible (.new capacity replays start) past w) : w.hub.Tidy := by
  induction run with
  | nil => exact Hub.tidy_new capacity replays start
  | cons _ hm ih => exact tidy_apply ih hm

theorem opened_le_apply (w : World) (m : Move) : w.hub.opened ≤ (w.apply m).hub.opened := by
  cases m with
  | append draft => simp only [apply, withLog]; split <;> exact Nat.le_refl _
  | insertRow id row => simp only [apply, withLog]; split <;> exact Nat.le_refl _
  | connect => exact Nat.le_succ _
  | advance k =>
      cases hcan : w.hub.canAdvance k with
      | false => exact Nat.le_of_eq (by rw [apply_advance_of_not_canAdvance hcan])
      | true =>
          cases ht : w.hub.task k with
          | replay r =>
              obtain ⟨stage, s, -, hm, -⟩ := Hub.advance_replay ht hcan
              exact Nat.le_of_eq hm.opened.symm
          | tick stage =>
              obtain ⟨stage', checkpoint, subscriber, -, heq⟩ := Hub.advance_tick ht hcan
              simp only [apply, onHub, heq]
              exact Nat.le_refl _
  | answer k a =>
      simp only [apply, onHub, Hub.answer]
      repeat' split
      all_goals exact Nat.le_refl _
  | _ => exact Nat.le_refl _

theorem Run.opened_le {allowed : World → Move → Prop} {start w : World}
    {past : List (World × Move)} (run : Run allowed start past w) :
    start.hub.opened ≤ w.hub.opened := by
  induction run with
  | nil => exact Nat.le_refl _
  | @cons past v m _ _ ih => exact Nat.le_trans ih (opened_le_apply v m)

/-! ### Logs that only grow -/

theorem grows_withLog {α : Type} (w : World) {found : Except LogError (α × Log)}
    (h : ∀ a log, found = .ok (a, log) → w.log.Grows log) :
    w.log.Grows (w.withLog found).log := by
  cases found with
  | error e => exact .refl _
  | ok found => exact h found.1 found.2 rfl

theorem grows_apply {w : World} {m : Move} (hm : w.Appends m) : w.log.Grows (w.apply m).log := by
  cases m with
  | append draft => exact grows_withLog w fun _ _ h => Log.grows_of_append h
  | insertRow id row =>
      refine grows_withLog w fun _ _ h => Log.grows_of_insertRow (fun n hn => ?_) h
      subst hn
      exact hm
  | deleteRow id => exact hm.elim
  | _ => exact .refl _

end World

end EventStream
