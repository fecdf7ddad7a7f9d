import EventStream.Proofs.Delivery.Act
import EventStream.Proofs.Delivery.Rounds
import EventStream.Proofs.World.Sound

/-! From where a replay asks the log, round by round: never from before its cursor, and always so
that the events of the newest time it has been brought come again. -/

namespace EventStream

namespace Instant

theorem truncate_of_isWhole {t : Instant} (h : t.IsWhole) : t.truncate = t := by
  refine key_inj ?_
  simp only [key, truncate, h.2, Nat.sub_zero]

/-- There is a whole microsecond before every one that has an instant before it. -/
theorem prev?_isSome_of_lt {t u : Instant} (ht : t.IsWhole) (h : u < t) :
    t.prev?.isSome = true := by
  rw [Replay.prev?_isSome_iff, truncate_of_isWhole ht]
  have hu := u.inRange
  simp only [InRange] at hu
  simp only [lt_iff_key, key, Replay.earliest] at h ⊢
  omega

end Instant

namespace Replay

/-! ### One round -/

/-- Of the events that a log holds, a query for what comes after the instant brings those that were
created later and no others. Logs keep whole microseconds. -/
structure Finds (held : Event → Prop) (after : Instant) (events : List Event) : Prop where
  whole : ∀ e, held e → e.createdAt.IsWhole
  mem_iff : ∀ e, e ∈ events ↔ held e ∧ after < e.createdAt

/-- A replay from the cursor may ask for what comes after the floor. -/
def IsFloor (cursor floor : Instant) : Prop := floor = cursor ∨ cursor ≤ floor ∧ floor.IsWhole

/-- The floor that a round leaves, when its query has brought these events. -/
structure Purpose.Sets (p : Purpose) (events : List Event) (floor : Instant) : Prop where
  isFloor : IsFloor p.cursor floor
  /-- It moves down to the cursor or not at all. -/
  not_lower : p.after ≤ floor ∨ floor = p.cursor
  /-- It lies below the newest time of all. -/
  below : ∀ e ∈ events, (∀ d ∈ events, d.createdAt ≤ e.createdAt) → floor < e.createdAt
  /-- It lies one microsecond below the newest time of those delivered, if it is not the cursor. -/
  near : floor = p.cursor ∨ ∃ e ∈ p.wanted events,
    (∀ d ∈ p.wanted events, d.createdAt ≤ e.createdAt) ∧ floor.micros + 1 = e.createdAt.micros

section Round

variable {held : Event → Prop} {p : Purpose} {cursor after floor : Instant} {events : List Event}

theorem IsFloor.le (h : IsFloor cursor floor) : cursor ≤ floor := by
  rcases h with rfl | ⟨hle, -⟩
  · exact Int.le_refl _
  · exact hle

theorem mem_of_mem_wanted {e : Event} (h : e ∈ p.wanted events) : e ∈ events := by
  cases p with
  | history => exact h
  | gap => exact (List.mem_filter.mp h).1

theorem Finds.prev?_isSome (h : Finds held after events) {e : Event} (he : e ∈ events) :
    e.createdAt.prev?.isSome = true := by
  obtain ⟨hheld, hlt⟩ := (h.mem_iff e).mp he
  exact Instant.prev?_isSome_of_lt (h.whole e hheld) hlt

theorem Finds.sets_cursor (h : Finds held p.after events) (hf : IsFloor p.cursor p.after) :
    p.Sets events p.cursor where
  isFloor := .inl rfl
  not_lower := .inr rfl
  below e he _ := Int.lt_of_le_of_lt hf.le ((h.mem_iff e).mp he).2
  near := .inl rfl

/-- Just below a whole microsecond after the one asked from, no other lies between. -/
theorem IsFloor.le_of_prev?_eq_some {t u : Instant} (hf : IsFloor cursor after)
    (ht : t.IsWhole) (hlt : after < t) (hu : t.prev? = some u) (hcursor : cursor ≤ u) :
    after ≤ u := by
  obtain ⟨hwhole, hmicros⟩ := Instant.prev?_eq_some ht hu
  rcases hf with rfl | ⟨-, hafter⟩
  · exact hcursor
  · have := Instant.micros_lt_of_lt hafter.1 ht hlt
    exact (Instant.le_iff_micros_le hafter hwhole).mpr (by omega)

theorem Finds.sets_floorBelow? (h : Finds held p.after events) (hf : IsFloor p.cursor p.after)
    (hb : floorBelow? (Hub.newest? (p.wanted events)) p.cursor = some floor) :
    p.Sets events floor := by
  cases hn : Hub.newest? (p.wanted events) with
  | none =>
    rw [hn] at hb
    cases hb
    exact h.sets_cursor hf
  | some t =>
    obtain ⟨⟨d, hd, rfl⟩, hle⟩ := Hub.newest?_eq_some hn
    obtain ⟨hheld, hlt⟩ := (h.mem_iff d).mp (mem_of_mem_wanted hd)
    have hwhole := h.whole d hheld
    rw [hn, floorBelow?, Option.map_eq_some_iff] at hb
    obtain ⟨u, hu, rfl⟩ := hb
    obtain ⟨huwhole, hmicros⟩ := Instant.prev?_eq_some hwhole hu
    have hcursor := Instant.le_max_right u p.cursor
    rcases Instant.max_eq_or u p.cursor with heq | heq
    · rw [heq] at hcursor ⊢
      have hut : u < d.createdAt := Instant.lt_of_micros_lt hwhole (by omega)
      refine ⟨.inr ⟨hcursor, huwhole⟩, ?_, fun e _ hmax => ?_, .inr ⟨d, hd, hle, by omega⟩⟩
      · exact .inl (hf.le_of_prev?_eq_some hwhole hlt hu hcursor)
      · exact Int.lt_of_lt_of_le hut (hmax d (mem_of_mem_wanted hd))
    · rw [heq]
      exact h.sets_cursor hf

/-- A query from the floor brings all events of the newest time again. -/
theorem Purpose.Sets.mem (h : p.Sets events floor) {e : Event} (he : e ∈ events)
    (hmax : ∀ d ∈ events, d.createdAt ≤ e.createdAt) {found : List Event}
    (hfinds : Finds held floor found) {d : Event} (hd : held d)
    (hsame : d.createdAt = e.createdAt) : d ∈ found :=
  (hfinds.mem_iff d).mpr ⟨hd, hsame ▸ h.below e he hmax⟩

end Round

/-! ### Where a replay stands -/

/-- The replay asks, has asked or will ask for what comes after this instant. -/
def Stage.floor? : Stage → Option Instant
  | opening _ cursor => some cursor
  | asking p => some p.after
  | answered p _ => some p.after
  | delivering p .. => some p.after
  | settling _ floor => some floor
  | reconciling _ floor => some floor
  | lagging _ floor _ => some floor
  | _ => none

/-- The query of this purpose belongs to a replay of the request. -/
structure Purpose.Serves (p : Purpose) (request : Subscription) : Prop where
  cursor : request.lastSeen = some p.cursor
  isFloor : IsFloor p.cursor p.after

/-- The replay asks from where it may, and what it delivers is what some log has been found to hold
from there on. -/
def Stage.Keeps (request : Subscription) (found : Option (List Event)) : Stage → Prop
  | opening _ cursor => request.lastSeen = some cursor
  | asking p => p.Serves request
  | answered p a =>
    p.Serves request ∧
      ∀ events, a = .ok events → found = some events ∧ ∃ held, Finds held p.after events
  | delivering p left newest =>
    p.Serves request ∧ ∃ events done, found = some events ∧
      (∃ held, Finds held p.after events) ∧ p.wanted events = done ++ left ∧
      Hub.newest? done = newest
  | settling cursor floor => request.lastSeen = some cursor ∧ IsFloor cursor floor
  | reconciling cursor floor => request.lastSeen = some cursor ∧ IsFloor cursor floor
  | lagging cursor floor _ => request.lastSeen = some cursor ∧ IsFloor cursor floor
  | _ => True

section Next

variable {announced : Int} {request : Subscription} {stage stage' : Stage} {s t : Subscriber}
  {found : Option (List Event)} {p : Purpose} {newest : Option Instant}

/-- A round that is over has dealt with all that it wanted. -/
theorem Stage.Keeps.round (h : (Stage.delivering p [] newest).Keeps request found) :
    p.Serves request ∧ ∃ events, found = some events ∧ (∃ held, Finds held p.after events) ∧
      Hub.newest? (p.wanted events) = newest := by
  obtain ⟨hserves, events, done, hfound, hfinds, hwanted, hnewest⟩ := h
  rw [List.append_nil] at hwanted
  exact ⟨hserves, events, hfound, hfinds, hwanted ▸ hnewest⟩

/-- The floor that a round leaves. -/
theorem sets_of_next (hn : Next announced request (.delivering p [] newest) s stage' t)
    (h : (Stage.delivering p [] newest).Keeps request found) {floor : Instant}
    (hf : stage'.floor? = some floor) :
    ∃ events, found = some events ∧ (∃ held, Finds held p.after events) ∧
      p.Sets events floor := by
  obtain ⟨hserves, events, hfound, ⟨held, hfinds⟩, rfl⟩ := h.round
  refine ⟨events, hfound, ⟨held, hfinds⟩, ?_⟩
  cases hn with
  | drop hw => cases hw
  | closeHistory hb =>
    cases hf
    exact hfinds.sets_floorBelow? hserves.isFloor hb
  | closeGap _ hb =>
    cases hf
    exact hfinds.sets_floorBelow? hserves.isFloor hb
  | lower =>
    cases hf
    exact hfinds.sets_cursor hserves.isFloor
  | _ => cases hf

/-- In the middle of a round the floor stays. -/
theorem floor?_of_next (hn : Next announced request stage s stage' t)
    (hopen : ∀ p newest, stage ≠ .delivering p [] newest) {floor floor' : Instant}
    (hf : stage.floor? = some floor) (hf' : stage'.floor? = some floor') : floor' = floor := by
  cases hn with
  | closeHistory | closeGap | lower => exact absurd rfl (hopen _ _)
  | ask | take | skip | stale | queue | settle | behind | lag =>
    exact Option.some.inj (hf'.symm.trans hf)
  | begin => cases hf
  | _ => cases hf'

/-- One more event has been dealt with. -/
theorem keeps_delivering {e : Event} {rest : List Event}
    (h : (Stage.delivering p (e :: rest) newest).Keeps request found) :
    (Stage.delivering p rest (some (later newest e.createdAt))).Keeps request found := by
  obtain ⟨hserves, events, done, hfound, hfinds, hwanted, rfl⟩ := h
  exact ⟨hserves, events, done ++ [e], hfound, hfinds, by simp [hwanted],
    newest?_concat done e⟩

theorem keeps_of_next (hn : Next announced request stage s stage' t)
    (h : stage.Keeps request found) : stage'.Keeps request found := by
  cases hn with
  | begin hr => exact hr
  | ask => exact ⟨h, .inl rfl⟩
  | take =>
    obtain ⟨hserves, hbrought⟩ := h
    obtain ⟨hfound, hfinds⟩ := hbrought _ rfl
    exact ⟨hserves, _, [], hfound, hfinds, rfl, rfl⟩
  | skip | stale | queue => exact keeps_delivering h
  | closeHistory hb =>
    obtain ⟨hserves, events, -, ⟨held, hfinds⟩, rfl⟩ := h.round
    exact ⟨hserves.cursor, (hfinds.sets_floorBelow? hserves.isFloor hb).isFloor⟩
  | closeGap _ hb =>
    obtain ⟨hserves, events, -, ⟨held, hfinds⟩, rfl⟩ := h.round
    exact ⟨hserves.cursor, (hfinds.sets_floorBelow? hserves.isFloor hb).isFloor⟩
  | lower => exact ⟨h.1.cursor, .inl rfl⟩
  | settle | behind => exact h
  | lag => exact ⟨h.1, h.2⟩
  | _ => trivial

theorem Stage.Keeps.le (h : stage.Keeps request found) {floor : Instant}
    (hf : stage.floor? = some floor) :
    ∃ cursor, request.lastSeen = some cursor ∧ cursor ≤ floor := by
  cases stage with
  | opening previous cursor =>
    cases hf
    exact ⟨_, h, Int.le_refl _⟩
  | asking p =>
    cases hf
    exact ⟨_, h.cursor, h.isFloor.le⟩
  | answered | delivering =>
    cases hf
    exact ⟨_, h.1.cursor, h.1.isFloor.le⟩
  | settling | reconciling | lagging =>
    cases hf
    exact ⟨_, h.1, h.2.le⟩
  | _ => cases hf

/-- There is always an instant for the floor, as far as a round has come. -/
theorem Stage.Keeps.floorBelow?_isSome {left : List Event}
    (h : (Stage.delivering p left newest).Keeps request found) :
    (floorBelow? newest p.cursor).isSome = true := by
  obtain ⟨-, events, done, -, ⟨held, hfinds⟩, hwanted, rfl⟩ := h
  refine Replay.floorBelow?_isSome (fun t ht => ?_) _
  obtain ⟨⟨e, he, rfl⟩, -⟩ := Hub.newest?_eq_some ht
  refine hfinds.prev?_isSome (mem_of_mem_wanted (p := p) ?_)
  rw [hwanted]
  exact List.mem_append_left _ he

end Next

end Replay

namespace Task

def floor? : Task → Option Instant
  | replay r => r.stage.floor?
  | tick _ => none

end Task

namespace World

/-- The events that an answer brings task `k`. -/
def Move.brought? (k : TaskId) : Move → Option (List Event)
  | answer j (.ok events) => if j = k then some events else none
  | _ => none

/-- What the latest query of task `k` brought that did not fail. -/
def lastFound? (k : TaskId) (past : List (World × Move)) : Option (List Event) :=
  past.findSome? (·.2.brought? k)

/-- If task `k` is a replay, its queries are answered by some log that has what it holds found; what
the log holds may be another each time. -/
structure Honest (k : TaskId) (w : World) (m : Move) : Prop where
  conceivable : w.Conceivable m
  finds : ∀ events, m = .answer k (.ok events) → ∃ after ∈ (w.hub.task k).question?,
    ∀ r, w.hub.task k = .replay r → ∃ held, Replay.Finds held after events

/-- Task `k`, if it is a replay, stands where it should after the run. -/
def Floored (past : List (World × Move)) (k : TaskId) (w : World) : Prop :=
  ∀ r, w.hub.task k = .replay r → r.stage.Keeps r.request (lastFound? k past)

section Run

variable {capacity replays : Nat} {start : Instant} {past : List (World × Move)} {w : World}
  {k : TaskId} {m : Move} {r : Replay}

theorem lastFound?_cons_of_brought? {found : Option (List Event)} (h : m.brought? k = found) :
    lastFound? k ((w, m) :: past) = found.or (lastFound? k past) := by
  rw [lastFound?, List.findSome?_cons, h]
  cases found <;> rfl

theorem brought?_eq_some_iff {events : List Event} :
    m.brought? k = some events ↔ m = .answer k (.ok events) := by
  cases m with
  | answer j a => cases a <;> simp [Move.brought?]
  | _ => simp [Move.brought?]

theorem exists_asking_of_question? {after : Instant} (hk : w.hub.task k = .replay r)
    (h : (w.hub.task k).question? = some after) : ∃ p, r.stage = .asking p ∧ p.after = after := by
  rw [hk] at h
  obtain ⟨c, request, stage⟩ := r
  cases stage with
  | asking p => exact ⟨p, rfl, Option.some.inj h⟩
  | _ => cases h

/-- What a move makes of a replay, however queries are answered. -/
theorem Sound.replay_next (h : w.Sound) (hk : w.hub.task k = .replay r) (hm : w.Conceivable m) :
    (w.apply m).hub.task k = .replay r ∨
      (∃ p a, m = .answer k a ∧ r.stage = .asking p ∧
        (w.apply m).hub.task k = .replay { r with stage := .answered p a }) ∨
      ∃ stage s, m = .advance k ∧ Replay.Next w.hub.checkpoint.announced r.request r.stage
        (w.hub.subscriber r.connection) stage s ∧
          (w.apply m).hub.task k = .replay { r with stage } := by
  cases ha : m.answered? with
  | none =>
    rcases (effect h.tidy (hm ha)).replay_next h.tidy hk with ht | ⟨p, a, rfl, -⟩ | hnext
    · exact .inl ht
    · cases ha
    · exact .inr (.inr hnext)
  | some j =>
    cases m with
    | answer i a =>
      have hcame := w.answeredTo i a k
      rw [hk] at hcame
      generalize (w.apply (.answer i a)).hub.task k = t at hcame
      cases hcame with
      | stays => exact .inl rfl
      | replay hki hs =>
        subst hki
        exact .inr (.inl ⟨_, a, rfl, hs, rfl⟩)
    | _ => cases ha

/-- A replay starts with a stage of its own. -/
theorem Sound.arriving_of_new (h : w.Sound) (hm : w.Conceivable m)
    (hk : ∀ q, w.hub.task k ≠ .replay q) (hk' : (w.apply m).hub.task k = .replay r) :
    r.stage = .arriving := by
  cases ha : m.answered? with
  | none =>
    have hcame := (effect h.tidy (hm ha)).came k
    rw [hk'] at hcame
    cases hcame with
    | stays _ ht => exact absurd ht (hk r)
    | subscribes => rfl
    | answersReplay => cases ha
    | movesReplay ht => exact absurd ht (hk _)
  | some j =>
    cases m with
    | answer i a =>
      have hcame := w.answeredTo i a k
      rw [hk'] at hcame
      generalize ht : w.hub.task k = t at hcame
      cases hcame with
      | stays => exact absurd ht (hk r)
      | replay => exact absurd ht (hk _)
    | _ => cases ha

/-- The answer to its query. -/
theorem Floored.answer (h : w.Floored past k) {events : List Event} (hk : w.hub.task k = .replay r)
    (hm : w.Honest k (.answer k (.ok events))) :
    ∃ p, (w.apply (.answer k (.ok events))).hub.task k =
        .replay { r with stage := .answered p (.ok events) } ∧
      (Replay.Stage.answered p (.ok events)).Keeps r.request (some events) := by
  obtain ⟨after, hafter, hfinds⟩ := hm.finds events rfl
  obtain ⟨p, hs, rfl⟩ := exists_asking_of_question? hk hafter
  have hserves := h r hk
  rw [hs] at hserves
  refine ⟨p, task_answer hk hs _, hserves, fun es hes => ?_⟩
  cases hes
  exact ⟨rfl, hfinds r hk⟩

theorem Floored.step (hsound : w.Sound) (h : w.Floored past k) (hm : w.Honest k m) :
    (w.apply m).Floored ((w, m) :: past) k := by
  intro r' hk'
  cases hk : w.hub.task k with
  | tick stage =>
    -- numbers that are not given yet stand for ticks that have ended
    rw [hsound.arriving_of_new hm.conceivable (by simp [hk]) hk']
    trivial
  | replay r =>
    cases hb : m.brought? k with
    | some events =>
      rw [lastFound?_cons_of_brought? hb, Option.some_or]
      obtain rfl := brought?_eq_some_iff.mp hb
      obtain ⟨p, hnext, hkeeps⟩ := h.answer hk hm
      cases hk'.symm.trans hnext
      exact hkeeps
    | none =>
      rw [lastFound?_cons_of_brought? hb, Option.none_or]
      rcases hsound.replay_next hk hm.conceivable with hnext | ⟨p, a, rfl, hs, hnext⟩ |
        ⟨stage, s, rfl, hn, hnext⟩
      · cases hk'.symm.trans hnext
        exact h _ hk
      · cases hk'.symm.trans hnext
        have hserves := h r hk
        rw [hs] at hserves
        refine ⟨hserves, fun events ha => ?_⟩
        rw [ha, brought?_eq_some_iff.mpr rfl] at hb
        cases hb
      · cases hk'.symm.trans hnext
        exact Replay.keeps_of_next hn (h r hk)

theorem floored_of_run (run : Run (Honest k) (.new capacity replays start) past w) :
    w.Sound ∧ w.Floored past k := by
  induction run with
  | nil =>
    refine ⟨sound_of_run .nil, ?_⟩
    intro r hk
    cases hk
  | cons run hm ih => exact ⟨ih.1.step hm.conceivable, ih.2.step ih.1 hm⟩

/-! ### The end of a round -/

section Closing

variable {c : ConnectionId} {request : Subscription} {stage : Replay.Stage} {p : Replay.Purpose}
  {newest : Option Instant}

theorem canAdvance_of_delivering {left : List Event}
    (hk : w.hub.task k = .replay ⟨c, request, .delivering p left newest⟩) :
    w.hub.canAdvance k = true :=
  Hub.canAdvance_of_isServed hk rfl

/-- A round that is over is followed by another or by the confirmation, and not broken off. -/
theorem isEnded_advance_of_closing
    (hk : w.hub.task k = .replay ⟨c, request, .delivering p [] newest⟩)
    (hb : (Replay.floorBelow? newest p.cursor).isSome = true) :
    ((w.apply (.advance k)).hub.task k).isEnded = false := by
  have hunbroken : (Replay.Stage.delivering p [] newest).IsUnbroken := by
    refine ⟨fun _ he => (nomatch he), fun t ht => ?_, by simp⟩
    cases ht
    simpa [Replay.floorBelow?] using hb
  obtain ⟨stage', ⟨hunderway, -⟩, hk'⟩ :=
    w.hub.stage_of_deliver k ⟨c, request, _⟩ hunbroken rfl
  have hnext : (w.apply (.advance k)).hub.task k = .replay ⟨c, request, stage'⟩ := by
    change (w.hub.advance k).task k = _
    rw [Hub.advance_of_not_isWaiting hk rfl rfl]
    exact hk'
  rw [hnext]
  cases stage' <;> first | rfl | cases hunderway

/-- It leaves the floor that its answer sets. -/
theorem Floored.sets (h : w.Floored past k)
    (hk : w.hub.task k = .replay ⟨c, request, .delivering p [] newest⟩) :
    ∃ events ∈ lastFound? k past,
      ∀ floor ∈ ((w.apply (.advance k)).hub.task k).floor?, p.Sets events floor := by
  have hkeeps := h _ hk
  obtain ⟨-, events, hfound, -⟩ := hkeeps.round
  refine ⟨events, hfound, fun floor hf => ?_⟩
  obtain ⟨stage', hn, hnext, -⟩ := next_of_canAdvance hk (canAdvance_of_delivering hk)
  rw [hnext] at hf
  obtain ⟨events', hfound', -, hsets⟩ := Replay.sets_of_next hn hkeeps hf
  cases hfound.symm.trans hfound'
  exact hsets

/-- No other move changes the floor. -/
theorem Floored.floor?_eq_or (h : w.Floored past k) (hsound : w.Sound)
    (hk : w.hub.task k = .replay ⟨c, request, stage⟩) (hm : w.Conceivable m)
    {floor floor' : Instant} (hf : stage.floor? = some floor)
    (hf' : ((w.apply m).hub.task k).floor? = some floor') :
    floor' = floor ∨ (m = .advance k ∧ ∃ p newest, stage = .delivering p [] newest) ∧
      (floor ≤ floor' ∨ request.lastSeen = some floor') := by
  have hkeeps := h _ hk
  rcases hsound.replay_next hk hm with hnext | ⟨p, a, rfl, hs, hnext⟩ |
    ⟨stage', s, rfl, hn, hnext⟩
  · rw [hnext] at hf'
    exact .inl (Option.some.inj (hf'.symm.trans hf))
  · cases hs
    rw [hnext] at hf'
    exact .inl (Option.some.inj (hf'.symm.trans hf))
  · rw [hnext] at hf'
    by_cases hclosing : ∃ p newest, stage = .delivering p [] newest
    · obtain ⟨p, newest, rfl⟩ := hclosing
      obtain ⟨events, -, -, hsets⟩ := Replay.sets_of_next hn hkeeps hf'
      cases hf
      refine .inr ⟨⟨rfl, p, newest, rfl⟩, hsets.not_lower.imp_right fun heq => ?_⟩
      rw [heq]
      exact hkeeps.1.cursor
    · have hopen : ∀ p newest, stage ≠ .delivering p [] newest :=
        fun p newest heq => hclosing ⟨p, newest, heq⟩
      exact .inl (Replay.floor?_of_next hn hopen hf hf')

end Closing

/-! ### The library's own log -/

/-- Outside of leap seconds the log compares times as they are. -/
theorem finds_of_mayAnswer {log : Log} {after : Instant} {events : List Event}
    (hafter : after.nano < 1000000000) (h : MayAnswer (log.eventsAfter after) (.ok events)) :
    Replay.Finds log.Holds after events where
  whole _ he := he.isWhole
  mem_iff _ := (mem_iff_of_mayAnswer h).trans (and_congr_right fun he =>
    ⟨Instant.lt_of_micros_lt he.isWhole, Instant.micros_lt_of_lt hafter he.isWhole⟩)

/-- A replay whose cursor is in no leap second asks for what comes after one neither. -/
theorem honest_of_possible (run : Run Possible (.new capacity replays start) past w)
    (hcursor : ∀ r, w.hub.task k = .replay r →
      ∀ cursor ∈ r.request.lastSeen, cursor.nano < 1000000000) :
    Run (Honest k) (.new capacity replays start) past w := by
  induction run with
  | nil => exact .nil
  | @cons past w m run hm ih =>
    have htidy := tidy_of_run run
    have hcursor' : ∀ r, w.hub.task k = .replay r →
        ∀ cursor ∈ r.request.lastSeen, cursor.nano < 1000000000 := by
      intro r hk
      obtain ⟨stage, hk'⟩ := (effect htidy hm).replay_task htidy hk
      exact hcursor { r with stage } hk'
    have honest := ih hcursor'
    refine .cons honest ⟨fun _ => hm, ?_⟩
    rintro events rfl
    obtain ⟨after, hafter, hmay⟩ := hm
    refine ⟨after, hafter, fun r hk => ⟨w.log.Holds, finds_of_mayAnswer ?_ hmay⟩⟩
    obtain ⟨p, hs, rfl⟩ := exists_asking_of_question? hk hafter
    have hserves := (floored_of_run honest).2 r hk
    rw [hs] at hserves
    rcases hserves.isFloor with heq | ⟨-, hwhole⟩
    · rw [heq]
      exact hcursor' r hk _ hserves.cursor
    · exact hwhole.1

end Run

/-- A policy created one microsecond after the first instant that there is. -/
def soonest : Draft where
  kind := .policyCreated
  createdAt := ⟨Instant.minSecond, 1000, by decide⟩

/-- The cursor is the first instant. While the history is on its way, a tick announces another event
of the time of the first, and the replay asks again. -/
def twins : List Move :=
  [.append soonest, .connect,
    .subscribe 0 { channel := .systemEvents, lastSeen := some Replay.earliest }] ++
  List.replicate 5 (.advance 0) ++ [.answer 0 (.ok [soonest.event 1])] ++
  List.replicate 4 (.advance 0) ++
  [.append soonest, .startTick, .advance 1, .answer 1 (.ok [soonest.event 1, soonest.event 2]),
    .advance 1, .advance 1, .advance 0, .advance 0,
    .answer 0 (.ok [soonest.event 1, soonest.event 2]), .advance 0, .advance 0]

end World

end EventStream
