import EventStream.Proofs.Delivery.Gap
import EventStream.Proofs.Delivery.Queue
import EventStream.Proofs.World.Sound

/-! How far a replay is with its history: from where it reads what has been announced, over the
query and its answer, to the last event dealt with. -/

namespace EventStream

namespace Replay

/-- The messages of the events past the gate `id`. -/
def messagesPast (id : Int) (events : List Event) : List Message :=
  (events.filter (id < ·.id)).filterMap Message.ofEvent?

theorem messagesPast_concat (id : Int) (done : List Event) (e : Event) :
    messagesPast id (done ++ [e]) = messagesPast id done ++
      if id < e.id then (Message.ofEvent? e).toList else [] := by
  by_cases hid : id < e.id
  · cases hm : Message.ofEvent? e <;> simp [messagesPast, hid, hm]
  · simp [messagesPast, hid]

theorem mem_messagesPast {id : Int} {events : List Event} {m : Message} :
    m ∈ messagesPast id events ↔ ∃ e ∈ events, id < e.id ∧ Message.ofEvent? e = some m := by
  simp only [messagesPast, List.mem_filterMap, List.mem_filter, decide_eq_true_eq, and_assoc]

theorem messagesPast_ascending {id : Int} {events : List Event}
    (h : events.Pairwise (·.id < ·.id)) : (messagesPast id events).Pairwise (·.id < ·.id) := by
  refine List.Pairwise.filterMap _ (fun a b hab m hm n hn => ?_) (h.filter _)
  rw [Message.id_eq_of_ofEvent? hm, Message.id_eq_of_ofEvent? hn]
  exact hab

/-- Where the gate stands in a round whose events ascend. -/
theorem lt_iff_of_gateAfter {id : Int} {done : List Event} {e : Event}
    (h : ∀ d ∈ done, d.id < e.id) : gateAfter id done < e.id ↔ id < e.id := by
  refine ⟨fun hlt => Int.lt_of_le_of_lt (le_gateAfter id done) hlt, fun hlt => ?_⟩
  rcases gateAfter_mem id done with heq | ⟨d, hd, heq⟩
  · rw [heq]
    exact hlt
  · rw [heq]
    exact h d hd

/-- The stages after the history, whatever has come of it. -/
def Stage.isPastHistory : Stage → Bool
  | asking (.gap ..) => true
  | answered (.history ..) (.error _) => true
  | answered (.gap ..) _ => true
  | delivering (.gap ..) .. => true
  | reconciling .. => true
  | lagging .. => true
  | confirming _ => true
  | reporting _ => true
  | aborting _ => true
  | ended => true
  | _ => false

theorem isPastHistory_of_next {announced : Int} {request : Subscription} {stage stage' : Stage}
    {s t : Subscriber} (hn : Next announced request stage s stage' t)
    (h : stage.isPastHistory = true) : stage'.isPastHistory = true := by
  cases hn with
  | @take _ purpose => cases purpose <;> first | rfl | cases h
  | @skip _ purpose => cases purpose <;> first | rfl | cases h
  | @stale _ purpose => cases purpose <;> first | rfl | cases h
  | @queue _ purpose => cases purpose <;> first | rfl | cases h
  | arrive | lock | grant | begin | beginFresh | ask | closeHistory => cases h
  | _ => rfl

end Replay

namespace World

/-! ### On the way -/

/-- Replay `k`, when it was `r`, read what had been announced: all ids up to `covered`. -/
def HasRead (past : List (World × Move)) (k : TaskId) (r : Replay) (covered : Int) : Prop :=
  ∃ v, (v, .advance k) ∈ past ∧ v.hub.task k = .replay r ∧ v.hub.checkpoint.announced = covered

/-- The log, with ids up to `covered` at least, answered the query of replay `k` with the events
after the cursor, in the order of their ids. -/
def HasFound (past : List (World × Move)) (k : TaskId) (cursor : Instant) (covered : Int)
    (es : List Event) : Prop :=
  ∃ v, (v, .answer k (.ok es)) ∈ past ∧ MayAnswer (v.log.eventsAfter cursor) (.ok es) ∧
    covered ≤ v.log.lastId ∧ es.Pairwise (·.id < ·.id)

theorem HasRead.cons {past : List (World × Move)} {k : TaskId} {r : Replay} {covered : Int}
    (h : HasRead past k r covered) (p : World × Move) : HasRead (p :: past) k r covered := by
  obtain ⟨v, hv, h⟩ := h
  exact ⟨v, List.mem_cons_of_mem p hv, h⟩

theorem HasFound.cons {past : List (World × Move)} {k : TaskId} {cursor : Instant} {covered : Int}
    {es : List Event} (h : HasFound past k cursor covered es) (p : World × Move) :
    HasFound (p :: past) k cursor covered es := by
  obtain ⟨v, hv, h⟩ := h
  exact ⟨v, List.mem_cons_of_mem p hv, h⟩

/-- How far replay `r` is with the history after the cursor, of which its subscriber, then `s₀`,
is now `s`. -/
def Recalls (past : List (World × Move)) (k : TaskId) (r : Replay) (cursor : Instant)
    (s₀ : Subscriber) (announced : Int) (s : Subscriber) : Replay.Stage → Prop
  | .opening previous after => r.stage = .opening previous after ∧ after = cursor ∧
      s.messages = s₀.messages ∧ s.lastEventId = s₀.lastEventId
  | .asking (.history _ after covered) => after = cursor ∧ HasRead past k r covered ∧
      covered ≤ announced ∧ s.messages = s₀.messages ∧ s.lastEventId = s₀.lastEventId
  | .answered (.history _ _ covered) (.ok es) => HasRead past k r covered ∧
      HasFound past k cursor covered es ∧ s.messages = s₀.messages ∧
      s.lastEventId = s₀.lastEventId
  | .delivering (.history _ _ covered) left _ => HasRead past k r covered ∧
      ∃ done, HasFound past k cursor covered (done ++ left) ∧
        s.messages = s₀.messages ++ Replay.messagesPast s₀.lastEventId done ∧
        s.lastEventId = Replay.gateAfter s₀.lastEventId done
  | .settling .. => ∃ covered es, HasRead past k r covered ∧ HasFound past k cursor covered es ∧
      s.messages = s₀.messages ++ Replay.messagesPast s₀.lastEventId es ∧
      s.lastEventId = max (Replay.gateAfter s₀.lastEventId es) covered
  | _ => False

section Recalls

variable {past : List (World × Move)} {k : TaskId} {r : Replay} {cursor : Instant}
  {s₀ s t : Subscriber} {announced : Int} {stage stage' : Replay.Stage}

/-- While others move. -/
theorem recalls_cons {announced' : Int} (p : World × Move)
    (h : Recalls past k r cursor s₀ announced s stage) (hle : announced ≤ announced')
    (hm : t.messages = s.messages) (hid : t.lastEventId = s.lastEventId) :
    Recalls (p :: past) k r cursor s₀ announced' t stage := by
  cases stage with
  | opening => exact ⟨h.1, h.2.1, hm.trans h.2.2.1, hid.trans h.2.2.2⟩
  | asking purpose =>
      cases purpose with
      | gap => exact h
      | history =>
          obtain ⟨hafter, hread, hcovered, hsame⟩ := h
          exact ⟨hafter, hread.cons p, Int.le_trans hcovered hle, hm.trans hsame.1,
            hid.trans hsame.2⟩
  | answered purpose a =>
      cases purpose with
      | gap => exact h
      | history =>
          cases a with
          | error failure => exact h
          | ok es =>
              obtain ⟨hread, hfound, hsame⟩ := h
              exact ⟨hread.cons p, hfound.cons p, hm.trans hsame.1, hid.trans hsame.2⟩
  | delivering purpose left newest =>
      cases purpose with
      | gap => exact h
      | history =>
          obtain ⟨hread, done, hfound, hsame⟩ := h
          exact ⟨hread.cons p, done, hfound.cons p, hm.trans hsame.1, hid.trans hsame.2⟩
  | settling =>
      obtain ⟨covered, es, hread, hfound, hsame⟩ := h
      exact ⟨covered, es, hread.cons p, hfound.cons p, hm.trans hsame.1, hid.trans hsame.2⟩
  | _ => exact h

/-- One more event of the history is dealt with. -/
theorem recalls_delivering (p : World × Move) {previous : Subscriber.Previous} {after : Instant}
    {covered : Int} {e : Event} {rest : List Event} {newest newest' : Option Instant}
    (h : Recalls past k r cursor s₀ announced s
      (.delivering (.history previous after covered) (e :: rest) newest))
    (hm : t.messages = s.messages ++
      if s.lastEventId < e.id then (Message.ofEvent? e).toList else [])
    (hid : t.lastEventId = max s.lastEventId e.id) :
    Recalls (p :: past) k r cursor s₀ announced t
      (.delivering (.history previous after covered) rest newest') := by
  obtain ⟨hread, done, hfound, hmessages, hgate⟩ := h
  have hbelow : ∀ d ∈ done, d.id < e.id := by
    obtain ⟨v, -, -, -, hascending⟩ := hfound
    exact fun d hd => (List.pairwise_append.mp hascending).2.2 d hd e List.mem_cons_self
  refine ⟨hread.cons p, done ++ [e], ?_, ?_, ?_⟩
  · rw [List.append_assoc]
    exact hfound.cons p
  · rw [hm, hmessages, Replay.messagesPast_concat, hgate, List.append_assoc]
    simp only [Replay.lt_iff_of_gateAfter hbelow]
  · rw [hid, hgate, Replay.gateAfter_concat]

/-- The replay's own step. -/
theorem recalls_of_next {w : World} (hk : w.hub.task k = .replay { r with stage })
    (hn : Replay.Next w.hub.checkpoint.announced r.request stage s stage' t)
    (h : Recalls past k r cursor s₀ w.hub.checkpoint.announced s stage) :
    stage'.isPastHistory = true ∨
      Recalls ((w, .advance k) :: past) k r cursor s₀ w.hub.checkpoint.announced t stage' := by
  cases hn with
  | ask =>
      obtain ⟨hstage, hafter, hsame⟩ := h
      rw [← hstage] at hk
      exact .inr ⟨hafter, ⟨w, List.mem_cons_self, hk, rfl⟩, Int.le_refl _, hsame⟩
  | @take _ purpose es =>
      cases purpose with
      | gap => exact h.elim
      | history =>
          obtain ⟨hread, hfound, hm, hid⟩ := h
          refine .inr ⟨hread.cons _, [], hfound.cons _, ?_, hid⟩
          simpa [Replay.messagesPast] using hm
  | @skip _ purpose e rest newest hm =>
      cases purpose with
      | gap => exact h.elim
      | history => exact .inr (recalls_delivering _ h (by simp [hm]) rfl)
  | @stale _ purpose e rest newest m hm hid =>
      cases purpose with
      | gap => exact h.elim
      | history =>
          refine .inr (recalls_delivering _ h ?_ (Int.max_eq_left hid).symm)
          rw [if_neg (Int.not_lt.mpr hid), List.append_nil]
  | @queue _ purpose e rest newest m hm hid =>
      cases purpose with
      | gap => exact h.elim
      | history =>
          refine .inr (recalls_delivering _ h ?_ (Int.max_eq_right (Int.le_of_lt hid)).symm)
          rw [if_pos hid, hm]
          exact Subscriber.messages_queued s e.id m
  | @closeHistory _ _ _ covered =>
      obtain ⟨hread, done, hfound, hm, hid⟩ := h
      rw [List.append_nil] at hfound
      refine .inr ⟨covered, done, hread.cons _, hfound.cons _, hm, ?_⟩
      rw [← hid]
      rfl
  | drop | historyFailed | refuseHistory | breakHistory | settle => exact .inl rfl
  | _ => exact h.elim

/-- All it puts to the queue are events. -/
theorem isSome_of_puts? {channel : Channel}
    (h : Recalls past k r cursor s₀ announced s stage) {f : Frame}
    (hf : stage.puts? announced channel s = some f) : f.message?.isSome = true := by
  cases stage with
  | delivering purpose left newest =>
      cases left with
      | nil => cases hf
      | cons e rest =>
          simp only [Replay.Stage.puts?] at hf
          split at hf
          · obtain ⟨m, -, rfl⟩ := Option.map_eq_some_iff.mp hf
            rfl
          · cases hf
  | reconciling | confirming | reporting => exact h.elim
  | _ => cases hf

theorem Recalls.hasBegun (h : Recalls past k r cursor s₀ announced s stage) :
    stage.hasBegun = true := by
  cases stage <;> first | rfl | exact h.elim

end Recalls

/-! ### A whole run -/

/-- All that task `k` has put to the queue of connection `c` are events. -/
def SaysEvents (past : List (World × Move)) (k : TaskId) (c : ConnectionId) : Prop :=
  ∀ v, (v, .advance k) ∈ past → ∀ f ∈ v.hub.puts? k c, f.message?.isSome = true

theorem SaysEvents.cons {past : List (World × Move)} {k : TaskId} {c : ConnectionId} {w : World}
    {m : Move} (h : SaysEvents past k c)
    (hm : m = .advance k → ∀ f ∈ w.hub.puts? k c, f.message?.isSome = true) :
    SaysEvents ((w, m) :: past) k c := by
  intro v hv
  rcases List.mem_cons.mp hv with heq | hv
  · cases heq
    exact hm rfl
  · exact h v hv

/-- Replay `k` is with its history, and has said nothing else. -/
structure Reading (past : List (World × Move)) (k : TaskId) (r : Replay) (cursor : Instant)
    (s₀ : Subscriber) (w : World) : Prop where
  said : SaysEvents past k r.connection
  stage : ∃ stage, w.hub.task k = .replay { r with stage } ∧
    Recalls past k r cursor s₀ w.hub.checkpoint.announced (w.hub.subscriber r.connection) stage

def IsPastHistory (k : TaskId) (r : Replay) (w : World) : Prop :=
  ∃ stage, w.hub.task k = .replay { r with stage } ∧ stage.isPastHistory = true

section Run

variable {capacity replays : Nat} {start : Instant} {earlier past : List (World × Move)}
  {k : TaskId} {r : Replay} {previous : Subscriber.Previous} {cursor : Instant} {s₀ : Subscriber}
  {u w : World} {m : Move}

theorem IsPastHistory.step (h : w.IsPastHistory k r) (hw : w.hub.Tidy) (hm : w.Possible m) :
    (w.apply m).IsPastHistory k r := by
  obtain ⟨stage, hk, hpast⟩ := h
  rcases (effect hw hm).replay_next hw hk with ht | ⟨purpose, a, -, hs, ht⟩ |
    ⟨stage', s, -, hn, ht⟩
  · exact ⟨stage, ht, hpast⟩
  · cases hs
    cases purpose with
    | history => cases hpast
    | gap => exact ⟨_, ht, rfl⟩
  · exact ⟨stage', ht, Replay.isPastHistory_of_next hn hpast⟩

/-- Its own step. -/
theorem Reading.advance (h : Reading past k r cursor s₀ w) :
    (w.apply (.advance k)).IsPastHistory k r ∨
      Reading ((w, .advance k) :: past) k r cursor s₀ (w.apply (.advance k)) := by
  obtain ⟨stage, hk, hrecalls⟩ := h.stage
  have hsaid : SaysEvents ((w, .advance k) :: past) k r.connection := by
    refine h.said.cons fun _ f hf => ?_
    simp only [Hub.puts?, hk, ite_true] at hf
    exact isSome_of_puts? hrecalls hf
  cases hcan : w.hub.canAdvance k with
  | false =>
      rw [apply_advance_of_not_canAdvance hcan]
      exact .inr ⟨hsaid, stage, hk, recalls_cons _ hrecalls (Int.le_refl _) rfl rfl⟩
  | true =>
      obtain ⟨stage', hn, hk', hcheckpoint⟩ := next_of_canAdvance hk hcan
      rcases recalls_of_next hk hn hrecalls with hpast | hrecalls'
      · exact .inl ⟨stage', hk', hpast⟩
      · exact .inr ⟨hsaid, stage', hk', by rw [hcheckpoint]; exact hrecalls'⟩

/-- The answer to its query. -/
theorem Reading.answer (h : Reading past k r cursor s₀ w) {a : Answer}
    (hann : w.hub.checkpoint.announced ≤ w.log.lastId) (hm : w.Orderly k (.answer k a)) :
    (w.apply (.answer k a)).IsPastHistory k r ∨
      Reading ((w, .answer k a) :: past) k r cursor s₀ (w.apply (.answer k a)) := by
  obtain ⟨stage, hk, hrecalls⟩ := h.stage
  obtain ⟨asked, hasked, hmay⟩ := hm.possible
  have hsubscriber := congrFun (w.hub.answer_subscriber k a) r.connection
  cases stage with
  | asking purpose =>
      cases purpose with
      | gap => exact hrecalls.elim
      | history previous after covered =>
          have hk' := task_answer hk rfl a
          obtain ⟨rfl, hread, hcovered, hmessages, hid⟩ := hrecalls
          obtain rfl : after = asked := by
            rw [hk] at hasked
            exact Option.some.inj hasked
          cases a with
          | error failure => exact .inl ⟨_, hk', rfl⟩
          | ok es =>
              refine .inr ⟨h.said.cons nofun, _, hk', hread.cons _, ?_, ?_, ?_⟩
              · exact ⟨w, List.mem_cons_self, hmay, Int.le_trans hcovered hann, hm.ordered rfl⟩
              · exact (congrArg Subscriber.messages hsubscriber).trans hmessages
              · exact (congrArg Subscriber.lastEventId hsubscriber).trans hid
  | _ => rw [hk] at hasked; cases hasked

/-- What others do. -/
theorem Reading.foreign (h : Reading past k r cursor s₀ w) (hw : w.Sound) (hm : w.Possible m)
    (hown : m ≠ .advance k) (ha : m.answered? ≠ some k) :
    Reading ((w, m) :: past) k r cursor s₀ (w.apply m) := by
  obtain ⟨stage, hk, hrecalls⟩ := h.stage
  obtain ⟨hk', halike⟩ := hw.stays hk hm hown ha
  have halike := halike hrecalls.hasBegun
  exact ⟨h.said.cons fun heq => absurd heq hown, stage, hk',
    recalls_cons _ hrecalls (effect hw.tidy hm).announced_le halike.messages halike.lastEventId⟩

theorem Reading.step (h : Reading past k r cursor s₀ w) (hw : w.Sound)
    (hann : w.hub.checkpoint.announced ≤ w.log.lastId) (hm : w.Orderly k m) :
    (w.apply m).IsPastHistory k r ∨ Reading ((w, m) :: past) k r cursor s₀ (w.apply m) := by
  by_cases hown : m = .advance k
  · subst hown
    exact h.advance
  · by_cases ha : m.answered? = some k
    · cases m with
      | answer j a =>
          cases ha
          exact h.answer hann hm
      | _ => cases ha
    · exact .inr (h.foreign hw hm.possible hown ha)

theorem reading_of_run (before : Run Steady (.new capacity replays start) earlier u)
    (hk : u.hub.task k = .replay r) (hr : r.stage = .opening previous cursor)
    (run : Run (Orderly k) u past w) :
    w.IsPastHistory k r ∨ Reading past k r cursor (u.hub.subscriber r.connection) w := by
  induction run with
  | nil =>
      refine .inr ⟨fun _ hv => (nomatch hv), r.stage, hk, ?_⟩
      rw [hr]
      exact ⟨hr, rfl, rfl, rfl⟩
  | @cons past w m run hm ih =>
      have steady := before.append (run.mono fun _ _ hm => hm.toSteady)
      have possible := possible_of_steady steady
      rcases ih with hpast | hreading
      · exact .inl (hpast.step (tidy_of_run possible) hm.possible)
      · exact hreading.step (sound_of_run (possible.mono fun _ _ hm _ => hm))
          (announced_le_lastId steady) hm

end Run

end World

end EventStream
