import EventStream.Proofs.Delivery.Phases

/-! All that tasks have queued on a connection, in order. A tick queues nothing there before the
connection has been confirmed, and only while it is live. -/

namespace EventStream

namespace Replay

theorem Stage.hasBegun_of_mem_previous? {stage : Stage} {p : Subscriber.Previous}
    (h : p ∈ stage.previous?) : stage.hasBegun = true := by
  cases stage <;> first | rfl | cases h

section Act

variable {request : Subscription} {put : Option Frame} {stage stage' : Stage} {s t : Subscriber}

/-- Let a subscriber be live just if it has been confirmed, but while the replay is under way, and
let that be saved with it. So it is again after the replay has moved. -/
theorem live_of_act (ha : Act request put stage s stage' t) {Confirmed Confirmed' : Prop}
    (hput : Confirmed' ↔ Confirmed ∨ ∃ channel, put = some (.subscriptionConfirmed channel))
    (hsettled : ∀ p ∈ stage.previous?, p.IsSettled)
    (hsaved : ∀ p ∈ stage.previous?, p.phase = .live ↔ Confirmed)
    (hlive : stage.holdsLock = true → stage.hasBegun = false → (s.phase = .live ↔ Confirmed)) :
    (∀ p ∈ stage'.previous?, p.phase = .live ↔ Confirmed') ∧
      (t = s ∧ stage'.hasBegun = stage.hasBegun ∧ (Confirmed' ↔ Confirmed) ∨
        stage.holdsLock = true ∧ (stage'.hasBegun = false → (t.phase = .live ↔ Confirmed'))) := by
  cases ha with
  | arrive | lock | grant =>
      exact ⟨fun p hmem => (nomatch hmem), .inl ⟨rfl, rfl, by simpa using hput⟩⟩
  | begin hb _ hp =>
      have hsame : Confirmed' ↔ Confirmed := by simpa using hput
      refine ⟨fun p hmem => ?_, .inr ⟨rfl, fun hnot => ?_⟩⟩
      · rw [hp p hmem, hsame]
        exact hlive rfl rfl
      · simp [Stage.hasBegun_eq, hb] at hnot
  | goOn hb hb' _ hc hp =>
      have hsame : Confirmed' ↔ Confirmed := by simpa using hput
      refine ⟨fun p hmem => by rw [hsame]; exact hsaved p (hp p hmem), .inr ⟨?_, fun hnot => ?_⟩⟩
      · exact Stage.holdsLock_of_hasBegun (by simp [Stage.hasBegun_eq, hb])
      · simp [Stage.hasBegun_eq, hb'] at hnot
  | event hd hd' hc hp =>
      have hsame : Confirmed' ↔ Confirmed := by simpa using hput
      refine ⟨fun p hmem => by rw [hsame]; exact hsaved p (hp p hmem), .inr ⟨?_, fun hnot => ?_⟩⟩
      · exact Stage.holdsLock_of_hasBegun (Stage.hasBegun_of_isDelivering hd)
      · rw [Stage.hasBegun_of_isDelivering hd'] at hnot
        cases hnot
  | confirm hb _ hc hl =>
      refine ⟨fun p hmem => (nomatch hmem), .inr ⟨?_, fun _ => ?_⟩⟩
      · exact Stage.holdsLock_of_hasBegun (by simp [Stage.hasBegun_eq, hb])
      · exact iff_of_true hl (hput.mpr (.inr ⟨_, rfl⟩))
  | report halike =>
      have hsame : Confirmed' ↔ Confirmed := by simpa [Frame.historyFailed] using hput
      refine ⟨fun p hmem => by rw [hsame]; exact hsaved p hmem, .inr ⟨rfl, fun hnot => ?_⟩⟩
      cases hnot
  | @abort previous =>
      have hsame : Confirmed' ↔ Confirmed := by simpa using hput
      refine ⟨fun p hmem => (nomatch hmem), .inr ⟨rfl, fun _ => ?_⟩⟩
      rw [hsame, ← hsaved _ rfl]
      rcases hsettled _ rfl with rfl | rfl
      · simp [Subscriber.abortReplay, Phase.isReplaying]
      · simp [Subscriber.abortReplay, Phase.isReplaying]

end Act

end Replay

namespace World

/-- The frames that a move of a task queues on the connection, each with the task. -/
def queued (c : ConnectionId) (w : World) : Move → List (TaskId × Frame)
  | .advance k =>
    (((w.apply (.advance k)).hub.subscriber c).outbound.accepted.drop
      (w.hub.subscriber c).outbound.accepted.length).map (k, ·)
  | _ => []

/-- All that the tasks of a run have queued on the connection, oldest first. -/
def transcript (c : ConnectionId) : List (World × Move) → List (TaskId × Frame)
  | [] => []
  | (w, m) :: past => transcript c past ++ queued c w m

/-- A task has confirmed the connection's subscription. -/
def Confirmed (c : ConnectionId) (past : List (World × Move)) : Prop :=
  ∃ k channel, (k, .subscriptionConfirmed channel) ∈ transcript c past

section Queued

variable {c : ConnectionId} {w : World} {k : TaskId} {m : Move}

theorem queued_advance (h : w.Accepts c (.advance k)) :
    queued c w (.advance k) = (w.hub.puts? k c).toList.map (k, ·) := by
  have hput := (w.hub.puts_advance k c).accepted (h k rfl)
  change (((w.hub.advance k).subscriber c).outbound.accepted.drop _).map _ = _
  rw [hput, List.drop_left]

theorem queued_of_not_puts (h : w.Accepts c m) (hp : ∀ k ∈ m.advanced?, w.hub.puts? k c = none) :
    queued c w m = [] := by
  cases m with
  | advance k => rw [queued_advance h, hp k rfl]; rfl
  | _ => rfl

theorem confirmed_cons {past : List (World × Move)} :
    Confirmed c ((w, m) :: past) ↔
      Confirmed c past ∨ ∃ k channel, (k, .subscriptionConfirmed channel) ∈ queued c w m := by
  simp only [Confirmed, transcript, List.mem_append]
  grind

theorem confirmed_advance {past : List (World × Move)} (h : w.Accepts c (.advance k)) :
    Confirmed c ((w, .advance k) :: past) ↔ Confirmed c past ∨
      ∃ channel, w.hub.puts? k c = some (.subscriptionConfirmed channel) := by
  rw [confirmed_cons, queued_advance h]
  cases w.hub.puts? k c with
  | none => simp
  | some f => simp [eq_comm]

end Queued

/-! ### Live and confirmed -/

/-- The connection is live just if it has been confirmed, but while one of its replays is under
way, and only then has a tick found it live. -/
structure Attested (c : ConnectionId) (past : List (World × Move)) (w : World) : Prop where
  live : ¬ w.IsReplaying c → ((w.hub.subscriber c).phase = .live ↔ Confirmed c past)
  remembered : ∀ p, w.Remembers c p → (p.phase = .live ↔ Confirmed c past)
  picked : ∀ k stage, w.hub.task k = .tick stage → c ∈ stage.picked → Confirmed c past

section Step

variable {c : ConnectionId} {w w' : World} {m : Move} {past : List (World × Move)}

/-- What a tick has found live it has found so just now, or a move before. -/
theorem Effect.picked (he : Effect w m w') {k : TaskId} {stage : Tick.Stage}
    (hk : w'.hub.task k = .tick stage) (hc : c ∈ stage.picked) :
    (∃ stage, w.hub.task k = .tick stage ∧ c ∈ stage.picked) ∨
      (w.hub.subscriber c).isLiveOn .systemEvents = true := by
  have hcame := he.came k
  rw [hk] at hcame
  cases hcame with
  | stays _ hold => exact .inl ⟨stage, hold, hc⟩
  | startsTick => cases hc
  | answersTick => cases hc
  | movesTick hold hn =>
      exact (Tick.mem_picked_of_next hn hc).imp_left fun hmem => ⟨_, hold, hmem⟩

/-- The connection is replaying in one of its replaying phases only. -/
theorem Withheld.not_isReplaying (hw : w.Withheld)
    (h : (w.hub.subscriber c).phase.isReplaying = false) : ¬ w.IsReplaying c := by
  rintro ⟨k, r, hk, rfl, hb⟩
  rw [hw k r hk hb] at h
  cases h

theorem Attested.picked_step (h : Attested c past w) (hphased : w.Phased c) (hwith : w.Withheld)
    (he : Effect w m w') {k : TaskId} {stage : Tick.Stage} (hk : w'.hub.task k = .tick stage)
    (hc : c ∈ stage.picked) : Confirmed c past := by
  rcases he.picked hk hc with ⟨stage, hk, hc⟩ | hlive
  · exact h.picked k stage hk hc
  · have hphase := (hphased.isLiveOn_iff hwith).mp hlive
    exact (h.live (hwith.not_isReplaying (by rw [hphase]; rfl))).mp hphase

theorem Attested.act (h : Attested c past w) (hphased : w.Phased c) (hl : w.Locked)
    {k : TaskId} {r : Replay} {stage : Replay.Stage} (hk : w.hub.task k = .replay r)
    (hc : r.connection = c) (haccepts : w.Accepts c (.advance k))
    (ha : Replay.Act r.request (w.hub.puts? k c) r.stage (w.hub.subscriber c) stage
      (w'.hub.subscriber c))
    (ht : w'.hub.task = update w.hub.task k (.replay { r with stage }))
    (hpicked : ∀ j tick, w'.hub.task j = .tick tick → c ∈ tick.picked → Confirmed c past) :
    Attested c ((w, .advance k) :: past) w' := by
  subst hc
  have hput : Confirmed r.connection ((w, .advance k) :: past) ↔ _ :=
    confirmed_advance haccepts
  have hlive (hlock : r.stage.holdsLock = true) (hb : r.stage.hasBegun = false) :=
    h.live fun hunder => by
      rw [hl.isReplaying_iff hk hlock, hb] at hunder
      cases hunder
  have hmine {p} (hmem : p ∈ r.stage.previous?) : w.Remembers r.connection p :=
    ⟨k, r, hk, rfl, hmem⟩
  obtain ⟨hsaved, hs⟩ := Replay.live_of_act ha hput
    (fun p hmem => hphased.remembered p (hmine hmem))
    (fun p hmem => h.remembered p (hmine hmem)) hlive
  have hkept : ∀ j tick, w'.hub.task j = .tick tick → r.connection ∈ tick.picked →
      Confirmed r.connection ((w, .advance k) :: past) :=
    fun j tick hj hmem => hput.mpr (.inl (hpicked j tick hj hmem))
  rcases hs with ⟨hsame, hb, hconf⟩ | ⟨hlock, hlive'⟩
  · refine ⟨?_, fun p hp => ?_, hkept⟩
    · rw [isReplaying_iff_of_same hk ht hb, hsame, hconf]
      exact h.live
    · rcases remembers_of_update ht hp with hmem | hp
      · exact hsaved p hmem
      · rw [hconf]
        exact h.remembered p hp
  · refine ⟨fun hnot => hlive' ?_, fun p hp => hsaved p ?_, hkept⟩
    · exact Bool.eq_false_iff.mpr fun hb => hnot ((hl.isReplaying_iff_of_update hk hlock ht).mpr hb)
    · obtain ⟨j, q, hj, hq, hmem⟩ := hp
      rw [ht] at hj
      rcases eq_or_of_update_eq hj with ⟨-, heq⟩ | ⟨hjk, hj⟩
      · cases heq
        exact hmem
      · have hb := Replay.Stage.hasBegun_of_mem_previous? hmem
        exact absurd (hl.unique hj hk (Replay.Stage.holdsLock_of_hasBegun hb) hlock hq) hjk

theorem attested_step (h : Attested c past w) (hphased : w.Phased c) (hw : w.hub.Tidy)
    (hl : w.Locked) (hwith : w.Withheld) (ha : w.Accepts c m) (he : Effect w m w')
    (hm : Concerns c w w' m) : Attested c ((w, m) :: past) w' := by
  have hpicked : ∀ k stage, w'.hub.task k = .tick stage → c ∈ stage.picked → Confirmed c past :=
    fun k stage => h.picked_step hphased hwith he
  rcases hm.quiet_or_act hw with ⟨hq, hput⟩ | ⟨k, r, stage, rfl, hk, hc, hact, ht⟩
  · have hsame : Confirmed c ((w, m) :: past) ↔ Confirmed c past := by
      cases m with
      | advance k => rw [confirmed_advance ha]; simp [hput k rfl]
      | _ => rw [confirmed_cons]; simp [queued]
    refine ⟨?_, fun p hp => ?_, fun k stage hk hmem => hsame.mpr (hpicked k stage hk hmem)⟩
    · rw [hq.isReplaying, hq.phase, hsame]
      exact h.live
    · rw [hsame]
      exact h.remembered p (hq.remembers p hp)
  · exact h.act hphased hl hk hc ha hact ht hpicked

end Step

/-- A run has come through each world of its past. -/
theorem Run.before {allowed : World → Move → Prop} {start v w : World}
    {before after : List (World × Move)} {m : Move}
    (run : Run allowed start (after ++ (v, m) :: before) w) :
    Run allowed start before v ∧ allowed v m := by
  induction after generalizing w with
  | nil =>
      cases run with
      | cons run hm => exact ⟨run, hm⟩
  | cons p after ih =>
      cases run with
      | cons run _ => exact ih run

section Run

variable {capacity replays : Nat} {start : Instant} {past : List (World × Move)} {w : World}
  {c : ConnectionId}

theorem attested_of_run (run : Run (Hears c) (.new capacity replays start) past w) :
    Attested c past w := by
  induction run with
  | nil =>
      have hnone : ¬ Confirmed c [] := by
        rintro ⟨k, channel, hmem⟩
        cases hmem
      refine ⟨fun _ => iff_of_false (fun hp => nomatch hp) hnone, ?_, fun k stage hk hmem => ?_⟩
      · rintro p ⟨k, r, hk, -⟩
        cases hk
      · cases hk
        cases hmem
  | cons run hm ih =>
      have hposs := possible_of_hears run
      have hw := tidy_of_run hposs
      exact attested_step ih (phased_of_run run) hw (locked_of_run hposs) (withheld_of_run hposs)
        hm.accepts (effect hw hm.possible) (concerns_of_run run hm)

/-- What a tick queues comes while the connection is live and subscribed, after it has been
confirmed, and while none of its replays is under way. -/
theorem live_of_queued (run : Run (Hears c) (.new capacity replays start) past w) {k : TaskId}
    {stage : Tick.Stage} (hm : w.Hears c (.advance k)) (hk : w.hub.task k = .tick stage)
    (hq : queued c w (.advance k) ≠ []) :
    Confirmed c past ∧ (w.hub.subscriber c).phase = .live ∧
      (w.hub.subscriber c).isSubscribed .systemEvents = true ∧ ¬ w.IsReplaying c := by
  have hposs := possible_of_hears run
  have hput : w.hub.puts? k c ≠ none := fun hnone =>
    hq (by rw [queued_advance hm.accepts, hnone]; rfl)
  cases concerns_of_run run hm with
  | aside hnone => exact absurd (hnone k rfl) hput
  | act hr => rw [hk] at hr; cases hr
  | @live _ stage' _ hk' hpicked _ hnot =>
      have hattested := attested_of_run run
      have hphased := phased_of_run run
      have hconfirmed := hattested.picked k stage' hk' hpicked
      have hunder := (withheld_of_run hposs).not_isReplaying hnot
      have hlive := (hattested.live hunder).mpr hconfirmed
      refine ⟨hconfirmed, hlive, ?_, hunder⟩
      rcases hphased.settled hunder with ⟨hp, -⟩ | ⟨-, hc⟩
      · rw [hlive] at hp
        cases hp
      · simp [Subscriber.isSubscribed, hc]

end Run

end World

end EventStream
