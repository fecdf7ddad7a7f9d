import EventStream.Proofs.Delivery.Ascending
import EventStream.Proofs.Delivery.Restore

/-! A live connection that subscribes again without a cursor while a tick is under way. Its
hand-over counts all that has been announced as handled, also what the tick was about to offer. -/

namespace EventStream

namespace Replay

section Next

variable {announced : Int} {request : Subscription} {stage stage' : Stage} {s t : Subscriber}

/-- A replay without a cursor moves the gate when it hands over, and else leaves it. -/
theorem gate_of_next (hn : Next announced request stage s stage' t) (h : stage.IsFutile request)
    (hr : request.lastSeen = none) :
    stage = .confirming .fresh ∧ t.lastEventId = max s.lastEventId announced ∨
      t.lastEventId = s.lastEventId ∧
        (s.phase.isReplaying = true → t.phase.isReplaying = true) := by
  have hno : ¬ request.lastSeen.isSome = true := by simp [hr]
  cases hn with
  | confirm =>
      obtain ⟨-, rfl⟩ := h
      exact .inl ⟨rfl, s.lastEventId_handOver_fresh announced _⟩
  | drop => exact .inr ⟨rfl, id⟩
  | arrive => exact .inr ⟨rfl, id⟩
  | lock => exact .inr ⟨rfl, id⟩
  | grant => exact .inr ⟨rfl, id⟩
  | beginFresh => exact .inr ⟨rfl, fun _ => rfl⟩
  | begin hseen => rw [hr] at hseen; cases hseen
  | ask => exact absurd h.1 hno
  | historyFailed => exact absurd h.1 hno
  | gapFailed => exact absurd h.1 hno
  | report => exact absurd h.1 hno
  | abort => exact absurd h.1 hno
  | _ => exact h.elim

end Next

end Replay

namespace Tick

/-- The tick has not announced what it finds. -/
def Stage.isPending : Stage → Bool
  | starting => true
  | asking _ => true
  | answered _ => true
  | announcing _ => true
  | _ => false

theorem isEnded_of_isPending {stage : Stage} (h : stage.isPending = true) :
    (Task.tick stage).isEnded = false := by
  cases stage with
  | ended => cases h
  | _ => rfl

theorem isPending_of_next {h : Hub} {stage stage' : Stage} {checkpoint : Checkpoint}
    {subscriber : ConnectionId → Subscriber} (hn : Next h stage stage' checkpoint subscriber)
    (hp : stage'.isPending = true) : stage.isPending = true := by
  cases hn with
  | ask => rfl
  | sort => rfl
  | _ => cases hp

end Tick

namespace World

/-- What may happen while connection `c` subscribes again and the tick `j` is under way: no
subscription of `c` has a cursor, and no other tick goes on before `j` has ended. -/
structure Resubscribing (j : TaskId) (c : ConnectionId) (w : World) (m : Move) : Prop where
  possible : w.Possible m
  untargeted : m.target? ≠ some c
  cursorless : ∀ r ∈ m.request? c, r.lastSeen = none
  alone : ∀ i ∈ m.advanced?,
    i = j ∨ (w.hub.task i).connection?.isSome = true ∨ (w.hub.task j).isEnded = true

instance (j : TaskId) (c : ConnectionId) (w : World) (m : Move) :
    Decidable (w.Resubscribing j c m) :=
  decidable_of_iff (w.Possible m ∧ m.target? ≠ some c ∧
      (∀ r ∈ m.request? c, r.lastSeen = none) ∧ ∀ i ∈ m.advanced?,
        i = j ∨ (w.hub.task i).connection?.isSome = true ∨ (w.hub.task j).isEnded = true)
    ⟨fun ⟨hp, ht, hc, ha⟩ => ⟨hp, ht, hc, ha⟩,
      fun h => ⟨h.possible, h.untargeted, h.cursorless, h.alone⟩⟩

/-- No replay of the connection that is under way has a cursor. -/
def Bare (c : ConnectionId) (w : World) : Prop :=
  ∀ k r, w.hub.task k = .replay r → r.connection = c → r.stage ≠ .ended →
    r.request.lastSeen = none

/-- A replay of the connection handed over without history when the event of the message had been
announced but not queued. -/
def Skipped (past : List (World × Move)) (c : ConnectionId) (m : Message) : Prop :=
  ∃ v k r, (v, .advance k) ∈ past ∧ v.hub.task k = .replay r ∧ r.connection = c ∧
    r.stage = .confirming .fresh ∧ m.id ≤ v.hub.checkpoint.announced ∧
    m ∉ (v.hub.subscriber c).messages

theorem Skipped.cons {past : List (World × Move)} {w : World} {move : Move} {c : ConnectionId}
    {m : Message} (h : Skipped past c m) : Skipped ((w, move) :: past) c m := by
  obtain ⟨v, k, r, hv, h⟩ := h
  exact ⟨v, k, r, List.mem_cons_of_mem _ hv, h⟩

section Step

variable {j : TaskId} {c : ConnectionId} {w w' : World} {m : Move}

theorem bare_step (h : w.Bare c) (hm : w.Resubscribing j c m) (he : Effect w m w') :
    w'.Bare c := by
  intro k r hk hr hs
  have hc := he.came k
  rw [hk] at hc
  cases hc with
  | stays _ ht => exact h k r ht hr hs
  | @subscribes d request =>
      exact hm.cursorless request (by simp [Move.request?, show d = c from hr])
  | @answersReplay q purpose a ht hask =>
      exact h k q ht hr (by rw [hask]; simp)
  | @movesReplay q stage s ht hn => exact h k q ht hr (Replay.ne_ended_of_next hn)

/-- A replay without a cursor never asks the log. -/
theorem fruitless_of_resubscribing (hm : w.Resubscribing j c m) (h : w.Restorable c)
    (hb : w.Bare c) : w.Fruitless c m where
  possible := hm.possible
  untargeted := hm.untargeted
  failed := by
    intro k hk hc
    cases m with
    | answer i a =>
        cases hk
        obtain ⟨cursor, hq, -⟩ := hm.possible
        cases ht : w.hub.task k with
        | tick stage => rw [ht] at hc; cases hc
        | replay r =>
            rw [ht] at hc hq
            obtain ⟨d, request, stage⟩ := r
            cases stage with
            | asking purpose =>
                have hr : d = c := Option.some.inj hc
                have hnone := hb k _ ht hr (by simp)
                have hsome := (h.futile k _ ht hr).1
                rw [hnone] at hsome
                cases hsome
            | _ => cases hq
    | _ => cases hk

/-- What a move does to the gate while the connection subscribes again: nothing, or a replay hands
over, or a tick offers an event. -/
theorem gate_cases (h : w.Restorable c) (hb : w.Bare c) (hm : w.Resubscribing j c m)
    (he : Effect w m w') :
    ((w'.hub.subscriber c).lastEventId = (w.hub.subscriber c).lastEventId ∧
      ((w.hub.subscriber c).phase.isReplaying = true →
        (w'.hub.subscriber c).phase.isReplaying = true)) ∨
    (∃ k r, m = .advance k ∧ w.hub.task k = .replay r ∧ r.connection = c ∧
      r.stage = .confirming .fresh ∧ (w'.hub.subscriber c).lastEventId =
        max (w.hub.subscriber c).lastEventId w.hub.checkpoint.announced) ∨
    ∃ k batch e rest live targets, m = .advance k ∧ (k = j ∨ (w.hub.task j).isEnded = true) ∧
      w.hub.task k = .tick (.broadcasting batch (e :: rest) live (c :: targets)) ∧
      (w.hub.subscriber c).phase.isReplaying = false ∧
      (w'.hub.subscriber c).lastEventId ≤ max (w.hub.subscriber c).lastEventId e.id := by
  cases he.touches c with
  | alike ha => exact .inl ⟨ha.lastEventId, fun hp => by rw [ha.phase]; exact hp⟩
  | @replay k r stage ht hr hl hn =>
      have hnone : r.request.lastSeen = none :=
        hb k r ht hr (Replay.ne_ended_of_next hn)
      rcases Replay.gate_of_next hn (h.futile k r ht hr) hnone with ⟨hs, hmax⟩ | hsame
      · exact .inr (.inl ⟨k, r, rfl, ht, hr, hs, hmax⟩)
      · exact .inl hsame
  | @tick k batch e rest live targets n ht hn hp ho =>
      have halone : k = j ∨ (w.hub.task j).isEnded = true := by
        refine (hm.alone k rfl).imp_right fun hor => hor.resolve_left ?_
        rw [ht]
        simp [Task.connection?]
      refine .inr (.inr ⟨k, batch, e, rest, live, targets, rfl, halone, ht, hp, ?_⟩)
      generalize w'.hub.subscriber c = s at ho
      cases ho with
      | stale => exact Int.le_max_left ..
      | queued => exact Int.le_max_right ..
      | refused _ hrefuse =>
          rw [(Subscriber.alike_of_refuses hrefuse).lastEventId]
          exact Int.le_max_left ..
  | offer => exact absurd rfl hm.untargeted

end Step

/-- The message has been queued or skipped, or it is before the gate and still on its way: the
tick has it to offer, or a replay is about to hand over. -/
def OnItsWay (past : List (World × Move)) (w : World) (j : TaskId) (c : ConnectionId) (e : Event)
    (n : Message) : Prop :=
  n ∈ (w.hub.subscriber c).messages ∨ Skipped past c n ∨
    (w.hub.subscriber c).lastEventId < n.id ∧ n.id ≤ w.hub.checkpoint.announced ∧
      ((w.hub.subscriber c).phase.isReplaying = true ∨ e ∈ (w.hub.task j).due c)

/-- The events that the tick has due after the one it is offering have greater ids. -/
theorem Ascending.lt_of_mem_due {w : World} (h : w.Ascending) {j : TaskId} {c : ConnectionId}
    {batch rest : List Event} {x e : Event} {live targets : List ConnectionId}
    (hj : w.hub.task j = .tick (.broadcasting batch (x :: rest) live targets))
    (he : e ∈ (w.hub.task j).due c) : e = x ∨ x.id < e.id := by
  rw [hj] at he
  have hdue : e ∈ (Tick.Stage.broadcasting batch (x :: rest) live targets).due c := he
  have hleft := (Tick.mem_of_mem_due hdue).2
  obtain ⟨hbatch, hsuffix⟩ := (h.sound j _ hj).isOrdered rfl
  rcases List.mem_cons.mp hleft with rfl | hrest
  · exact .inl rfl
  · exact .inr ((List.pairwise_cons.mp (hbatch.sublist hsuffix.sublist)).1 e hrest)

theorem onItsWay_step {j : TaskId} {c : ConnectionId} {w : World} {move : Move}
    {past : List (World × Move)} {e : Event} {n : Message} (hw : w.hub.Tidy)
    (hasc : w.Ascending) (hg : (w.hub.subscriber c).Gated) (hr : w.Restorable c) (hb : w.Bare c)
    (hm : w.Resubscribing j c move) (hopen : (w.hub.subscriber c).outbound.isOpen = true)
    (hcancel : ((w.apply move).hub.subscriber c).cancelled = false)
    (hn : Message.ofEvent? e = some n) (h : OnItsWay past w j c e n) :
    OnItsWay ((w, move) :: past) (w.apply move) j c e n := by
  have he := effect hw hm.possible
  rcases h with hq | hs | ⟨hgate, hann, hway⟩
  · exact .inl ((he.messages_grow c).subset hq)
  · exact .inr (.inl hs.cons)
  · have hann' := Int.le_trans hann he.announced_le
    by_cases hoffer : move = .advance j ∧ (w.hub.task j).offer? = some (c, n) ∧
        (w.hub.subscriber c).phase.isReplaying = false
    · obtain ⟨rfl, ho, hp⟩ := hoffer
      exact .inl (mem_of_offer ho ⟨hp, hgate⟩ hopen hcancel)
    · -- What is due to a live connection that is not offered it now stays due.
      have hstays : (w.hub.subscriber c).phase.isReplaying = false →
          e ∈ (w.hub.task j).due c → e ∈ ((w.apply move).hub.task j).due c := by
        intro hp hdue
        rcases he.due_cases hw hn hdue with hdue | ⟨rfl, ho | ⟨-, hoff⟩⟩
        · exact hdue
        · exact absurd ⟨rfl, ho, hp⟩ hoffer
        · simp [Subscriber.isLiveOn, hr.subscribed, hp] at hoff
      rcases gate_cases hr hb hm he with ⟨hsame, hkeeps⟩ | ⟨k, r, rfl, hk, hrc, hs, -⟩ |
        ⟨k, batch, x, rest, live, targets, rfl, halone, hk, hp, hle⟩
      · refine .inr (.inr ⟨hsame ▸ hgate, hann', ?_⟩)
        cases hp : (w.hub.subscriber c).phase.isReplaying with
        | true => exact .inl (hkeeps hp)
        | false => exact .inr (hstays hp (hway.resolve_left (by simp [hp])))
      · refine .inr (.inl ⟨w, k, r, List.mem_cons_self, hk, hrc, hs, hann, fun hmem => ?_⟩)
        have hbound := (hg.bounds n hmem).2
        omega
      · have hdue := hway.resolve_left (by simp [hp])
        rcases halone with rfl | hended
        · have hne : e ≠ x := by
            rintro rfl
            exact hoffer ⟨rfl, Task.offer?_eq_some.mpr ⟨_, _, _, _, _, hk, hn⟩, hp⟩
          have hlt := (hasc.lt_of_mem_due hk hdue).resolve_left hne
          have hid := Message.id_eq_of_ofEvent? hn
          exact .inr (.inr ⟨by omega, hann', .inr (hstays hp hdue)⟩)
        · rw [Task.due_of_isEnded hended] at hdue
          cases hdue

section Run

variable {capacity replays : Nat} {start : Instant} {before past : List (World × Move)}
  {w₀ w : World} {j : TaskId} {c : ConnectionId}

theorem fruitless_run (reach : Run Possible (.new capacity replays start) before w₀)
    (hstart : w₀.Restorable c) (hbare : w₀.Bare c) (hopen : c < w₀.hub.opened)
    (run : Run (Resubscribing j c) w₀ past w) (hatt : ∀ v, Visited past w v → v.Attached c) :
    Run (Fruitless c) w₀ past w ∧ w.Bare c := by
  induction run with
  | nil => exact ⟨.nil, hbare⟩
  | @cons past w m run hm ih =>
      have hatt' : ∀ v, Visited past w v → v.Attached c := fun v hv => hatt v hv.cons
      obtain ⟨hrun, hb⟩ := ih hatt'
      have hw := tidy_of_run (reach.append (possible_of_fruitless hrun))
      have hr := restorable_of_run reach hstart hopen hrun hatt'
      exact ⟨.cons hrun (fruitless_of_resubscribing hm hr hb),
        bare_step hb hm (effect hw hm.possible)⟩

/-- Until the tick announces, the gate is before the event, unless the event has been skipped. -/
theorem ahead_of_run (reach : Run Possible (.new capacity replays start) before w₀)
    (hstart : w₀.Restorable c) (hbare : w₀.Bare c) (hopen : c < w₀.hub.opened)
    (hj : j < w₀.hub.started) (run : Run (Resubscribing j c) w₀ past w)
    (hatt : ∀ v, Visited past w v → v.Attached c) {n : Message}
    (hnew : (w₀.hub.subscriber c).lastEventId < n.id) {stage : Tick.Stage}
    (ht : w.hub.task j = .tick stage) (hp : stage.isPending = true) :
    (w.hub.subscriber c).lastEventId < n.id ∨ Skipped past c n := by
  induction run generalizing stage with
  | nil => exact .inl hnew
  | @cons past w m run hm ih =>
      have hatt' : ∀ v, Visited past w v → v.Attached c := fun v hv => hatt v hv.cons
      obtain ⟨hrun, hb⟩ := fruitless_run reach hstart hbare hopen run hatt'
      have hall := reach.append (possible_of_fruitless hrun)
      have hw := tidy_of_run hall
      have he := effect hw hm.possible
      have hstarted := started_le (possible_of_fruitless hrun) (tidy_of_run reach)
      have hpending : ∃ stage, w.hub.task j = .tick stage ∧ stage.isPending = true := by
        have hc := he.came j
        rw [ht] at hc
        cases hc with
        | stays _ hsame => exact ⟨stage, hsame, hp⟩
        | startsTick heq => exact absurd heq (Nat.ne_of_lt (Nat.lt_of_lt_of_le hj hstarted))
        | answersTick hask => exact ⟨_, hask, rfl⟩
        | movesTick hbefore hn => exact ⟨_, hbefore, Tick.isPending_of_next hn hp⟩
      obtain ⟨stage', ht', hp'⟩ := hpending
      rcases ih hatt' ht' hp' with hgate | hs
      · rcases gate_cases (restorable_of_run reach hstart hopen hrun hatt') hb hm he with
          ⟨hsame, -⟩ | ⟨k, r, rfl, hk, hrc, hs, hmax⟩ |
            ⟨k, batch, x, rest, live, targets, rfl, halone, hk, -⟩
        · exact .inl (hsame ▸ hgate)
        · by_cases hann : n.id ≤ w.hub.checkpoint.announced
          · refine .inr ⟨w, k, r, List.mem_cons_self, hk, hrc, hs, hann, fun hmem => ?_⟩
            have hbound := ((gated_of_run hall c).bounds n hmem).2
            omega
          · exact .inl (by omega)
        · rcases halone with rfl | hended
          · rw [hk] at ht'
            cases ht'
            cases hp'
          · rw [ht', Tick.isEnded_of_isPending hp'] at hended
            cases hended
      · exact .inr hs.cons

/-- What has been announced stays on its way until it is queued or skipped. -/
theorem onItsWay_of_run (reach : Run Possible (.new capacity replays start) before w₀)
    (hstart : w₀.Restorable c) (hbare : w₀.Bare c) (hopen : c < w₀.hub.opened)
    {v : World} {earlier : List (World × Move)} (run : Run (Resubscribing j c) w₀ earlier v)
    (run' : Run (Resubscribing j c) v past w)
    (hatt : ∀ u, Visited (past ++ earlier) w u → u.Attached c) {e : Event} {n : Message}
    (hn : Message.ofEvent? e = some n) (h : OnItsWay earlier v j c e n) :
    OnItsWay (past ++ earlier) w j c e n := by
  induction run' with
  | nil => exact h
  | @cons past w m run' hm ih =>
      have hatt' : ∀ u, Visited (past ++ earlier) w u → u.Attached c :=
        fun u hu => hatt u hu.cons
      have hrun := run.append run'
      obtain ⟨hfruitless, hb⟩ := fruitless_run reach hstart hbare hopen hrun hatt'
      have hall := reach.append (possible_of_fruitless hfruitless)
      have hlt := Nat.lt_of_lt_of_le hopen hrun.opened_le
      have hlt' := Nat.lt_of_lt_of_le hlt (opened_le_apply w m)
      exact onItsWay_step (tidy_of_run hall) (ascending_of_run hall) (gated_of_run hall c)
        (restorable_of_run reach hstart hopen hfruitless hatt') hb hm (hatt' w (.inl rfl) hlt).2.2
        (hatt _ (.inl rfl) hlt').2.1 hn (ih hatt')

theorem subscriber_of_confirming {k : TaskId} {r : Replay} {mode : Subscriber.Handover}
    (ht : w.hub.task k = .replay r) (hs : r.stage = .confirming mode) :
    (w.apply (.advance k)).hub.subscriber r.connection =
      ((w.hub.subscriber r.connection).handOver w.hub.checkpoint.announced mode
        (.subscriptionConfirmed r.request.channel)).1 := by
  have hadvance := Hub.advance_of_not_isWaiting ht (by rw [hs]; rfl) (by simp [Hub.isServed, hs])
  simp only [apply, onHub, hadvance, Hub.advanceReplay, hs]
  exact update_self ..

/-- What is behind the gate and has not been queued never is. -/
theorem not_mem_of_passed {v : World} {m : Message} (hv : v.hub.Tidy) (run : Run Possible v past w)
    (hold : m ∉ (v.hub.subscriber c).messages) (hid : m.id ≤ (v.hub.subscriber c).lastEventId) :
    m ∉ (w.hub.subscriber c).messages ∧ m.id ≤ (w.hub.subscriber c).lastEventId := by
  induction run with
  | nil => exact ⟨hold, hid⟩
  | @cons past w move run hm ih =>
      obtain ⟨hout, hle⟩ := ih
      have hturn := (effect (tidy_of_tidy run hv) hm).turn c
      refine ⟨fun hmem => ?_, Int.le_trans hle hturn.lastEventId_le⟩
      cases hturn with
      | keep hq => exact hout (hq ▸ hmem)
      | queue _ hx hlt hq =>
          rw [hq] at hmem
          rcases List.mem_append.mp hmem with hmem | hmem
          · exact hout hmem
          · have hx' := Message.id_eq_of_ofEvent? hx
            rw [← List.mem_singleton.mp hmem] at hx'
            omega

theorem not_mem_of_skipped (hw : w₀.hub.Tidy) (run : Run Possible w₀ past w) {m : Message}
    (h : Skipped past c m) : m ∉ (w.hub.subscriber c).messages := by
  obtain ⟨v, k, r, hv, ht, hr, hs, hann, hold⟩ := h
  obtain ⟨earlier, later, -, hearlier, -, hlater⟩ := run.split hv
  have htidy := tidy_of_tidy hearlier hw
  have hnext := subscriber_of_confirming ht hs
  rw [hr] at hnext
  refine (not_mem_of_passed (tidy_apply (m := .advance k) htidy trivial) hlater ?_ ?_).1
  · rw [hnext, Subscriber.messages_handOver_fresh _ _ rfl]
    exact hold
  · rw [hnext, Subscriber.lastEventId_handOver_fresh]
    exact Int.le_trans hann (Int.le_max_right ..)

/-- A live connection that subscribes again without a cursor while a tick is under way is sent
each event of the tick's batch once, unless a hand-over falls between the announcement of the
event and its being queued: then the event counts as handled and is not queued at all. -/
theorem count_eq_one_iff_not_skipped
    (reach : Run Possible (.new capacity replays start) before w₀)
    (hlive : (w₀.hub.subscriber c).phase = .live)
    (hsub : (w₀.hub.subscriber c).isSubscribed .systemEvents = true)
    (hcursor : ∀ r ∈ w₀.hub.unfinishedReplays, r.connection = c → r.request.lastSeen = none)
    (hunderway : (w₀.hub.task j).isEnded = false)
    (run : Run (Resubscribing j c) w₀ past w) (hatt : ∀ v, Visited past w v → v.Attached c)
    {v : World} {e : Event} {m : Message} (hv : (v, .advance j) ∈ past)
    (he : e ∈ (v.hub.task j).announces) (hm : Message.ofEvent? e = some m)
    (hnew : (w₀.hub.subscriber c).lastEventId < e.id) (hdone : (w.hub.task j).isEnded = true)
    (hback : (w.hub.subscriber c).phase = .live) :
    (w.hub.subscriber c).messages.count m = 1 ↔ ¬ Skipped past c m := by
  have hw := tidy_of_run reach
  have hopen : c < w₀.hub.opened := hw.lt_opened (by simp [hlive])
  have hstart := restorable_of_live (withheld_of_run reach) hlive hsub
  have hbare : w₀.Bare c := fun k r hk hr hs => hcursor r (hw.mem_unfinishedReplays hk hs) hr
  have hposs : Run Possible w₀ past w := run.mono fun _ _ h => h.possible
  rw [(gated_of_run (reach.append hposs) c).count_eq_one_iff]
  refine ⟨fun hq hs => not_mem_of_skipped hw hposs hs hq, fun hs => ?_⟩
  obtain ⟨earlier, later, rfl, hearlier, hmove, hlater⟩ := run.split hv
  have hall := reach.append (hearlier.mono fun _ _ h => h.possible)
  have hstarted := hw.lt_started hunderway
  obtain ⟨batch, hmem, hpicking, hsame⟩ := picking_of_announces he
  have hannounced : OnItsWay ((v, .advance j) :: earlier) (v.apply (.advance j)) j c e m := by
    obtain ⟨_, ht, -⟩ := Task.mem_announces.mp he
    rcases ahead_of_run reach hstart hbare hopen hstarted hearlier
      (fun u hu => hatt u hu.of_earlier) (n := m) (by rw [Message.id_eq_of_ofEvent? hm]; exact hnew)
      ht rfl with hgate | hskipped
    · have hrun := hall.cons (m := .advance j) trivial
      have hann := (ascending_of_run hrun).announced j _ hpicking rfl e hmem
      have hreg := (hatt v (.inr ⟨_, hv⟩) (Nat.lt_of_lt_of_le hopen hearlier.opened_le)).1
      refine .inr (.inr ⟨?_, ?_, .inr (due_of_announces he hreg)⟩)
      · rw [hsame]
        exact hgate
      · rw [Message.id_eq_of_ofEvent? hm]
        exact hann
    · exact .inr (.inl hskipped.cons)
  rcases onItsWay_of_run reach hstart hbare hopen (.cons hearlier hmove) hlater hatt hm
    hannounced with hq | hskipped | ⟨-, -, hp | hdue⟩
  · exact hq
  · exact absurd hskipped hs
  · rw [hback] at hp
    cases hp
  · rw [Task.due_of_isEnded hdone] at hdue
    cases hdue

end Run

/-- A tick is about to announce an event to a live connection. -/
def foundWhenLive : List Move :=
  wentLive ++ [.append (policyAt 100000), .startTick, .advance 1,
    .answer 1 (.ok [(policyAt 100000).event 1]), .advance 1]

/-- The tick finds the connection live, which subscribes again before it is offered the event. -/
def resubscribedInTick : List Move :=
  [Move.advance 1, .subscribe 0 ⟨.systemEvents, none⟩] ++ List.replicate 5 (Move.advance 2) ++
  List.replicate 4 (Move.advance 1)

theorem skipped_of_resubscribedInTick :
    let start := (new 8 8 .epoch).applyAll foundWhenLive
    Skipped (start.history [] (.advance 1 :: resubscribedInTick)) 0
      { (policyAt 100000).event 1 with data := "null" } := by
  intro start
  have reach : Run Possible (new 8 8 .epoch) ((new 8 8 .epoch).history [] foundWhenLive) start :=
    Follows.run (by decide +kernel) .nil
  have run : Run (Resubscribing 1 0) start (start.history [] (.advance 1 :: resubscribedInTick))
      (start.applyAll (.advance 1 :: resubscribedInTick)) := Follows.run (by decide +kernel) .nil
  have hiff := count_eq_one_iff_not_skipped reach (by decide +kernel) (by decide +kernel)
    (by decide +kernel) (by decide +kernel) run (forall_visited_iff.mpr (by decide +kernel))
    (mem_history start [] [] (.advance 1) resubscribedInTick) (e := (policyAt 100000).event 1)
    (m := { (policyAt 100000).event 1 with data := "null" }) (by decide +kernel)
    (by decide +kernel) (by decide +kernel) (by decide +kernel) (by decide +kernel)
  refine Classical.not_not.mp fun hnot => ?_
  have hcount := hiff.mpr hnot
  revert hcount
  decide +kernel

/-- The connection is live and the tick has ended, but the event is missing. -/
theorem resubscribed_missing :
    let start := (new 8 8 .epoch).applyAll foundWhenLive
    let moves := .advance 1 :: resubscribedInTick
    let w := start.applyAll moves
    Run Possible (new 8 8 .epoch) ((new 8 8 .epoch).history [] foundWhenLive) start ∧
      (start.hub.subscriber 0).phase = .live ∧
      (start.hub.subscriber 0).isSubscribed .systemEvents = true ∧
      (start.hub.subscriber 0).lastEventId = 0 ∧
      Run (Resubscribing 1 0) start (start.history [] moves) w ∧
      (∀ v, Visited (start.history [] moves) w v → v.Attached 0) ∧
      (policyAt 100000).event 1 ∈ (start.hub.task 1).announces ∧
      (Message.ofEvent? ((policyAt 100000).event 1)).isSome = true ∧
      (∀ k < w.hub.started, (w.hub.task k).isEnded = true) ∧
      (w.hub.subscriber 0).phase = .live ∧ (w.hub.subscriber 0).messages = [] := by
  refine ⟨Follows.run (by decide +kernel) .nil, ?_, ?_, ?_, Follows.run (by decide +kernel) .nil,
    forall_visited_iff.mpr (by decide +kernel), ?_, ?_, ?_, ?_, ?_⟩
  all_goals decide +kernel

end World

end EventStream
