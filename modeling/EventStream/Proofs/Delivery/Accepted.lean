import EventStream.Proofs.Delivery.Act
import EventStream.Proofs.Delivery.Overflow

/-! Moves at which one connection is refused no frame. Said once, what such a move can be to the
connection: an act of one of its replays, an event that a tick queues, or nothing of the kind. -/

namespace EventStream

open Subscriber (Puts)

theorem Subscriber.phase_enqueueLive (s : Subscriber) (id : Int) (f : Frame) :
    (s.enqueueLive id f).1.phase = s.phase ∧ (s.enqueueLive id f).1.channels = s.channels := by
  cases hp : s.phase.isReplaying with
  | true => rw [enqueueLive_of_isReplaying hp]; exact ⟨rfl, rfl⟩
  | false => exact (offer_enqueueLive hp id f).phase

namespace World

/-- The queue of the connection has room for the frame that a task puts to it, if it does. -/
def Accepts (c : ConnectionId) (w : World) (m : Move) : Prop :=
  ∀ k ∈ m.advanced?, (w.hub.puts? k c).isSome = true → (w.hub.subscriber c).HasRoom

instance (c : ConnectionId) (w : World) (m : Move) : Decidable (w.Accepts c m) :=
  inferInstanceAs (Decidable (∀ k ∈ m.advanced?, _))

/-- The replays of the connection are where they were. -/
def SameReplays (c : ConnectionId) (w w' : World) : Prop :=
  ∀ k r, r.connection = c → (w'.hub.task k = .replay r ↔ w.hub.task k = .replay r)

/-- What a move is to a connection whose frames all find room. -/
inductive Concerns (c : ConnectionId) (w w' : World) : Move → Prop where
  | aside {m} (hp : ∀ k ∈ m.advanced?, w.hub.puts? k c = none)
      (hc : (w'.hub.subscriber c).channels = (w.hub.subscriber c).channels)
      (hs : (w'.hub.subscriber c).phase = (w.hub.subscriber c).phase)
      (ht : SameReplays c w w') (hl : w'.hub.lockLine c = w.hub.lockLine c) : Concerns c w w' m
  | subscribe {request} (hs : w'.hub.subscriber c = w.hub.subscriber c)
      (ht : w'.hub.task = update w.hub.task w.hub.started (.replay { connection := c, request }))
      (hl : w'.hub.lockLine c = w.hub.lockLine c) :
      Concerns c w w' (.subscribe c request)
  | answer {k r purpose a} (hk : w.hub.task k = .replay r) (hc : r.connection = c)
      (hask : r.stage = .asking purpose) (hs : w'.hub.subscriber c = w.hub.subscriber c)
      (ht : w'.hub.task =
        update w.hub.task k (.replay { r with stage := .answered purpose a }))
      (hl : w'.hub.lockLine c = w.hub.lockLine c) :
      Concerns c w w' (.answer k a)
  | act {k r stage} (hk : w.hub.task k = .replay r) (hc : r.connection = c)
      (ha : Replay.Act r.request (w.hub.puts? k c) r.stage (w.hub.subscriber c) stage
        (w'.hub.subscriber c))
      (ht : w'.hub.task = update w.hub.task k (.replay { r with stage }))
      (hl : w'.hub.lockLine c = Replay.queue k stage (w.hub.lockLine c)) :
      Concerns c w w' (.advance k)
  | live {k stage m} (hk : w.hub.task k = .tick stage) (hpicked : c ∈ stage.picked)
      (hput : w.hub.puts? k c = some (.event m))
      (hnot : (w.hub.subscriber c).phase.isReplaying = false)
      (hc : (w'.hub.subscriber c).channels = (w.hub.subscriber c).channels)
      (hs : (w'.hub.subscriber c).phase = (w.hub.subscriber c).phase)
      (ht : SameReplays c w w') (hl : w'.hub.lockLine c = w.hub.lockLine c) :
      Concerns c w w' (.advance k)

theorem sameReplays_of_update {w w' : World} {c : ConnectionId} {k : TaskId} {t : Task}
    (ht : w'.hub.task = update w.hub.task k t)
    (hold : ∀ r, r.connection = c → w.hub.task k ≠ .replay r)
    (hnew : ∀ r, r.connection = c → t ≠ .replay r) : SameReplays c w w' := by
  intro j r hr
  rw [ht]
  by_cases hj : j = k
  · subst hj
    rw [update_self]
    exact iff_of_false (hnew r hr) (hold r hr)
  · rw [update_of_ne _ _ hj]

/-- The replay of another connection moves. -/
theorem sameReplays_of_other {w w' : World} {c : ConnectionId} {k : TaskId} {r : Replay}
    {stage : Replay.Stage} (hk : w.hub.task k = .replay r) (hc : r.connection ≠ c)
    (ht : w'.hub.task = update w.hub.task k (.replay { r with stage })) : SameReplays c w w' := by
  refine sameReplays_of_update ht (fun q hq heq => ?_) fun q hq heq => ?_
  · rw [hk] at heq
    cases heq
    exact hc hq
  · cases heq
    exact hc hq

theorem sameReplays_of_task {w w' : World} {c : ConnectionId} (ht : w'.hub.task = w.hub.task) :
    SameReplays c w w' :=
  fun k r _ => by rw [ht]

section Concerns

variable {w w' : World} {m : Move} {c : ConnectionId}

/-- Moves of tasks apart. -/
theorem Effect.concerns (he : Effect w m w') (hw : w.hub.Tidy) (hm : m.advanced? = none)
    (c : ConnectionId) : Concerns c w w' m := by
  have hp : ∀ k ∈ m.advanced?, w.hub.puts? k c = none := by simp [hm]
  cases he with
  | inert _ hi =>
      exact .aside hp (hi.subscriber c).channels (hi.subscriber c).phase
        (sameReplays_of_task hi.task) (congrFun hi.lockLine c)
  | relog => exact .aside hp rfl rfl (sameReplays_of_task rfl) rfl
  | @subscribe d request =>
      by_cases hd : d = c
      · subst hd
        exact .subscribe rfl rfl rfl
      · refine .aside hp rfl rfl
          (sameReplays_of_update rfl (fun r _ heq => ?_) fun r hr heq => ?_) rfl
        · exact absurd (hw.lt_started_of_replay heq) (Nat.lt_irrefl _)
        · cases heq
          exact hd hr
  | startTick =>
      refine .aside hp rfl rfl
        (sameReplays_of_update rfl (fun r _ heq => ?_) fun r _ => by simp) rfl
      exact absurd (hw.lt_started_of_replay heq) (Nat.lt_irrefl _)
  | @answerReplay k r purpose a hk hs =>
      by_cases hc : r.connection = c
      · exact .answer hk hc hs rfl rfl rfl
      · exact .aside hp rfl rfl (sameReplays_of_other hk hc rfl) rfl
  | answerTick hk =>
      refine .aside hp rfl rfl
        (sameReplays_of_update rfl (fun q _ heq => ?_) fun q _ => by simp) rfl
      rw [hk] at heq
      cases heq
  | replay => cases hm
  | tick => cases hm
  | @offerLive d id f hf =>
      have hsub : (w.onSubscriber d fun s => (s.enqueueLive id f).1).hub.subscriber c =
          update w.hub.subscriber d ((w.hub.subscriber d).enqueueLive id f).1 c := rfl
      by_cases hd : d = c
      · subst hd
        have hsame := (w.hub.subscriber d).phase_enqueueLive id f
        rw [update_self] at hsub
        rw [← hsub] at hsame
        exact .aside hp hsame.2 hsame.1 (sameReplays_of_task rfl) rfl
      · rw [update_of_ne _ _ (Ne.symm hd)] at hsub
        exact .aside hp (by rw [hsub]) (by rw [hsub]) (sameReplays_of_task rfl) rfl
  | _ => exact .aside hp rfl rfl (sameReplays_of_task rfl) rfl

theorem concerns_tick {k : TaskId} {stage stage' : Tick.Stage} {checkpoint : Checkpoint}
    {subscriber : ConnectionId → Subscriber} (hk : w.hub.task k = .tick stage)
    (hn : Tick.Next w.hub stage stage' checkpoint subscriber)
    (hw : w'.hub = w.hub.Ticked k stage' checkpoint subscriber) (c : ConnectionId) :
    Concerns c w w' (.advance k) := by
  have hsub : w'.hub.subscriber c = subscriber c := by rw [hw]; rfl
  have hline : w'.hub.lockLine c = w.hub.lockLine c := by rw [hw]; rfl
  have hreplays : SameReplays c w w' := by
    refine sameReplays_of_update (k := k) (by rw [hw]; rfl) (fun r _ heq => ?_) fun r _ => by simp
    rw [hk] at heq
    cases heq
  have haside : subscriber c = w.hub.subscriber c → w.hub.puts? k c = none →
      Concerns c w w' (.advance k) := by
    intro heq hnone
    rw [heq] at hsub
    refine .aside (fun j hj => ?_) (by rw [hsub]) (by rw [hsub]) hreplays hline
    cases hj
    exact hnone
  cases hn with
  | @offer batch e rest live d targets m hm =>
      by_cases hd : d = c
      · subst hd
        rw [update_self] at hsub
        by_cases ha : (w.hub.subscriber d).Admits e.id
        · have hsame := (w.hub.subscriber d).phase_enqueueLive e.id (.event m)
          rw [← hsub] at hsame
          refine .live hk ?_ (m := m) ?_ ha.1 hsame.2 hsame.1 hreplays hline
          · exact List.mem_append_right _ List.mem_cons_self
          · simp only [Hub.puts?, hk, hm, Option.map_some, true_and, ha, ite_true]
        · refine haside ?_ (by simp only [Hub.puts?, hk, true_and, ha, ite_false])
          rw [update_self, Subscriber.enqueueLive_of_not_admits ha]
      · exact haside (update_of_ne _ _ (Ne.symm hd)) (by simp [Hub.puts?, hk, hd])
  | offerNone hm => exact haside rfl (by simp [Hub.puts?, hk, hm])
  | _ => exact haside rfl (by simp [Hub.puts?, hk])

theorem concerns_advance {k : TaskId} (hw : w.hub.Tidy) (hu : w.Unbroken)
    (hcancel : c < w.hub.opened → (w.hub.subscriber c).cancelled = false)
    (ha : w.Accepts c (.advance k)) :
    Concerns c w (w.apply (.advance k)) (.advance k) := by
  cases hcan : w.hub.canAdvance k with
  | false =>
      rw [apply_advance_of_not_canAdvance hcan]
      refine .aside (fun j hj => ?_) rfl rfl (sameReplays_of_task rfl) rfl
      cases hj
      exact Hub.puts?_of_not_canAdvance hcan c
  | true =>
      cases hk : w.hub.task k with
      | replay r =>
          by_cases hc : r.connection = c
          · subst hc
            obtain ⟨stage, s, hact, hm⟩ :=
              Hub.act_of_advance hk hcan (hu k r hk) (hcancel (hw.replays k r hk)) (ha k rfl)
            have hsub : (w.apply (.advance k)).hub.subscriber r.connection = s := by
              change (w.hub.advance k).subscriber r.connection = s
              rw [hm.subscriber, update_self]
            refine .act hk rfl (hsub ▸ hact) hm.task ?_
            change (w.hub.advance k).lockLine r.connection = _
            rw [hm.lockLine, update_self]
          · obtain ⟨stage, s, -, hm, -⟩ := Hub.advance_replay hk hcan
            have hsub : (w.apply (.advance k)).hub.subscriber c = w.hub.subscriber c := by
              change (w.hub.advance k).subscriber c = _
              rw [hm.subscriber, update_of_ne _ _ (Ne.symm hc)]
            have hline : (w.apply (.advance k)).hub.lockLine c = w.hub.lockLine c := by
              change (w.hub.advance k).lockLine c = _
              rw [hm.lockLine, update_of_ne _ _ (Ne.symm hc)]
            refine .aside (fun j hj => ?_) (by rw [hsub]) (by rw [hsub])
              (sameReplays_of_other hk hc hm.task) hline
            cases hj
            simp only [Hub.puts?, hk, hc, ite_false]
      | tick stage =>
          obtain ⟨stage', checkpoint, subscriber, hn, heq⟩ := Hub.advance_tick hk hcan
          exact concerns_tick hk hn heq c

theorem concerns (hw : w.hub.Tidy) (hu : w.Unbroken) (hm : w.Possible m)
    (hcancel : c < w.hub.opened → (w.hub.subscriber c).cancelled = false)
    (ha : w.Accepts c m) : Concerns c w (w.apply m) m := by
  cases m with
  | advance k => exact concerns_advance hw hu hcancel ha
  | _ => exact (effect hw hm).concerns hw rfl c

end Concerns

/-! ### A whole run -/

/-- The connection is refused nothing at this move, and has not been cancelled. -/
structure Hears (c : ConnectionId) (w : World) (m : Move) : Prop where
  possible : w.Possible m
  accepts : w.Accepts c m
  uncancelled : c < w.hub.opened → (w.hub.subscriber c).cancelled = false

section Run

variable {capacity replays : Nat} {start : Instant} {past : List (World × Move)} {w : World}
  {c : ConnectionId}

theorem possible_of_hears (run : Run (Hears c) (.new capacity replays start) past w) :
    Run Possible (.new capacity replays start) past w :=
  run.mono fun _ _ h => h.possible

theorem hears_of_accepts (run : Run Possible (.new capacity replays start) past w)
    (hcancel : c < w.hub.opened → (w.hub.subscriber c).cancelled = false)
    (haccepts : ∀ p ∈ past, p.1.Accepts c p.2) :
    Run (Hears c) (.new capacity replays start) past w := by
  induction run with
  | nil => exact .nil
  | @cons past w m run hm ih =>
      have hbefore (hc : c < w.hub.opened) : (w.hub.subscriber c).cancelled = false := by
        refine Bool.eq_false_iff.mpr fun h => ?_
        have hlast := hcancel (Nat.lt_of_lt_of_le hc (opened_le_apply w m))
        rw [cancelled_apply hc h] at hlast
        cases hlast
      exact .cons (ih hbefore fun p hp => haccepts p (List.mem_cons_of_mem _ hp))
        ⟨hm, haccepts (w, m) List.mem_cons_self, hbefore⟩

theorem concerns_of_run (run : Run (Hears c) (.new capacity replays start) past w) {m : Move}
    (hm : w.Hears c m) : Concerns c w (w.apply m) m :=
  have hposs := possible_of_hears run
  concerns (tidy_of_run hposs) (unbroken_of_run hposs) hm.possible hm.uncancelled hm.accepts

end Run

end World

end EventStream
