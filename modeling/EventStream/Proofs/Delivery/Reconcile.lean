import EventStream.Proofs.Delivery.Act
import EventStream.Proofs.Delivery.Rounds
import EventStream.Proofs.Polling.Completion
import EventStream.Proofs.World.Sound

/-! Replays that fill gaps. However their queries are answered, they make few of them, and end
with the connection handed over unless it has no room for a frame or is cancelled. -/

namespace EventStream

open Subscriber (Alike Puts Refuses)

namespace Subscriber

/-- What finds room is not refused. -/
theorem Puts.not_refuses {s t : Subscriber} {f : Frame} (h : Puts s (some f) t)
    (hroom : s.HasRoom) : ¬ Refuses s t := by
  intro hrefuses
  have haccepted := h.accepted fun _ => hroom
  have hsame : t.outbound = s.outbound := by
    rcases hrefuses with rfl | ⟨rfl, -⟩ <;> rfl
  rw [hsame] at haccepted
  simp at haccepted

end Subscriber

theorem Replay.Stage.Within.hasBegun {b : Replay.Budget} {n : Nat} {id : Int}
    {stage : Replay.Stage} (h : stage.Within b n id) : stage.hasBegun = true ∨ stage = .ended := by
  cases stage <;> first | exact .inl rfl | exact .inr rfl | exact h.elim

namespace Task

def isLagging : Task → Bool
  | replay r => r.stage.isLagging
  | tick _ => false

/-- How far a replay is from the end of its round, and how much of an answer it has left. -/
def standing : Task → Nat × Nat
  | replay r => (r.stage.rank, r.stage.remaining)
  | tick _ => (0, 0)

end Task

namespace World

/-- The task goes on to a query for its gap. -/
def queriesGap (k : TaskId) (w : World) (m : Move) : Bool :=
  m.advanced? = some k && (w.hub.task k).isLagging

/-- How many gap queries task `k` has made. -/
def gapQueries (k : TaskId) (past : List (World × Move)) : Nat :=
  past.countP fun p => p.1.queriesGap k p.2

section Fills

variable {b : Replay.Budget} {n : Nat} {k : TaskId} {c : ConnectionId} {request : Subscription}
  {w : World} {m : Move} {past : List (World × Move)}

/-- What is announced, and how the queries of replay `k` are answered, is within the budget's
assumptions. -/
structure Fills (b : Replay.Budget) (k : TaskId) (w : World) (m : Move) : Prop where
  conceivable : w.Conceivable m
  answers : ∀ a, m = .answer k a → ∀ after ∈ (w.hub.task k).question?, b.answers after a
  announces : b.announces (w.apply m).hub.checkpoint.announced

/-- Replay `k` fills gaps, and has `n` more queries to make at most. -/
structure Filling (b : Replay.Budget) (k : TaskId) (c : ConnectionId) (request : Subscription)
    (n : Nat) (w : World) : Prop where
  sound : w.Sound
  announces : b.announces w.hub.checkpoint.announced
  stage : ∃ stage, w.hub.task k = .replay ⟨c, request, stage⟩ ∧ stage.IsUnbroken ∧
    stage.Within b n (w.hub.subscriber c).lastEventId

theorem queriesGap_advance {r : Replay} (hk : w.hub.task k = .replay r) :
    w.queriesGap k (.advance k) = r.stage.isLagging := by
  simp [queriesGap, Move.advanced?, hk, Task.isLagging]

theorem queriesGap_of_ne (hown : m ≠ .advance k) : w.queriesGap k m = false := by
  cases m with
  | advance j =>
      have hjk : ¬ j = k := fun hjk => hown (congrArg Move.advance hjk)
      simp [queriesGap, Move.advanced?, hjk]
  | _ => rfl

/-- Its own step. -/
theorem Filling.advance (h : Filling b k c request n w) (hm : w.Fills b k (.advance k)) :
    ∃ n', Filling b k c request n' (w.apply (.advance k)) ∧
      n' + (if w.queriesGap k (.advance k) then 1 else 0) = n := by
  obtain ⟨stage, hk, hunbroken, hwithin⟩ := h.stage
  have hsound := h.sound.step hm.conceivable
  rw [queriesGap_advance hk]
  cases hcan : w.hub.canAdvance k with
  | false =>
      have hlagging : stage.isLagging = false := by
        cases stage <;> first | rfl | simp [Hub.canAdvance, Hub.isServed, hk] at hcan
      rw [apply_advance_of_not_canAdvance hcan, hlagging]
      exact ⟨n, h, rfl⟩
  | true =>
      obtain ⟨stage', hn, hk', -⟩ := next_of_canAdvance hk hcan
      obtain ⟨n', hwithin', hn'⟩ := Replay.within_of_next hn h.announces hwithin
      exact ⟨n', ⟨hsound, hm.announces, stage', hk', Replay.isUnbroken_of_next hn hunbroken,
        hwithin'⟩, hn'⟩

/-- The answer to its query, or to another. -/
theorem Filling.answer (h : Filling b k c request n w) {j : TaskId} {a : Answer}
    (hm : w.Fills b k (.answer j a)) : Filling b k c request n (w.apply (.answer j a)) := by
  obtain ⟨stage, hk, hunbroken, hwithin⟩ := h.stage
  have hcame := w.answeredTo j a k
  rw [hk] at hcame
  have hsubscriber : (w.apply (.answer j a)).hub.subscriber c = w.hub.subscriber c :=
    congrFun (w.hub.answer_subscriber j a) c
  refine ⟨h.sound.answer j a, hm.announces, ?_⟩
  rw [hsubscriber]
  generalize (w.apply (.answer j a)).hub.task k = t at hcame
  cases hcame with
  | stays => exact ⟨stage, rfl, hunbroken, hwithin⟩
  | @replay _ purpose hkj hs =>
      cases hs
      subst hkj
      cases purpose with
      | history => exact hwithin.elim
      | gap cursor floor delivered highWater =>
          obtain ⟨hcovers, hannounces, hid⟩ := hwithin
          have hanswers : b.answers floor a := hm.answers a rfl floor (by rw [hk]; rfl)
          refine ⟨_, rfl, ⟨fun e he => ?_, fun _ ht => (nomatch ht), nofun⟩, hcovers, hannounces,
            hid, hanswers⟩
          cases a with
          | error failure => cases he
          | ok events => exact b.stamped hanswers e he

/-- What others do. -/
theorem Filling.foreign (h : Filling b k c request n w) (hm : w.Fills b k m)
    (hanswer : m.answered? = none) (hown : m ≠ .advance k) :
    Filling b k c request n (w.apply m) := by
  obtain ⟨stage, hk, hunbroken, hwithin⟩ := h.stage
  obtain ⟨hk', halike⟩ := h.sound.stays hk (hm.conceivable hanswer) hown (by simp [hanswer])
  refine ⟨h.sound.step hm.conceivable, hm.announces, stage, hk', hunbroken, ?_⟩
  rcases hwithin.hasBegun with hb | rfl
  · rw [(halike hb).lastEventId]
    exact hwithin
  · trivial

theorem Filling.step (h : Filling b k c request n w) (hm : w.Fills b k m) :
    ∃ n', Filling b k c request n' (w.apply m) ∧
      n' + (if w.queriesGap k m then 1 else 0) = n := by
  by_cases hown : m = .advance k
  · subst hown
    exact h.advance hm
  · rw [queriesGap_of_ne hown]
    refine ⟨n, ?_, rfl⟩
    cases ha : m.answered? with
    | none => exact h.foreign hm ha hown
    | some j =>
        cases m with
        | answer j a => exact h.answer hm
        | _ => cases ha

theorem Filling.of_run {u : World} (h : Filling b k c request n u)
    (run : Run (Fills b k) u past w) :
    ∃ n', Filling b k c request n' w ∧ n' + gapQueries k past = n := by
  induction run with
  | nil => exact ⟨n, h, rfl⟩
  | @cons past w m _ hm ih =>
      obtain ⟨n', hfilling, hn'⟩ := ih
      obtain ⟨n'', hstep, hn''⟩ := hfilling.step hm
      refine ⟨n'', hstep, ?_⟩
      simp only [gapQueries, List.countP_cons] at hn' ⊢
      omega

/-! ### The end -/

/-- How the step that ends a replay with gaps to fill leaves its connection: live, or without room
for the frame that is put to it, or else cancelled before. -/
inductive Concludes (k : TaskId) (c : ConnectionId) (w : World) : Prop where
  | handedOver {channel} (hput : w.hub.puts? k c = some (.subscriptionConfirmed channel))
      (hroom : (w.hub.subscriber c).HasRoom)
      (hlive : ((w.apply (.advance k)).hub.subscriber c).phase = .live)
  | refused {f} (hput : w.hub.puts? k c = some f) (hroom : ¬ (w.hub.subscriber c).HasRoom)
  | dropped (hdrop : w.hub.drops k = true)

/-- A frame that does not leave its connection live has found no room. -/
theorem concludes_of_puts {channel : Channel}
    (hput : w.hub.puts? k c = some (.subscriptionConfirmed channel))
    (h : ((w.apply (.advance k)).hub.subscriber c).phase = .live ∨
      Refuses (w.hub.subscriber c) ((w.apply (.advance k)).hub.subscriber c)) :
    w.Concludes k c := by
  by_cases hroom : (w.hub.subscriber c).HasRoom
  · have hputs := w.hub.puts_advance k c
    rw [hput] at hputs
    exact .handedOver hput hroom (h.resolve_right (hputs.not_refuses hroom))
  · exact .refused hput hroom

/-- Nor has an event that a replay ends with. -/
theorem concludes_of_refuses {stage : Replay.Stage} (hd : stage.isDelivering = true)
    (hk : w.hub.task k = .replay ⟨c, request, stage⟩) (hunbroken : stage.IsUnbroken)
    (hended : ((w.apply (.advance k)).hub.task k).isEnded = true)
    (ht : Refuses (w.hub.subscriber c) ((w.apply (.advance k)).hub.subscriber c)) :
    w.Concludes k c := by
  have hputs := w.hub.puts_advance k c
  cases hput : w.hub.puts? k c with
  | some f =>
      rw [hput] at hputs
      exact .refused hput fun hroom => hputs.not_refuses hroom ht
  | none =>
      cases stage with
      | delivering purpose left newest =>
          have hnone : Replay.Stage.puts? w.hub.checkpoint.announced request.channel
              (w.hub.subscriber c) (.delivering purpose left newest) = none := by
            rw [← hput]
            simp [Hub.puts?, hk]
          obtain ⟨stage', ⟨hunderway, -⟩, hk'⟩ :=
            w.hub.stage_of_deliver k ⟨c, request, _⟩ hunbroken hnone
          have hadvance : (w.apply (.advance k)).hub.task k = .replay ⟨c, request, stage'⟩ := by
            change (w.hub.advance k).task k = _
            rw [Hub.advance_of_not_isWaiting hk rfl rfl]
            exact hk'
          rw [hadvance] at hended
          obtain rfl : stage' = .ended := by
            cases stage' <;> first | rfl | cases hended
          cases hunderway
      | _ => cases hd

theorem Filling.concludes (h : Filling b k c request n w)
    (hended : (w.hub.task k).isEnded = false)
    (hended' : ((w.apply (.advance k)).hub.task k).isEnded = true) : w.Concludes k c := by
  obtain ⟨stage, hk, hunbroken, hwithin⟩ := h.stage
  have hcan : w.hub.canAdvance k = true := by
    cases hcan : w.hub.canAdvance k with
    | true => rfl
    | false =>
        rw [apply_advance_of_not_canAdvance hcan, hended] at hended'
        cases hended'
  obtain ⟨stage', hn, hk', -⟩ := next_of_canAdvance hk hcan
  generalize hs : (w.apply (.advance k)).hub.subscriber c = s at hn
  have hputs : w.hub.puts? k c =
      stage.puts? w.hub.checkpoint.announced request.channel (w.hub.subscriber c) := by
    simp [Hub.puts?, hk]
  obtain rfl : stage' = .ended := by
    rw [hk'] at hended'
    cases stage' <;> first | rfl | cases hended'
  cases hn with
  | drop hw =>
      refine .dropped ?_
      simpa only [Hub.drops, hk] using Hub.isDropped_of_isEnded hk hw hended'
  | refuseGap ht => exact concludes_of_refuses rfl hk hunbroken hended' (hs ▸ ht)
  | breakHistory => exact hwithin.elim
  | @breakGap _ cursor floor delivered highWater newest _ hf =>
      have hsome : (Replay.floorBelow? newest cursor).isSome = true :=
        Replay.floorBelow?_isSome hunbroken.newest cursor
      rw [hf] at hsome
      cases hsome
  | goLive hle =>
      have hconfirm : w.hub.puts? k c = some (.subscriptionConfirmed request.channel) := by
        rw [hputs]
        simp [Replay.Stage.puts?, Subscriber.Confirms, hle]
      exact concludes_of_puts hconfirm (.inl (by rw [hs]; rfl))
  | refuseLive hle ht =>
      have hconfirm : w.hub.puts? k c = some (.subscriptionConfirmed request.channel) := by
        rw [hputs]
        simp [Replay.Stage.puts?, Subscriber.Confirms, hle]
      exact concludes_of_puts hconfirm (.inr (hs ▸ ht))
  | confirm =>
      cases hwithin
      have hconfirm : w.hub.puts? k c = some (.subscriptionConfirmed request.channel) := by
        rw [hputs]
        simp [Replay.Stage.puts?, Subscriber.Confirms]
      refine concludes_of_puts hconfirm ?_
      rw [hs]
      exact (Subscriber.handOver_unasked _ (by simp) _).imp_left fun hlive => by rw [hlive]; rfl
  | abort => exact hwithin.elim

/-- If it has ended, it was by such a step. -/
theorem Filling.concluded {u : World} (h : Filling b k c request n u)
    (hu : (u.hub.task k).isEnded = false) (run : Run (Fills b k) u past w)
    (hw : (w.hub.task k).isEnded = true) : ∃ v, (v, .advance k) ∈ past ∧ v.Concludes k c := by
  induction run with
  | nil => rw [hu] at hw; cases hw
  | @cons past w m run hm ih =>
      cases hended : (w.hub.task k).isEnded with
      | true =>
          obtain ⟨v, hv, hconcludes⟩ := ih hended
          exact ⟨v, List.mem_cons_of_mem _ hv, hconcludes⟩
      | false =>
          obtain ⟨n', hfilling, -⟩ := h.of_run run
          obtain ⟨stage, hk, -⟩ := hfilling.stage
          by_cases hown : m = .advance k
          · subst hown
            exact ⟨w, List.mem_cons_self, hfilling.concludes hended hw⟩
          · rw [hfilling.sound.isEnded_eq hk hm.conceivable hown, hended] at hw
            cases hw

end Fills

/-! ### All by itself -/

/-- The task goes on, and each query that it makes is replied to. -/
inductive Runs (k : TaskId) (reply : World → Answer) (w : World) : Move → Prop where
  | advance (hcan : w.hub.canAdvance k = true) : Runs k reply w (.advance k)
  | answer (hask : (w.hub.task k).question?.isSome = true) : Runs k reply w (.answer k (reply w))

section Runs

variable {b : Replay.Budget} {n : Nat} {k : TaskId} {c : ConnectionId} {request : Subscription}
  {w : World} {reply : World → Answer}

/-- Until it has ended it has a step to take, after which there is less to do. -/
theorem Filling.exists_step (h : Filling b k c request n w)
    (hreply : ∀ v, ∀ after ∈ (v.hub.task k).question?, b.answers after (reply v))
    (hended : (w.hub.task k).isEnded ≠ true) :
    ∃ m n', (w.Runs k reply m ∧ w.Fills b k m) ∧ Filling b k c request n' (w.apply m) ∧
      Prod.Lex (· < ·) (Prod.Lex (· < ·) (· < ·)) (n', ((w.apply m).hub.task k).standing)
        (n, (w.hub.task k).standing) := by
  obtain ⟨stage, hk, -, hwithin⟩ := h.stage
  by_cases hask : ∃ purpose, stage = .asking purpose
  · obtain ⟨purpose, rfl⟩ := hask
    have hm : w.Fills b k (.answer k (reply w)) := by
      refine ⟨nofun, fun a ha => ?_, ?_⟩
      · cases ha
        exact hreply w
      · rw [checkpoint_answer]
        exact h.announces
    have hk' : (w.apply (.answer k (reply w))).hub.task k =
        .replay ⟨c, request, .answered purpose (reply w)⟩ :=
      task_answer hk rfl (reply w)
    refine ⟨.answer k (reply w), n, ⟨.answer (by rw [hk]; rfl), hm⟩, h.answer hm, ?_⟩
    rw [hk, hk']
    exact .right _ (.left _ _ (Nat.lt_succ_self _))
  · have hcan : w.hub.canAdvance k = true := by
      rw [hk] at hended
      cases stage with
      | asking purpose => exact absurd ⟨purpose, rfl⟩ hask
      | ended => exact absurd rfl hended
      | arriving | awaitingLock | awaitingPermit => exact hwithin.elim
      | _ => exact Hub.canAdvance_of_isServed hk rfl
    obtain ⟨stage', hn, hk', hcheckpoint⟩ := next_of_canAdvance hk hcan
    have hm : w.Fills b k (.advance k) := by
      refine ⟨fun _ => trivial, fun a ha => ?_, ?_⟩
      · cases ha
      · rw [hcheckpoint]
        exact h.announces
    obtain ⟨n', hfilling, hn'⟩ := h.advance hm
    rw [queriesGap_advance hk] at hn'
    refine ⟨.advance k, n', ⟨.advance hcan, hm⟩, hfilling, ?_⟩
    rw [hk, hk']
    cases hlagging : stage.isLagging with
    | true =>
        simp only [hlagging, ite_true] at hn'
        exact .left _ _ (by omega)
    | false =>
        obtain rfl : n' = n := by simpa [hlagging] using hn'
        exact .right _ (Replay.nearer_of_next hn hwithin hlagging)

theorem Filling.exists_run (h : Filling b k c request n w)
    (hreply : ∀ v, ∀ after ∈ (v.hub.task k).question?, b.answers after (reply v)) :
    ∃ past w', Run (fun v m => v.Runs k reply m ∧ v.Fills b k m) w past w' ∧
      (w'.hub.task k).isEnded = true := by
  have hwf : WellFounded (Prod.Lex (· < ·) (Prod.Lex (· < ·) (· < ·)) :
      Nat × Nat × Nat → Nat × Nat × Nat → Prop) :=
    Nat.lt_wfRel.wf.prod_lex (Nat.lt_wfRel.wf.prod_lex Nat.lt_wfRel.wf)
  have step : ∀ a v, Filling b k c request a.1 v ∧ (v.hub.task k).standing = a.2 →
      ¬ (v.hub.task k).isEnded = true → ∃ m a', (v.Runs k reply m ∧ v.Fills b k m) ∧
        (Filling b k c request a'.1 (v.apply m) ∧ ((v.apply m).hub.task k).standing = a'.2) ∧
        Prod.Lex (· < ·) (Prod.Lex (· < ·) (· < ·)) a' a := by
    rintro ⟨n, -⟩ v ⟨hv, rfl⟩ hended
    obtain ⟨m, n', hm, hfilling, hlt⟩ := hv.exists_step hreply hended
    exact ⟨m, (n', _), hm, ⟨hfilling, rfl⟩, hlt⟩
  obtain ⟨past, w', -, run, -, hended⟩ := exists_run_of_wellFounded hwf
    (fun a v => Filling b k c request a.1 v ∧ (v.hub.task k).standing = a.2)
    (fun v => (v.hub.task k).isEnded = true) step
    (a := (n, (w.hub.task k).standing)) ⟨h, rfl⟩
  exact ⟨past, w', run, hended⟩

end Runs

/-! ### What is bounded -/

/-- Nothing is announced beyond the limit, and whatever the queries of task `k` bring is stamped
late enough. -/
structure Bounded (k : TaskId) (limit : Int) (w : World) (m : Move) : Prop where
  conceivable : w.Conceivable m
  stamped : m.answered? = some k → ∀ e ∈ m.found, Replay.earliest < e.createdAt.truncate
  announced : (w.apply m).hub.checkpoint.announced ≤ limit

/-- The log answers, and neither it nor what has been announced changes. -/
structure Unchanging (w : World) (m : Move) : Prop where
  possible : w.Possible m
  unwritten : m.isWrite = false
  announced : (w.apply m).hub.checkpoint.announced = w.hub.checkpoint.announced

instance (w : World) (m : Move) : Decidable (w.Conceivable m) :=
  inferInstanceAs (Decidable (_ → _))

instance (k : TaskId) (limit : Int) (w : World) (m : Move) : Decidable (w.Bounded k limit m) :=
  decidable_of_iff (w.Conceivable m ∧
      (m.answered? = some k → ∀ e ∈ m.found, Replay.earliest < e.createdAt.truncate) ∧
      (w.apply m).hub.checkpoint.announced ≤ limit)
    ⟨fun ⟨hc, hs, ha⟩ => ⟨hc, hs, ha⟩, fun h => ⟨h.conceivable, h.stamped, h.announced⟩⟩

instance (w : World) (m : Move) : Decidable (w.Unchanging m) :=
  decidable_of_iff (w.Possible m ∧ m.isWrite = false ∧
      (w.apply m).hub.checkpoint.announced = w.hub.checkpoint.announced)
    ⟨fun ⟨hp, hw, ha⟩ => ⟨hp, hw, ha⟩, fun h => ⟨h.possible, h.unwritten, h.announced⟩⟩

section Main

variable {k : TaskId} {c : ConnectionId} {request : Subscription} {cursor floor : Instant}
  {u w : World} {m : Move} {past : List (World × Move)}

theorem Bounded.fills {limit : Int} (h : w.Bounded k limit m) :
    w.Fills (.bounded limit) k m where
  conceivable := h.conceivable
  answers := by
    rintro a rfl after -
    cases a with
    | error failure => trivial
    | ok events => exact h.stamped rfl
  announces := h.announced

theorem Runs.bounded {limit : Int} {reply : World → Answer} (h : w.Runs k reply m)
    (hm : w.Fills (.bounded limit) k m) (hreply : ∀ v, Replay.Stamped (reply v)) :
    w.Bounded k limit m where
  conceivable := hm.conceivable
  stamped := by
    intro _ e he
    cases h with
    | advance => cases he
    | answer =>
        have hstamped := hreply w
        cases ha : reply w with
        | error failure => rw [ha] at he; cases he
        | ok events =>
            rw [ha] at he hstamped
            exact hstamped e he
  announced := hm.announces

theorem Unchanging.fills (h : w.Unchanging m) :
    w.Fills (.stable w.log w.hub.checkpoint.announced) k m where
  conceivable := fun _ => h.possible
  answers := by
    rintro a rfl after hafter
    obtain ⟨asked, hasked, hmay⟩ := h.possible
    cases Option.mem_unique hasked hafter
    exact hmay
  announces := h.announced

theorem fills_of_unchanging (run : Run Unchanging u past w) :
    Run (Fills (.stable u.log u.hub.checkpoint.announced) k) u past w ∧ w.log = u.log ∧
      w.hub.checkpoint.announced = u.hub.checkpoint.announced := by
  induction run with
  | nil => exact ⟨.nil, rfl, rfl⟩
  | cons _ hm ih =>
      obtain ⟨run, hlog, hannounced⟩ := ih
      have hfills := hm.fills (k := k)
      rw [hlog, hannounced] at hfills
      exact ⟨.cons run hfills, (log_apply hm.unwritten).trans hlog,
        hm.announced.trans hannounced⟩

/-- A replay about to reconcile has what its budget covers before it. -/
theorem filling_of_reconciling {b : Replay.Budget} {n : Nat} (hsound : u.Sound)
    (hk : u.hub.task k = .replay ⟨c, request, .reconciling cursor floor⟩)
    (hannounces : b.announces u.hub.checkpoint.announced)
    (hcovers : b.covers cursor (u.hub.subscriber c).lastEventId floor n) :
    Filling b k c request n u where
  sound := hsound
  announces := hannounces
  stage := ⟨_, hk, ⟨fun _ he => (nomatch he), fun _ ht => (nomatch ht), nofun⟩, hcovers⟩

end Main

/-- A replay has queued its history and is about to reconcile when a tick announces id 2, of an
event from before the newest of the history. -/
def outdated : List Move :=
  [.append (policyAt 1000), .connect,
    .subscribe 0 { channel := .systemEvents, lastSeen := some .epoch }] ++
  List.replicate 5 (.advance 0) ++ [.answer 0 (.ok [(policyAt 1000).event 1])] ++
  List.replicate 4 (.advance 0) ++
  [.append (policyAt 500), .startTick, .advance 1,
    .answer 1 (.ok [(policyAt 1000).event 1, (policyAt 500).event 2]), .advance 1, .advance 1]

/-- The first query brings nothing new, as it asks for what comes after id 1 in time. -/
def twoRounds : List Move :=
  [.advance 0, .advance 0, .answer 0 (.ok [(policyAt 1000).event 1])] ++
  List.replicate 4 (.advance 0) ++
  [.answer 0 (.ok [(policyAt 1000).event 1, (policyAt 500).event 2])] ++
  List.replicate 4 (.advance 0)

end World

end EventStream
