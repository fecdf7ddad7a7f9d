import Mathlib.Data.List.Perm.Subperm
import EventStream.Proofs.Session
import EventStream.Proofs.World.Cost

/-! A server settles. The steps that its tasks have before them are fewer than those that it runs
for, so it stops when no task can go on and not before. -/

namespace EventStream

/-! ### Bounds on what is to come -/

theorem Replay.rest_le (log : Log) (id : Int) (purpose : Replay.Purpose) :
    purpose.rest log id ≤ queries log (2 * log.rows.length + 2) + 3 := by
  have hle := log.newer_le id
  have h2 : queries log (2 * log.newer id + 2) ≤ queries log (2 * log.rows.length + 2) :=
    queries_mono log (by omega)
  have h1 : queries log (2 * log.newer id + 1) ≤ queries log (2 * log.rows.length + 2) :=
    queries_mono log (by omega)
  cases purpose with
  | history => exact Nat.le_refl _
  | gap => simp only [Purpose.rest]; split <;> (try split) <;> omega

theorem Replay.length_wanted_le (purpose : Replay.Purpose) (events : List Event) :
    (purpose.wanted events).length ≤ events.length := by
  cases purpose with
  | history => exact Nat.le_refl _
  | gap => exact List.length_filter_le _ _

/-- A replay has before it what it has in hand and a number of queries that the log bounds. -/
theorem Replay.cost_le (log : Log) (id : Int) (r : Replay) :
    r.stage.cost log id ≤
      queries log (2 * log.rows.length + 3) + log.rows.length + (Task.replay r).load + 11 := by
  have hsucc : queries log (2 * log.rows.length + 3) =
      queries log (2 * log.rows.length + 2) + log.rows.length + 5 := queries_succ ..
  have hle := log.newer_le id
  have hreconciling := fun cursor floor => cost_reconciling_le log id cursor floor
  have hnewer : queries log (2 * log.newer id + 2) ≤ queries log (2 * log.rows.length + 2) :=
    queries_mono log (by omega)
  obtain ⟨c, request, stage⟩ := r
  cases stage with
  | asking purpose =>
      cases purpose with
      | history => simp only [Stage.cost, Purpose.cost, historyCost]; omega
      | gap cursor floor delivered highWater =>
          have hqueries : (Purpose.gap cursor floor delivered highWater).cost log id ≤
              queries log (2 * log.rows.length + 3) := by
            have := queriesLeft_le log id cursor floor
            refine queries_mono log ?_
            split <;> omega
          simp only [Stage.cost]
          omega
  | answered purpose answer =>
      cases answer with
      | ok events =>
          have hrest := rest_le log (gateAfter id (purpose.wanted events)) purpose
          have hwanted := length_wanted_le purpose events
          simp only [Stage.cost, Task.load]
          omega
      | error failure => simp only [Stage.cost]; omega
  | delivering purpose left newest =>
      have hrest := rest_le log (gateAfter id left) purpose
      simp only [Stage.cost, Task.load]
      omega
  | reconciling cursor floor =>
      have := hreconciling cursor floor
      simp only [Stage.cost] at this ⊢
      omega
  | lagging cursor floor highWater =>
      have := hreconciling cursor floor
      simp only [Stage.cost] at this ⊢
      omega
  | _ => simp only [Stage.cost, historyCost]; omega

namespace Tick

/-- The lists of a tick are no longer than its batch and the connections opened. -/
def Stage.IsBrief (opened : Nat) : Stage → Prop
  | picking _ unseen live => unseen.length + live.length ≤ opened
  | broadcasting batch left live targets =>
    left.length ≤ batch.length ∧ live.length ≤ opened ∧ targets.length ≤ live.length
  | _ => True

theorem Stage.IsBrief.mono {stage : Stage} {m n : Nat} (h : stage.IsBrief m) (hle : m ≤ n) :
    stage.IsBrief n := by
  cases stage with
  | picking => exact Nat.le_trans h hle
  | broadcasting => exact ⟨h.1, Nat.le_trans h.2.1 hle, h.2.2⟩
  | _ => trivial

theorem isBrief_of_next {h : Hub} {stage stage' : Stage} {checkpoint : Checkpoint}
    {subscriber : ConnectionId → Subscriber} (hn : Next h stage stage' checkpoint subscriber)
    (hregistry : h.registry.length ≤ h.opened) (hb : stage.IsBrief h.opened) :
    stage'.IsBrief h.opened := by
  cases hn with
  | announce | announceNone => exact hregistry
  | pick | passOver =>
      simp only [Stage.IsBrief, List.length_append, List.length_cons, List.length_nil] at hb ⊢
      omega
  | @fanOut batch live =>
      simp only [Stage.IsBrief, List.length_nil] at hb ⊢
      exact ⟨Nat.le_refl _, by omega, length_targets_le batch live⟩
  | offer | offerNone =>
      simp only [Stage.IsBrief, List.length_cons] at hb ⊢
      omega
  | @mark batch e rest live =>
      have hle := length_targets_le rest live
      simp only [Stage.IsBrief, List.length_cons] at hb ⊢
      omega
  | _ => trivial

theorem cost_le {stage : Stage} {queried registered opened size : Nat}
    (hb : stage.IsBrief opened) (hqueried : queried ≤ size) (hregistered : registered ≤ opened)
    (hload : (Task.tick stage).load ≤ size) :
    stage.cost queried registered ≤ offers size opened + 2 * opened + 6 := by
  have hoffers : ∀ m n, m ≤ size → n ≤ opened → offers m n ≤ offers size opened :=
    fun m n => offers_mono
  cases stage with
  | starting | asking =>
      have := hoffers _ _ hqueried hregistered
      simp only [Stage.cost]
      omega
  | answered answer =>
      cases answer with
      | ok events =>
          have := hoffers _ _ hload hregistered
          simp only [Stage.cost]
          simp only [Task.load] at this
          omega
      | error failure => simp only [Stage.cost]; omega
  | announcing batch =>
      have := hoffers _ _ hload hregistered
      simp only [Task.load] at this
      simp only [Stage.cost]
      omega
  | picking batch unseen live =>
      have := hoffers _ _ hload hb
      simp only [Task.load] at this
      simp only [Stage.IsBrief] at hb
      simp only [Stage.cost]
      omega
  | broadcasting batch left live targets =>
      have := hoffers _ _ (Nat.le_trans hb.1 hload) hb.2.1
      simp only [Stage.IsBrief] at hb
      simp only [Stage.cost]
      omega
  | ended => exact Nat.zero_le _

end Tick

namespace World

/-- No connection is registered twice, and the ticks' lists are short. -/
structure Brief (w : World) : Prop where
  registry : w.hub.registry.Nodup
  ticks : ∀ k stage, w.hub.task k = .tick stage → stage.IsBrief w.hub.opened

theorem Brief.length_registry_le {w : World} (h : w.Brief) (hw : w.hub.Tidy) :
    w.hub.registry.length ≤ w.hub.opened := by
  have hsub : w.hub.registry ⊆ List.range w.hub.opened :=
    fun c hc => List.mem_range.mpr (hw.registered c hc)
  simpa using (h.registry.subperm hsub).length_le

theorem nodup_register {h : Hub} (hn : h.registry.Nodup) (c : ConnectionId) :
    (h.register c).registry.Nodup := by
  simp only [Hub.register]
  split
  · exact hn
  · next hc =>
    rw [List.nodup_append]
    refine ⟨hn, List.pairwise_singleton _ _, fun a ha b hb hab => hc ?_⟩
    rw [List.mem_singleton.mp hb] at hab
    exact List.contains_iff_mem.mpr (hab ▸ ha)

theorem nodup_apply {w : World} {m : Move} (hm : w.Possible m) (hn : w.hub.registry.Nodup) :
    (w.apply m).hub.registry.Nodup := by
  rcases registry_apply hm with heq | ⟨c, -, heq⟩ | ⟨c, heq⟩ <;> rw [heq]
  · exact hn
  · exact nodup_register hn c
  · exact hn.filter _

theorem brief_apply {w : World} {m : Move} (hw : w.hub.Tidy) (hm : w.Possible m) (h : w.Brief) :
    (w.apply m).Brief where
  registry := nodup_apply hm h.registry
  ticks := by
    intro k stage hk
    refine Tick.Stage.IsBrief.mono ?_ (opened_le_apply w m)
    have hc := (effect hw hm).came k
    rw [hk] at hc
    cases hc with
    | stays _ ht => exact h.ticks k stage ht
    | startsTick => trivial
    | answersTick => trivial
    | movesTick ht hn => exact Tick.isBrief_of_next hn (h.length_registry_le hw) (h.ticks k _ ht)

theorem brief_of_run {capacity replays : Nat} {start : Instant} {past : List (World × Move)}
    {w : World} (run : Run Possible (.new capacity replays start) past w) : w.Brief := by
  induction run with
  | nil => exact ⟨List.nodup_nil, fun k stage hk => by cases hk; trivial⟩
  | cons run hm ih => exact brief_apply (tidy_of_run run) hm ih

end World

/-! ### The steps that a server runs for -/

namespace Server

theorem load_le_volume (s : Server) {k : TaskId} (hk : k ∈ s.hub.unfinished) :
    s.log.rows.length + (s.hub.task k).load ≤ s.volume := by
  have hmem : (s.hub.task k).load ∈ s.hub.unfinished.map fun j => (s.hub.task j).load :=
    List.mem_map_of_mem hk
  rw [volume, ← List.sum_eq_foldl]
  exact Nat.add_le_add_left (List.le_sum_of_mem hmem) _

/-- More steps than one task has before it. -/
def taskBound (s : Server) : Nat := (s.volume + 8) * (s.volume + 8) * (s.hub.opened + 8)

theorem queries_add_le (log : Log) {load size : Nat} (h : log.rows.length + load ≤ size) :
    Replay.queries log (2 * log.rows.length + 3) + log.rows.length + load + 11 ≤
      8 * ((size + 8) * (size + 8)) := by
  have hqueries : Replay.queries log (2 * log.rows.length + 3) ≤ 2 * (size + 8) * (size + 8) :=
    Nat.mul_le_mul (by omega) (by omega)
  have hsquare : 8 * (size + 8) ≤ (size + 8) * (size + 8) := Nat.mul_le_mul_right _ (by omega)
  rw [Nat.mul_assoc] at hqueries
  omega

theorem offers_add_le (size opened : Nat) :
    Tick.offers size opened + 2 * opened + 6 ≤ (size + 8) * (opened + 8) := by
  have hoffers : Tick.offers size opened ≤ size * (opened + 8) :=
    Nat.mul_le_mul_left _ (by omega)
  rw [Nat.add_mul]
  omega

variable {s : Server}

theorem taskCost_le_taskBound (hw : s.hub.Tidy) (hb : s.world.Brief) (k : TaskId) :
    s.world.taskCost k ≤ s.taskBound := by
  cases hended : (s.hub.task k).isEnded with
  | true => simp only [World.taskCost_of_isEnded (w := s.world) hended, Nat.zero_le]
  | false =>
      have hk : k ∈ s.hub.unfinished :=
        List.mem_filter.mpr ⟨List.mem_range.mpr (hw.lt_started hended), by rw [hended]; rfl⟩
      have hload := s.load_le_volume hk
      cases ht : s.hub.task k with
      | replay r =>
          rw [ht] at hload
          rw [World.taskCost_of_replay (w := s.world) ht]
          refine Nat.le_trans (Replay.cost_le ..) (Nat.le_trans (queries_add_le s.log hload) ?_)
          rw [taskBound, Nat.mul_comm 8]
          exact Nat.mul_le_mul_left _ (Nat.le_add_left ..)
      | tick stage =>
          rw [ht] at hload
          rw [World.taskCost_of_tick (w := s.world) ht]
          have hcost : stage.cost s.log.rows.length s.hub.registry.length ≤
              Tick.offers s.volume s.hub.opened + 2 * s.hub.opened + 6 :=
            Tick.cost_le (hb.ticks k stage ht) (by omega) (hb.length_registry_le hw) (by omega)
          refine Nat.le_trans hcost (Nat.le_trans (offers_add_le ..) ?_)
          rw [taskBound, Nat.mul_assoc]
          exact Nat.le_mul_of_pos_left _ (by omega)

theorem cost_le_stepBound (hw : s.hub.Tidy) (hb : s.world.Brief) :
    s.world.cost ≤ s.stepBound := by
  have hsum := List.sum_le_card_nsmul ((List.range s.hub.started).map s.world.taskCost) s.taskBound
    (by simpa using fun k _ => taskCost_le_taskBound hw hb k)
  rw [List.length_map, List.length_range] at hsum
  refine Nat.le_trans (m := s.hub.started * s.taskBound) hsum ?_
  rw [stepBound, Nat.mul_assoc, Nat.mul_assoc, ← Nat.mul_assoc (s.volume + 8)]
  exact Nat.mul_le_mul_right _ (Nat.le_succ _)

/-! ### Settling -/

/-- No task can go on. -/
def IsSettled (s : Server) : Prop := ∀ k, s.canStep k = false

/-- What a server does for a task is a step of that task, after chance has decided what the task
sees first. -/
theorem steps_of_canStep {k : TaskId} (h : s.canStep k = true) :
    ∃ b m, (s.world.apply (.toss b)).Steps k m ∧
      (s.step k).world = (s.world.apply (.toss b)).apply m := by
  unfold step
  cases hq : (s.hub.task k).question? with
  | some after =>
      exact ⟨s.hub.cancelFirst, .answer k _,
        .answer ⟨after, hq, s.gate.mayAnswer_ask s.log k after⟩, rfl⟩
  | none =>
      simp only [canStep, hq, Option.isSome_none, Bool.false_or, Bool.and_eq_true] at h
      exact ⟨s.cancelFirst k, .advance k, .advance h.1, rfl⟩

theorem lt_started_of_canStep (hw : s.hub.Tidy) {k : TaskId} (h : s.canStep k = true) :
    k < s.hub.started := by
  obtain ⟨b, m, hm, -⟩ := steps_of_canStep h
  exact hw.lt_started hm.not_isEnded

section Run

variable {capacity replays : Nat} {start : Instant} {past : List (World × World.Move)}

/-- Each step takes one from the steps to come. -/
theorem cost_step_lt (run : World.Run World.Possible (.new capacity replays start) past s.world)
    {k : TaskId} (h : s.canStep k = true) : (s.step k).world.cost < s.world.cost := by
  obtain ⟨b, m, hm, hw⟩ := steps_of_canStep h
  have run' := run.cons (m := .toss b) trivial
  rw [hw]
  exact hm.cost_lt (World.tidy_of_run run') (World.locked_of_run run') (World.withheld_of_run run')

/-- So many steps lead from `s` to the server on the right, whichever tasks take them. -/
inductive Advances (s : Server) : Nat → Server → Prop where
  | refl : Advances s 0 s
  | step {n : Nat} {t : Server} {k : TaskId} :
      Advances s n t → t.canStep k = true → Advances s (n + 1) (t.step k)

theorem Advances.leads {n : Nat} {t : Server} (h : s.Advances n t) :
    World.Leads s.world t.world := by
  induction h with
  | refl => exact .refl _
  | step _ _ ih => exact ih.trans (leads_step ..)

/-- In whatever order the tasks go on, they come to an end of it. -/
theorem Advances.le_stepBound {n : Nat} {t : Server}
    (run : World.Run World.Possible (.new capacity replays start) past s.world)
    (h : s.Advances n t) : n ≤ s.stepBound := by
  have hcost : t.world.cost + n ≤ s.world.cost := by
    induction h with
    | refl => exact Nat.le_refl _
    | step hbefore hk ih =>
        obtain ⟨past', run'⟩ := hbefore.leads
        have hlt := cost_step_lt (run.append run') hk
        omega
  have hbound := cost_le_stepBound (World.tidy_of_run run) (World.brief_of_run run)
  omega

theorem run_isSettled {fuel : Nat}
    (run : World.Run World.Possible (.new capacity replays start) past s.world)
    (h : s.world.cost ≤ fuel) (k : TaskId) : (Server.run fuel k s).IsSettled := by
  induction fuel generalizing k s past with
  | zero =>
      intro j
      refine Bool.eq_false_iff.mpr fun hj => ?_
      have := cost_step_lt run hj
      omega
  | succ fuel ih =>
      have hgo : ∀ j, s.canStep j = true → (Server.run fuel j (s.step j)).IsSettled := by
        intro j hj
        obtain ⟨b, m, hm, hw⟩ := steps_of_canStep hj
        have hlt := cost_step_lt run hj
        exact ih (hw ▸ (run.cons (m := .toss b) trivial).cons hm.possible) (by omega) j
      simp only [Server.run]
      split
      · next hk => exact hgo k hk
      · split
        · next j hfind => exact hgo j (List.find?_some hfind)
        · next hfind =>
          intro j
          refine Bool.eq_false_iff.mpr fun hj => ?_
          have hlt := lt_started_of_canStep (World.tidy_of_run run) hj
          exact (List.find?_eq_none.mp hfind) j (List.mem_range.mpr hlt) hj

/-- A server that settles runs until no task can go on: its steps suffice. -/
theorem settle_isSettled
    (run : World.Run World.Possible (.new capacity replays start) past s.world) :
    s.settle.IsSettled := by
  have hbound := cost_le_stepBound (World.tidy_of_run run) (World.brief_of_run run)
  simpa [settle, onHub] using run_isSettled run hbound s.hub.started

end Run

end Server

end EventStream
