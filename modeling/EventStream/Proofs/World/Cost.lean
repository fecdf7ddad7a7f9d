import Mathlib.Algebra.GroupWithZero.Nat
import Mathlib.Algebra.Order.BigOperators.Group.List
import Mathlib.Algebra.Order.Group.Nat
import EventStream.Proofs.Batch
import EventStream.Proofs.World.Lock

/-! How many steps a task has before it at most, until it ends. Each query of a replay that fills
gaps brings its gate past a row of the log, or the floor down to the cursor, or is the last. -/

namespace EventStream

open Subscriber (Alike)

namespace Log

/-- How many rows have a greater id. -/
def newer (log : Log) (id : Int) : Nat := log.rows.countP (id < ·.id)

theorem newer_le (log : Log) (id : Int) : log.newer id ≤ log.rows.length := List.countP_le_length

theorem newer_anti (log : Log) {id id' : Int} (h : id ≤ id') : log.newer id' ≤ log.newer id := by
  refine List.countP_mono_left fun r _ hr => ?_
  simp only [decide_eq_true_eq] at hr ⊢
  omega

/-- Whoever gets past an event of the log has fewer rows before him. -/
theorem newer_lt {log : Log} {e : Event} (he : log.Holds e) {id : Int} (h : id < e.id) :
    log.newer e.id < log.newer id := by
  obtain ⟨r, hr, hre⟩ := he
  have hid : e.id = r.id := (Row.event_eq_ok hre).1
  have hsub : (log.rows.filter (e.id < ·.id)).Sublist (log.rows.filter (id < ·.id)) := by
    refine List.monotone_filter_right _ fun x hx => ?_
    simp only [decide_eq_true_eq] at hx ⊢
    omega
  simp only [newer, List.countP_eq_length_filter]
  refine Nat.lt_of_le_of_ne hsub.length_le fun hlength => ?_
  -- Were they as many, the event's own row would be among those after it.
  have hmem : r ∈ log.rows.filter (id < ·.id) := by simpa [hr, ← hid] using h
  rw [← hsub.eq_of_length hlength] at hmem
  simp [hid] at hmem

theorem length_of_events {rows : List Row} {es : List Event} (h : events rows = .ok es) :
    es.length = rows.length := by
  induction rows generalizing es with
  | nil => cases h; rfl
  | cons x rows ih =>
      simp only [events, bind, Except.bind] at h
      split at h
      · cases h
      · split at h
        · cases h
        · next hrows =>
          cases h
          exact congrArg (· + 1) (ih hrows)

theorem length_of_eventsAfter {log : Log} {cursor : Instant} {es : List Event}
    (h : log.eventsAfter cursor = .ok es) : es.length ≤ log.rows.length :=
  length_of_events h ▸ List.length_filter_le _ _

end Log

namespace World

theorem length_of_mayAnswer {log : Log} {cursor : Instant} {events : List Event}
    (h : MayAnswer (log.eventsAfter cursor) (.ok events)) : events.length ≤ log.rows.length := by
  cases hf : log.eventsAfter cursor with
  | error failure => rw [hf] at h; exact h.elim
  | ok found =>
      rw [hf] at h
      rw [List.Perm.length_eq h]
      exact Log.length_of_eventsAfter hf

end World

namespace Replay

/-! ### Replays -/

/-- Where the gate stands after the delivery of the events. -/
def gateAfter (id : Int) (left : List Event) : Int := left.foldl (fun id e => max id e.id) id

theorem le_gateAfter (id : Int) (left : List Event) : id ≤ gateAfter id left := by
  induction left generalizing id with
  | nil => exact Int.le_refl _
  | cons e left ih => exact Int.le_trans (Int.le_max_left ..) (ih _)

theorem gateAfter_mem (id : Int) (left : List Event) :
    gateAfter id left = id ∨ ∃ e ∈ left, gateAfter id left = e.id := by
  induction left generalizing id with
  | nil => exact .inl rfl
  | cons e left ih =>
      rcases ih (max id e.id) with h | ⟨d, hd, h⟩
      · change gateAfter (max id e.id) left = id ∨
          ∃ d ∈ e :: left, gateAfter (max id e.id) left = d.id
        rw [h]
        rcases Int.le_total e.id id with hle | hle
        · exact .inl (Int.max_eq_left hle)
        · exact .inr ⟨e, List.mem_cons_self, Int.max_eq_right hle⟩
      · exact .inr ⟨d, List.mem_cons_of_mem _ hd, h⟩

theorem gateAfter_concat (id : Int) (done : List Event) (e : Event) :
    gateAfter id (done ++ [e]) = max (gateAfter id done) e.id := by
  simp only [gateAfter, List.foldl_append, List.foldl_cons, List.foldl_nil]

theorem le_gateAfter_of_mem (id : Int) {done : List Event} {e : Event} (he : e ∈ done) :
    e.id ≤ gateAfter id done := by
  induction done generalizing id with
  | nil => cases he
  | cons d done ih =>
      rcases List.mem_cons.mp he with rfl | he
      · exact Int.le_trans (Int.le_max_right ..) (le_gateAfter (max id e.id) done)
      · exact ih (max id d.id) he

/-- The steps of so many queries: each is asked for, asked, answered and delivered. -/
def queries (log : Log) (n : Nat) : Nat := n * (log.rows.length + 5)

theorem queries_succ (log : Log) (n : Nat) :
    queries log (n + 1) = queries log n + log.rows.length + 5 := by
  simp only [queries, Nat.add_mul, Nat.one_mul, Nat.add_assoc]

theorem queries_mono (log : Log) {m n : Nat} (h : m ≤ n) : queries log m ≤ queries log n :=
  Nat.mul_le_mul_right _ h

/-- Queries to come while the gate stands at `id` and the floor at `floor`. -/
def queriesLeft (log : Log) (id : Int) (cursor floor : Instant) : Nat :=
  2 * log.newer id + if cursor < floor then 2 else 1

theorem queriesLeft_le (log : Log) (id : Int) (cursor floor : Instant) :
    queriesLeft log id cursor floor ≤ 2 * log.newer id + 2 := by
  unfold queriesLeft
  split <;> omega

theorem queriesLeft_of_lt {log : Log} {id : Int} {cursor floor : Instant} (h : cursor < floor) :
    queriesLeft log id cursor floor = 2 * log.newer id + 2 := by
  rw [queriesLeft, if_pos h]

theorem queriesLeft_of_not_lt {log : Log} {id : Int} {cursor floor : Instant}
    (h : ¬ cursor < floor) : queriesLeft log id cursor floor = 2 * log.newer id + 1 := by
  rw [queriesLeft, if_neg h]

/-- The steps that follow a delivery after which the gate stands at `id`. -/
def Purpose.rest (log : Log) (id : Int) : Purpose → Nat
  | history .. => queries log (2 * log.rows.length + 2) + 3
  | gap cursor floor delivered _ =>
    if delivered < id then queries log (2 * log.newer id + 2) + 2
    else if cursor < floor then queries log (2 * log.newer id + 1) + 2
    else 1

/-- The steps from the query for the history on. -/
def historyCost (log : Log) : Nat :=
  log.rows.length + 3 + (queries log (2 * log.rows.length + 2) + 3)

/-- The steps from a query on. -/
def Purpose.cost (log : Log) (id : Int) : Purpose → Nat
  | history .. => historyCost log
  | gap cursor floor delivered _ =>
    queries log (if delivered < id then 2 * log.newer id + 3
      else queriesLeft log id cursor floor)

/-- The steps from a stage on, while the gate stands at `id`. -/
def Stage.cost (log : Log) (id : Int) : Stage → Nat
  | arriving => historyCost log + 5
  | awaitingLock => historyCost log + 4
  | awaitingPermit => historyCost log + 3
  | admitted => historyCost log + 2
  | opening .. => historyCost log + 1
  | asking purpose => purpose.cost log id
  | answered purpose (.ok events) =>
    (purpose.wanted events).length + 2 + purpose.rest log (gateAfter id (purpose.wanted events))
  | answered _ (.error _) => 3
  | delivering purpose left _ => left.length + 1 + purpose.rest log (gateAfter id left)
  | settling .. => queries log (2 * log.rows.length + 2) + 3
  | reconciling cursor floor => queries log (queriesLeft log id cursor floor) + 2
  | lagging cursor floor _ => queries log (queriesLeft log id cursor floor) + 1
  | confirming _ => 1
  | reporting _ => 2
  | aborting _ => 1
  | ended => 0

/-- Before a replay has begun, its subscriber's gate has no part in what it has before it. -/
theorem Stage.cost_of_not_hasBegun {stage : Stage} (h : stage.hasBegun = false) (log : Log)
    (id id' : Int) : stage.cost log id = stage.cost log id' := by
  cases stage <;> first | rfl | cases h

theorem Stage.cost_pos_of_isWaiting {stage : Stage} (h : stage.isWaiting = true) (log : Log)
    (id : Int) : 0 < stage.cost log id := by
  cases stage with
  | answered purpose answer => cases answer <;> simp only [cost] <;> omega
  | arriving | awaitingLock | awaitingPermit => simp only [cost]; omega
  | _ => cases h

theorem cost_reconciling_le (log : Log) (id : Int) (cursor floor : Instant) :
    (Stage.reconciling cursor floor).cost log id ≤ queries log (2 * log.newer id + 2) + 2 :=
  Nat.add_le_add_right (queries_mono log (queriesLeft_le log id cursor floor)) 2

theorem cost_delivering_nil (log : Log) (id : Int) (purpose : Purpose)
    (newest : Option Instant) :
    (Stage.delivering purpose [] newest).cost log id = purpose.rest log id + 1 :=
  Nat.add_comm ..

/-- An event is delivered, and the gate moves past it. -/
theorem cost_delivering_cons (log : Log) (id : Int) (purpose : Purpose) (e : Event)
    (rest : List Event) (newest newest' : Option Instant) :
    (Stage.delivering purpose (e :: rest) newest).cost log id =
      (Stage.delivering purpose rest newest').cost log (max id e.id) + 1 := by
  have hgate : gateAfter id (e :: rest) = gateAfter (max id e.id) rest := rfl
  simp only [Stage.cost, hgate, List.length_cons]
  omega

theorem cost_lt_of_next {announced : Int} {request : Subscription} {stage stage' : Stage}
    {s t : Subscriber} (log : Log) (hn : Next announced request stage s stage' t) :
    stage'.cost log t.lastEventId < stage.cost log s.lastEventId := by
  cases hn with
  | drop hw => exact Stage.cost_pos_of_isWaiting hw log _
  | skip =>
      rw [cost_delivering_cons]
      exact Nat.lt_succ_self _
  | stale hm hid =>
      rw [cost_delivering_cons, Int.max_eq_left hid]
      exact Nat.lt_succ_self _
  | queue hm hid =>
      rw [cost_delivering_cons, Int.max_eq_right (Int.le_of_lt hid)]
      exact Nat.lt_succ_self _
  | refuseHistory | closeHistory => simp only [Stage.cost, Purpose.rest]; omega
  | @closeGap _ cursor floor delivered highWater newest floor' hlt =>
      have hle := cost_reconciling_le log s.lastEventId cursor floor'
      rw [cost_delivering_nil, Purpose.rest, if_pos hlt]
      omega
  | @lower _ cursor floor delivered highWater newest hle hlt =>
      have hself : queriesLeft log s.lastEventId cursor cursor = 2 * log.newer s.lastEventId + 1 :=
        queriesLeft_of_not_lt (Int.lt_irrefl _)
      rw [cost_delivering_nil, Purpose.rest, if_neg (Int.not_lt.mpr hle), if_pos hlt, Stage.cost,
        hself]
      omega
  | giveUp hle hlt =>
      rw [cost_delivering_nil, Purpose.rest, if_neg (Int.not_lt.mpr hle), if_neg hlt]
      exact Nat.lt_succ_self 1
  | @settle _ cursor floor =>
      have hle := cost_reconciling_le log s.lastEventId cursor floor
      have hnewer : queries log (2 * log.newer s.lastEventId + 2) ≤
          queries log (2 * log.rows.length + 2) := by
        have := log.newer_le s.lastEventId
        exact queries_mono log (by omega)
      change Stage.cost log s.lastEventId (.reconciling cursor floor) < _
      simp only [Stage.cost] at hle ⊢
      omega
  | ask => exact Nat.lt_succ_self _
  | lag =>
      simp only [Stage.cost, Purpose.cost, Int.lt_irrefl, ite_false]
      omega
  | _ => simp only [Stage.cost]; omega

theorem Purpose.rest_pos (log : Log) (id : Int) (purpose : Purpose) : 0 < purpose.rest log id := by
  cases purpose with
  | history => simp only [rest]; omega
  | gap => simp only [rest]; split <;> (try split) <;> omega

/-- What is left after a gap has been filled as far as the log's answer goes: either the answer
brought the gate past a row, or there is one query less to come. -/
theorem rest_gap_le {log : Log} (cursor floor : Instant) {delivered : Int} (highWater id : Int)
    {es : List Event} (hes : ∀ e ∈ es, log.Holds e ∧ delivered < e.id) :
    (Purpose.gap cursor floor delivered highWater).rest log (gateAfter id es) +
      (log.rows.length + 3) ≤ (Purpose.gap cursor floor delivered highWater).cost log id := by
  have hid := le_gateAfter id es
  have hnewer := log.newer_anti hid
  simp only [Purpose.rest, Purpose.cost]
  by_cases hdelivered : delivered < id
  · have hmono : queries log (2 * log.newer (gateAfter id es) + 2) ≤
        queries log (2 * log.newer id + 2) := queries_mono log (by omega)
    have hsucc : queries log (2 * log.newer id + 3) =
        queries log (2 * log.newer id + 2) + log.rows.length + 5 := queries_succ ..
    rw [if_pos (by omega), if_pos hdelivered]
    omega
  · rw [if_neg hdelivered]
    by_cases hpast : delivered < gateAfter id es
    · -- The gate has moved to an event of the answer, which is in the log.
      rcases gateAfter_mem id es with heq | ⟨e, he, heq⟩
      · omega
      · have hlt : log.newer (gateAfter id es) < log.newer id := by
          have := (hes e he).2
          rw [heq]
          exact Log.newer_lt (hes e he).1 (by omega)
        have hmono : queries log (2 * log.newer (gateAfter id es) + 2 + 1) ≤
            queries log (queriesLeft log id cursor floor) := by
          refine queries_mono log ?_
          unfold queriesLeft
          split <;> omega
        have hsucc := queries_succ log (2 * log.newer (gateAfter id es) + 2)
        rw [if_pos hpast]
        omega
    · rw [if_neg hpast]
      by_cases hfloor : cursor < floor
      · have hmono : queries log (2 * log.newer (gateAfter id es) + 1) ≤
            queries log (2 * log.newer id + 1) := queries_mono log (by omega)
        have hsucc : queries log (2 * log.newer id + 2) =
            queries log (2 * log.newer id + 1) + log.rows.length + 5 := queries_succ ..
        rw [if_pos hfloor, queriesLeft_of_lt hfloor]
        omega
      · have hsucc := queries_succ log (2 * log.newer id)
        rw [if_neg hfloor, queriesLeft_of_not_lt hfloor]
        omega

/-- The log's answer to a query leaves less to do than the query. -/
theorem cost_lt_of_answer {log : Log} {purpose : Purpose} {a : Answer}
    (ha : World.MayAnswer (log.eventsAfter purpose.after) a) (id : Int) :
    (Stage.answered purpose a).cost log id < (Stage.asking purpose).cost log id := by
  cases a with
  | error failure =>
      cases purpose with
      | history previous cursor covered => simp only [Stage.cost, Purpose.cost, historyCost]; omega
      | gap cursor floor delivered highWater =>
          have hnone : ∀ e ∈ ([] : List Event), log.Holds e ∧ delivered < e.id := by simp
          have hle := rest_gap_le cursor floor highWater id hnone
          have hpos := (Purpose.gap cursor floor delivered highWater).rest_pos log (gateAfter id [])
          simp only [Stage.cost]
          omega
  | ok events =>
      have hlen := World.length_of_mayAnswer ha
      cases purpose with
      | history previous cursor covered =>
          simp only [Stage.cost, Purpose.wanted, Purpose.rest, Purpose.cost, historyCost]
          omega
      | gap cursor floor delivered highWater =>
          have hwanted : ∀ e ∈ (Purpose.gap cursor floor delivered highWater).wanted events,
              log.Holds e ∧ delivered < e.id := by
            intro e he
            obtain ⟨hmem, hid⟩ := List.mem_filter.mp he
            simp only [decide_eq_true_eq] at hid
            exact ⟨((World.mem_iff_of_mayAnswer ha).mp hmem).1, hid.1⟩
          have hrest := rest_gap_le cursor floor highWater id hwanted
          have hle : ((Purpose.gap cursor floor delivered highWater).wanted events).length ≤
              events.length := List.length_filter_le _ _
          simp only [Stage.cost]
          omega

end Replay

namespace Tick

/-! ### Ticks -/

/-- The steps of offering so many events to so many connections. -/
def offers (events connections : Nat) : Nat := events * (connections + 1)

/-- The steps from a stage on, with `queried` events at most in the answer to the query and that
many connections registered. -/
def Stage.cost (queried registered : Nat) : Stage → Nat
  | starting => offers queried registered + 2 * registered + 6
  | asking _ => offers queried registered + 2 * registered + 5
  | answered (.ok events) => offers events.length registered + 2 * registered + 4
  | answered (.error _) => 1
  | announcing batch => offers batch.length registered + 2 * registered + 3
  | picking batch unseen live =>
    offers batch.length (unseen.length + live.length) + 2 * unseen.length + live.length + 2
  | broadcasting _ left live targets => offers left.length live.length + targets.length + 1
  | ended _ => 0

theorem offers_mono {m m' n n' : Nat} (hm : m ≤ m') (hn : n ≤ n') : offers m n ≤ offers m' n' :=
  Nat.mul_le_mul hm (Nat.succ_le_succ hn)

theorem offers_succ (m n : Nat) : offers (m + 1) n = offers m n + n + 1 := by
  simp only [offers, Nat.add_mul, Nat.one_mul, Nat.add_assoc]

theorem length_targets_le (left : List Event) (live : List ConnectionId) :
    (targets left live).length ≤ live.length := by
  cases left with
  | nil => exact Nat.zero_le _
  | cons e rest =>
      simp only [targets]
      split
      · exact Nat.le_refl _
      · exact Nat.zero_le _

theorem cost_lt_of_next {h : Hub} {stage stage' : Stage} {checkpoint : Checkpoint}
    {subscriber : ConnectionId → Subscriber} (queried : Nat)
    (hn : Next h stage stage' checkpoint subscriber) :
    stage'.cost queried h.registry.length < stage.cost queried h.registry.length := by
  cases hn with
  | sort => simp only [Stage.cost, (Event.sortById_perm _).length_eq]; omega
  | announce | announceNone => simp only [Stage.cost, List.length_nil, Nat.add_zero]; omega
  | @pick batch c unseen live =>
      have hsame : offers batch.length (unseen.length + (live.length + 1)) =
          offers batch.length (unseen.length + 1 + live.length) :=
        congrArg (offers batch.length) (by omega)
      simp only [Stage.cost, List.length_append, List.length_cons, List.length_nil, Nat.zero_add,
        hsame]
      omega
  | @passOver batch c unseen live =>
      have hmono : offers batch.length (unseen.length + live.length) ≤
          offers batch.length (unseen.length + 1 + live.length) :=
        offers_mono (Nat.le_refl _) (by omega)
      simp only [Stage.cost, List.length_cons]
      omega
  | @fanOut batch live =>
      have hle := length_targets_le batch live
      simp only [Stage.cost, List.length_nil, Nat.zero_add]
      omega
  | @mark batch e rest live =>
      have hle := length_targets_le rest live
      simp only [Stage.cost, List.length_cons, List.length_nil, offers_succ]
      omega
  | _ => simp only [Stage.cost, List.length_cons]; omega

theorem cost_lt_of_answer {log : Log} {after : Instant} {a : Answer}
    (ha : World.MayAnswer (log.eventsAfter after) a) (registered : Nat) :
    (Stage.answered a).cost log.rows.length registered <
      (Stage.asking after).cost log.rows.length registered := by
  cases a with
  | error failure => simp only [Stage.cost]; omega
  | ok events =>
      have hmono := offers_mono (World.length_of_mayAnswer ha) (Nat.le_refl registered)
      simp only [Stage.cost]
      omega

end Tick

theorem Hub.answer_subscriber (h : Hub) (k : TaskId) (a : Answer) :
    (h.answer k a).subscriber = h.subscriber := by
  simp only [answer]
  repeat' split
  all_goals rfl

namespace World

/-! ### All tasks -/

/-- The steps that task `k` has before it at most. -/
def taskCost (w : World) (k : TaskId) : Nat :=
  match w.hub.task k with
  | .replay r => r.stage.cost w.log (w.hub.subscriber r.connection).lastEventId
  | .tick stage => stage.cost w.log.rows.length w.hub.registry.length

/-- The steps that all tasks have before them at most. -/
def cost (w : World) : Nat := ((List.range w.hub.started).map w.taskCost).sum

theorem taskCost_of_replay {w : World} {k : TaskId} {r : Replay} (h : w.hub.task k = .replay r) :
    w.taskCost k = r.stage.cost w.log (w.hub.subscriber r.connection).lastEventId := by
  simp only [taskCost, h]

theorem taskCost_of_tick {w : World} {k : TaskId} {stage : Tick.Stage}
    (h : w.hub.task k = .tick stage) :
    w.taskCost k = stage.cost w.log.rows.length w.hub.registry.length := by
  simp only [taskCost, h]

theorem taskCost_of_isEnded {w : World} {k : TaskId} (h : (w.hub.task k).isEnded = true) :
    w.taskCost k = 0 := by
  rcases Task.eq_of_isEnded h with ⟨r, ht⟩ | ⟨outcome, ht⟩
  · exact taskCost_of_replay ht
  · exact taskCost_of_tick ht

section Step

variable {w w' : World} {m : Move} {k : TaskId}

/-- Steps of a task: its own, and the answers to its queries. -/
inductive Steps (w : World) (k : TaskId) : Move → Prop
  | advance (hcan : w.hub.canAdvance k = true) : Steps w k (.advance k)
  | answer {a} (ha : w.Answers k a) : Steps w k (.answer k a)

theorem Steps.possible (h : w.Steps k m) : w.Possible m := by
  cases h with
  | advance => trivial
  | answer ha => exact ha

theorem Steps.not_isEnded (h : w.Steps k m) : (w.hub.task k).isEnded = false := by
  refine Bool.eq_false_iff.mpr fun hended => ?_
  cases h with
  | advance hcan =>
      rcases Task.eq_of_isEnded hended with ⟨r, ht⟩ | ⟨outcome, ht⟩ <;>
        simp [Hub.canAdvance, Hub.isCancelled, Hub.isServed, Replay.Stage.isWaiting, ht] at hcan
  | answer ha =>
      obtain ⟨cursor, hq, -⟩ := ha
      rcases Task.eq_of_isEnded hended with ⟨r, ht⟩ | ⟨outcome, ht⟩ <;>
        (rw [ht] at hq; cases hq)

/-- What a step of a task leaves as it is. -/
structure Keeps (w w' : World) : Prop where
  log : w'.log = w.log
  registry : w'.hub.registry = w.hub.registry
  opened : w'.hub.opened = w.hub.opened
  started : w'.hub.started = w.hub.started

theorem Steps.keeps (h : w.Steps k m) : Keeps w (w.apply m) := by
  cases h with
  | advance hcan =>
      cases ht : w.hub.task k with
      | replay r =>
          obtain ⟨stage, s, -, hm, -⟩ := Hub.advance_replay ht hcan
          exact ⟨rfl, hm.registry, hm.opened, hm.started⟩
      | tick stage =>
          obtain ⟨stage', checkpoint, subscriber, -, heq⟩ := Hub.advance_tick ht hcan
          refine ⟨rfl, ?_, ?_, ?_⟩ <;> simp only [apply, onHub, heq] <;> rfl
  | answer ha =>
      refine ⟨rfl, ?_, ?_, ?_⟩ <;> simp only [apply, onHub, Hub.answer] <;> repeat' split
      all_goals rfl

/-- Only these moves change which connections are registered. -/
theorem registry_apply (hm : w.Possible m) :
    (w.apply m).hub.registry = w.hub.registry ∨
    (∃ c, (m = .register c ∨ m = .connect ∧ c = w.hub.opened) ∧
      (w.apply m).hub.registry = (w.hub.register c).registry) ∨
    ∃ c, (w.apply m).hub.registry = w.hub.registry.filter (· ≠ c) := by
  cases m with
  | append draft => simp only [apply, withLog]; split <;> exact .inl rfl
  | insertRow id row => simp only [apply, withLog]; split <;> exact .inl rfl
  | connect => exact .inr (.inl ⟨_, .inr ⟨rfl, rfl⟩, rfl⟩)
  | register c => exact .inr (.inl ⟨c, .inl rfl, rfl⟩)
  | deregister c => exact .inr (.inr ⟨c, rfl⟩)
  | disconnect c => exact .inr (.inr ⟨c, rfl⟩)
  | advance k =>
      cases hcan : w.hub.canAdvance k with
      | false => exact .inl (by rw [apply_advance_of_not_canAdvance hcan])
      | true => exact .inl (Steps.advance hcan).keeps.registry
  | answer k a => exact .inl (Steps.answer hm).keeps.registry
  | _ => exact .inl rfl

theorem Steps.task_eq (h : w.Steps k m) (hw : w.hub.Tidy) {j : TaskId} (hj : j ≠ k) :
    (w.apply m).hub.task j = w.hub.task j := by
  have hc := (effect hw h.possible).came j
  generalize (w.apply m).hub.task j = t at hc
  cases h with
  | advance =>
      cases hc with
      | stays _ ht => exact ht.symm
      | movesReplay | movesTick => exact absurd rfl hj
  | answer =>
      cases hc with
      | stays _ ht => exact ht.symm
      | answersReplay | answersTick => exact absurd rfl hj

/-- A step of one task leaves to the others what they have before them. -/
theorem Steps.taskCost_eq (h : w.Steps k m) (hw : w.hub.Tidy) (hl : w.Locked) (hp : w.Withheld)
    {j : TaskId} (hj : j ≠ k) : (w.apply m).taskCost j = w.taskCost j := by
  have hkeeps := h.keeps
  cases ht : w.hub.task j with
  | replay r =>
      have ht' := (h.task_eq hw hj).trans ht
      rw [taskCost_of_replay ht, taskCost_of_replay ht', hkeeps.log]
      cases hb : r.stage.hasBegun with
      | false => exact Replay.Stage.cost_of_not_hasBegun hb ..
      | true =>
          rcases touches_of_hasBegun hl hp ht hb (effect hw h.possible) with
            ha | ⟨stage, hm, -, -⟩
          · rw [ha.lastEventId]
          · cases h with
            | advance => cases hm; exact absurd rfl hj
            | answer => cases hm
  | tick stage =>
      rw [taskCost_of_tick ht, taskCost_of_tick ((h.task_eq hw hj).trans ht), hkeeps.log,
        hkeeps.registry]

theorem Steps.taskCost_lt (h : w.Steps k m) : (w.apply m).taskCost k < w.taskCost k := by
  have hkeeps := h.keeps
  cases h with
  | advance hcan =>
      cases ht : w.hub.task k with
      | replay r =>
          obtain ⟨stage, hn, ht', -⟩ := next_of_canAdvance ht hcan
          rw [taskCost_of_replay ht, taskCost_of_replay ht', hkeeps.log]
          exact Replay.cost_lt_of_next w.log hn
      | tick stage =>
          obtain ⟨stage', checkpoint, subscriber, hn, heq⟩ := Hub.advance_tick ht hcan
          have ht' : (w.apply (.advance k)).hub.task k = .tick stage' := by
            change (w.hub.advance k).task k = _
            rw [heq]
            exact update_self ..
          rw [taskCost_of_tick ht, taskCost_of_tick ht', hkeeps.log, hkeeps.registry]
          exact Tick.cost_lt_of_next _ hn
  | @answer a ha =>
      have hc := (effect_answer ha).came k
      generalize ht' : (w.onHub (·.answer k a)).hub.task k = t at hc
      change (w.onHub (·.answer k a)).taskCost k < w.taskCost k
      cases hc with
      | stays hne => exact absurd rfl hne
      | @answersReplay r purpose _ ht hs hmay =>
          have hsubscriber := w.hub.answer_subscriber k a
          rw [taskCost_of_replay ht, taskCost_of_replay ht', hs]
          simp only [onHub, hsubscriber]
          exact Replay.cost_lt_of_answer hmay _
      | @answersTick after _ ht hmay =>
          have hregistry : (w.hub.answer k a).registry = w.hub.registry := hkeeps.registry
          rw [taskCost_of_tick ht, taskCost_of_tick ht']
          simp only [onHub, hregistry]
          exact Tick.cost_lt_of_answer hmay _

/-- Every step of a task brings all tasks together nearer to their end. -/
theorem Steps.cost_lt (h : w.Steps k m) (hw : w.hub.Tidy) (hl : w.Locked) (hp : w.Withheld) :
    (w.apply m).cost < w.cost := by
  have hk : k < w.hub.started := hw.lt_started h.not_isEnded
  rw [cost, cost, h.keeps.started]
  refine List.sum_lt_sum _ _ (fun j _ => ?_) ⟨k, List.mem_range.mpr hk, h.taskCost_lt⟩
  by_cases hj : j = k
  · rw [hj]
    exact Nat.le_of_lt h.taskCost_lt
  · exact Nat.le_of_eq (h.taskCost_eq hw hl hp hj)

end Step

end World

end EventStream
