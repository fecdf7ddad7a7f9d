import EventStream.Proofs.Log.Stored
import EventStream.Proofs.Polling.Marks
import EventStream.Proofs.World.Cost

/-! Ticks over a log that can be read. A tick comes to its end, and its batch is behind the cursor
then, unless an event of the last microsecond has left the cursor no instant to move to. -/

namespace EventStream

/-! ### The last microsecond -/

namespace Instant

theorem next?_isSome_iff {t : Instant} (ht : t.IsWhole) :
    t.next?.isSome = true ↔ t.micros < maxSecond * 1000000 + 999999 := by
  have hrange := t.inRange
  simp only [InRange, minSecond, maxSecond] at hrange
  simp only [IsWhole] at ht
  simp only [next?, ht.1, ite_true, micros, maxSecond]
  split <;> simp only [ofUnix?_isSome_iff, InRange, minSecond, maxSecond] <;> omega

end Instant

namespace Log

variable {log : Log} {after cursor : Instant} {es : List Event}

theorem exists_event_of_events_eq_ok {rows : List Row} (h : events rows = .ok es) {r : Row}
    (hr : r ∈ rows) : ∃ e ∈ es, r.event = .ok e := by
  induction rows generalizing es with
  | nil => cases hr
  | cons x rows ih =>
      simp only [events, bind, Except.bind] at h
      split at h
      · cases h
      · next d hd =>
        split at h
        · cases h
        · next ds hds =>
          cases h
          rcases List.mem_cons.mp hr with rfl | hr
          · exact ⟨d, List.mem_cons_self, hd⟩
          · obtain ⟨e, he, hre⟩ := ih hds hr
            exact ⟨e, List.mem_cons_of_mem _ he, hre⟩

theorem exists_eventsAfter
    (h : ∀ r ∈ log.rows, after.micros < r.createdAt → ∃ e, r.event = .ok e) :
    ∃ es, log.eventsAfter after = .ok es := by
  cases hes : log.eventsAfter after with
  | ok es => exact ⟨es, rfl⟩
  | error error =>
      obtain ⟨r, hr, he⟩ := exists_of_events_eq_error hes
      obtain ⟨hr, hlt⟩ := List.mem_filter.mp hr
      obtain ⟨e, he'⟩ := h r hr (of_decide_eq_true hlt)
      cases he.symm.trans he'

/-- Where the cursor stands when the events found after it have been dealt with: just past the
latest of them. -/
def IsPast (after : Instant) (es : List Event) (cursor : Instant) : Prop :=
  (es = [] ∧ cursor = after) ∨
    ∃ d ∈ es, (∀ e ∈ es, e.createdAt.micros ≤ d.createdAt.micros) ∧
      d.createdAt.next? = some cursor

theorem IsPast.le (h : IsPast after es cursor) (hes : log.eventsAfter after = .ok es)
    {e : Event} (he : e ∈ es) : e.createdAt ≤ cursor := by
  rcases h with ⟨rfl, -⟩ | ⟨d, hd, hle, hnext⟩
  · cases he
  · have hwhole (x : Event) (hx : x ∈ es) := ((mem_of_eventsAfter_eq_ok hes).mp hx).1.isWhole
    obtain ⟨hcursor, hmicros⟩ := Instant.next?_eq_some (hwhole d hd) hnext
    have := hle e he
    exact (Instant.le_iff_micros_le (hwhole e he) hcursor).mpr (by omega)

/-- There is nothing more to be found. -/
theorem IsPast.eventsAfter_eq (h : IsPast after es cursor)
    (hes : log.eventsAfter after = .ok es) : log.eventsAfter cursor = .ok [] := by
  rcases h with ⟨rfl, rfl⟩ | ⟨d, hd, hle, hnext⟩
  · exact hes
  · obtain ⟨hheld, hlt⟩ := (mem_of_eventsAfter_eq_ok hes).mp hd
    obtain ⟨-, hmicros⟩ := Instant.next?_eq_some hheld.isWhole hnext
    have hnone : log.rows.filter (cursor.micros < ·.createdAt) = [] := by
      refine List.filter_eq_nil_iff.mpr fun r hr hcursor => ?_
      have hcursor := of_decide_eq_true hcursor
      have hafter : after.micros < r.createdAt := by have := hle d hd; omega
      obtain ⟨e, he, hre⟩ := exists_event_of_events_eq_ok hes
        (List.mem_filter.mpr ⟨hr, decide_eq_true hafter⟩)
      have hcreated := (Row.event_eq_ok hre).2.2
      have := hle e he
      omega
    rw [eventsAfter, hnone, events]

end Log

namespace Tick

/-! ### One tick -/

/-- How far a tick has come with the events `es`, which it finds after the instant `after`. -/
def Stage.DealsWith (after : Instant) (es : List Event) (cursor : Instant) : Stage → Prop
  | starting => cursor = after
  | asking asked => cursor = after ∧ asked = after
  | answered (.ok events) => cursor = after ∧ events.Perm es
  | announcing batch => cursor = after ∧ batch.Perm es
  | picking batch _ _ => cursor = after ∧ batch.Perm es
  | broadcasting batch _ _ _ => cursor = after ∧ batch.Perm es
  | ended (.polled count) => count = es.length ∧ Log.IsPast after es cursor
  | ended .overflowed => ∃ e ∈ es, e.createdAt.next? = none
  | _ => False

theorem dealsWith_of_next {h : Hub} {stage stage' : Stage} {checkpoint : Checkpoint}
    {subscriber : ConnectionId → Subscriber} {log : Log} {after : Instant} {es : List Event}
    (hes : log.eventsAfter after = .ok es)
    (hn : Next h stage stage' checkpoint subscriber)
    (hd : stage.DealsWith after es h.checkpoint.after) :
    stage'.DealsWith after es checkpoint.after := by
  cases hn with
  | ask => exact ⟨hd, hd⟩
  | fail => exact hd.elim
  | idle =>
      obtain ⟨hafter, hperm⟩ := hd
      cases hperm.nil_eq
      exact ⟨rfl, .inl ⟨rfl, hafter⟩⟩
  | sort => exact ⟨hd.1, (Event.sortById_perm _).trans hd.2⟩
  | closeNone hnone =>
      obtain ⟨hafter, hperm⟩ := hd
      cases Hub.newest?_eq_none hnone
      cases hperm.nil_eq
      exact ⟨rfl, .inl ⟨rfl, hafter⟩⟩
  | @close batch _ _ newest next hnewest hnext =>
      obtain ⟨hafter, hperm⟩ := hd
      obtain ⟨⟨d, hd, rfl⟩, hle⟩ := Hub.newest?_eq_some hnewest
      have hmem (e : Event) (he : e ∈ batch) :=
        (Log.mem_of_eventsAfter_eq_ok hes).mp (hperm.mem_iff.mp he)
      obtain ⟨hwhole, hmicros⟩ := Instant.next?_eq_some (hmem d hd).1.isWhole hnext
      have hlt : h.checkpoint.after.micros < next.micros := by
        have := (hmem d hd).2
        rw [hafter]
        omega
      refine ⟨hperm.length_eq, .inr ⟨d, hperm.mem_iff.mp hd, fun e he => ?_, ?_⟩⟩
      · have he := hperm.mem_iff.mpr he
        exact (Instant.le_iff_micros_le (hmem e he).1.isWhole (hmem d hd).1.isWhole).mp (hle e he)
      · rw [Checkpoint.advanceTo_after_of_lt hwhole hlt]
        exact hnext
  | @overflow batch _ _ newest hnewest hnext =>
      obtain ⟨⟨d, hmem, rfl⟩, -⟩ := Hub.newest?_eq_some hnewest
      exact ⟨d, hd.2.mem_iff.mp hmem, hnext⟩
  | _ => exact hd

end Tick

namespace World

/-- Something is written to the log. -/
def Move.isWrite : Move → Bool
  | append _ => true
  | insertRow _ _ => true
  | deleteRow _ => true
  | _ => false

/-- Whatever goes on beside the tick `k`, nothing is written to the log and nobody else moves the
cursor; and the tick's query does not fail. -/
structure Beside (k : TaskId) (w : World) (m : Move) : Prop where
  possible : w.Possible m
  unwritten : m.isWrite = false
  cursor : m.advanced? ≠ some k →
    (w.apply m).hub.checkpoint.after = w.hub.checkpoint.after
  succeeds : m.answered? = some k → m.isFailure = false

instance (k : TaskId) (w : World) (m : Move) : Decidable (w.Beside k m) :=
  decidable_of_iff (w.Possible m ∧ m.isWrite = false ∧
      (m.advanced? ≠ some k → (w.apply m).hub.checkpoint.after = w.hub.checkpoint.after) ∧
      (m.answered? = some k → m.isFailure = false))
    ⟨fun ⟨hp, hw, hc, hs⟩ => ⟨hp, hw, hc, hs⟩,
      fun h => ⟨h.possible, h.unwritten, h.cursor, h.succeeds⟩⟩

/-- A tick that is started here comes to its end, and when it has, with whatever else has gone on
beside it, its outcome and the world are such. -/
def Ticks (w : World) (result : Tick.Outcome → World → Prop) : Prop :=
  ∀ past v, Run (Beside w.hub.started) (w.apply .startTick) past v →
    (∃ past' v', Run (fun u m => u.Steps w.hub.started m ∧ u.Beside w.hub.started m) v past' v' ∧
      (v'.hub.task w.hub.started).isEnded = true) ∧
    ∀ outcome, v.hub.task w.hub.started = .tick (.ended outcome) → result outcome v

theorem Move.eq_advance {k : TaskId} {m : Move} (h : m.advanced? = some k) : m = .advance k := by
  cases m <;> cases h
  rfl

variable {k : TaskId} {w : World} {m : Move} {log : Log} {after : Instant} {es : List Event}

theorem log_apply (hm : m.isWrite = false) : (w.apply m).log = w.log := by
  cases m <;> first | rfl | cases hm

/-- The tick `k` deals with the events, which the log has after the instant. -/
structure Processes (k : TaskId) (log : Log) (after : Instant) (es : List Event) (w : World) :
    Prop where
  tidy : w.hub.Tidy
  started : k < w.hub.started
  found : log.eventsAfter after = .ok es
  log : w.log = log
  stage : ∃ stage, w.hub.task k = .tick stage ∧
    stage.DealsWith after es w.hub.checkpoint.after

/-- The tick goes on, or others do and it may be answered. -/
theorem Processes.step (h : Processes k log after es w) (hm : w.Beside k m) :
    Processes k log after es (w.apply m) := by
  have heffect := effect h.tidy hm.possible
  refine ⟨tidy_apply h.tidy hm.possible, Nat.lt_of_lt_of_le h.started heffect.started_le,
    h.found, (log_apply hm.unwritten).trans h.log, ?_⟩
  obtain ⟨stage, ht, hd⟩ := h.stage
  by_cases hown : m = .advance k
  · subst hown
    cases hcan : w.hub.canAdvance k with
    | false =>
        rw [apply_advance_of_not_canAdvance hcan]
        exact ⟨stage, ht, hd⟩
    | true =>
        obtain ⟨stage', checkpoint, subscriber, hn, heq⟩ := Hub.advance_tick ht hcan
        refine ⟨stage', ?_, ?_⟩
        · simp only [apply, onHub, heq]
          exact update_self ..
        · simp only [apply, onHub, heq]
          exact Tick.dealsWith_of_next h.found hn hd
  · have hcursor := hm.cursor fun hadvanced => hown (Move.eq_advance hadvanced)
    rw [hcursor]
    have hcame := heffect.came k
    generalize (w.apply m).hub.task k = t at hcame
    cases hcame with
    | stays _ hsame => exact ⟨stage, hsame.symm.trans ht, hd⟩
    | subscribes hk => exact absurd hk (Nat.ne_of_lt h.started)
    | startsTick hk => exact absurd hk (Nat.ne_of_lt h.started)
    | answersReplay hr => cases ht.symm.trans hr
    | @answersTick _ a hask hmay =>
        cases ht.symm.trans hask
        obtain ⟨hafter, rfl⟩ := hd
        cases a with
        | error failure => cases hm.succeeds rfl
        | ok events =>
            rw [h.log, h.found] at hmay
            exact ⟨_, rfl, hafter, hmay⟩
    | movesReplay => exact absurd rfl hown
    | movesTick => exact absurd rfl hown

theorem processes_startTick (hw : w.hub.Tidy)
    (hes : w.log.eventsAfter w.hub.checkpoint.after = .ok es) :
    Processes w.hub.started w.log w.hub.checkpoint.after es (w.apply .startTick) where
  tidy := tidy_apply hw trivial
  started := Nat.lt_succ_self _
  log := rfl
  found := hes
  stage := ⟨.starting, update_self .., rfl⟩

theorem Processes.of_run {start : World} {past : List (World × Move)}
    (h : Processes k log after es start) (run : Run (Beside k) start past w) :
    Processes k log after es w := by
  induction run with
  | nil => exact h
  | cons _ hm ih => exact ih.step hm

/-- A step of the tick's own is there until it has ended. -/
theorem Processes.exists_step (h : Processes k log after es w)
    (hended : (w.hub.task k).isEnded ≠ true) : ∃ m, w.Steps k m ∧ w.Beside k m := by
  obtain ⟨stage, ht, hd⟩ := h.stage
  by_cases hask : ∃ asked, stage = .asking asked
  · obtain ⟨asked, rfl⟩ := hask
    obtain ⟨-, rfl⟩ := hd
    have hanswers : w.Answers k (.ok es) := by
      refine ⟨asked, by rw [ht]; rfl, ?_⟩
      rw [h.log, h.found]
      exact List.Perm.refl es
    refine ⟨.answer k (.ok es), .answer hanswers, hanswers, rfl, fun _ => ?_, fun _ => rfl⟩
    simp only [apply, onHub, Hub.answer, ht]
    rfl
  · have hcan : w.hub.canAdvance k = true := by
      simp only [Hub.canAdvance, ht]
      cases stage with
      | asking asked => exact absurd ⟨asked, rfl⟩ hask
      | ended outcome => rw [ht] at hended; exact absurd rfl hended
      | _ => rfl
    refine ⟨.advance k, .advance hcan, trivial, rfl, fun hne => absurd rfl hne, fun hanswered => ?_⟩
    cases hanswered

theorem Processes.exists_run (h : Processes k log after es w) :
    ∃ past w', Run (fun u m => u.Steps k m ∧ u.Beside k m) w past w' ∧
      (w'.hub.task k).isEnded = true := by
  have step : ∀ v, Processes k log after es v → ¬ (v.hub.task k).isEnded = true →
      ∃ m, (v.Steps k m ∧ v.Beside k m) ∧ Processes k log after es (v.apply m) ∧
        (v.apply m).taskCost k < v.taskCost k := by
    intro v hv hended
    obtain ⟨m, hsteps, hbeside⟩ := hv.exists_step hended
    exact ⟨m, ⟨hsteps, hbeside⟩, hv.step hbeside, hsteps.taskCost_lt⟩
  obtain ⟨past, w', run, -, hended⟩ := exists_run_of_decreasing (Processes k log after es)
    (fun v => (v.hub.task k).isEnded = true) (taskCost · k) step h
  exact ⟨past, w', run, hended⟩

/-! ### What ticks come to -/

/-- A tick has only the outcomes that go with what the log has for it. -/
theorem ticks_of_forall (hw : w.hub.Tidy)
    (hes : w.log.eventsAfter w.hub.checkpoint.after = .ok es)
    {result : Tick.Outcome → World → Prop}
    (h : ∀ v outcome, v.hub.Tidy → v.log = w.log →
      (Tick.Stage.ended outcome).DealsWith w.hub.checkpoint.after es v.hub.checkpoint.after →
      result outcome v) : w.Ticks result := by
  intro past v run
  have hprocesses := (processes_startTick hw hes).of_run run
  refine ⟨hprocesses.exists_run, fun outcome hk => ?_⟩
  obtain ⟨stage, ht, hd⟩ := hprocesses.stage
  cases ht.symm.trans hk
  exact h v outcome hprocesses.tidy hprocesses.log hd

/-- And it has one of them. -/
theorem Ticks.exists_outcome {result : Tick.Outcome → World → Prop} (h : w.Ticks result)
    (hw : w.hub.Tidy) (hes : w.log.eventsAfter w.hub.checkpoint.after = .ok es) :
    ∃ v outcome, result outcome v ∧
      (Tick.Stage.ended outcome).DealsWith w.hub.checkpoint.after es v.hub.checkpoint.after := by
  obtain ⟨past, v, run, hended⟩ := (h [] _ .nil).1
  have hbeside : Run (Beside w.hub.started) (w.apply .startTick) past v :=
    run.mono fun _ _ hm => hm.2
  obtain ⟨stage, ht, hd⟩ := ((processes_startTick hw hes).of_run hbeside).stage
  rw [ht] at hended
  cases stage with
  | ended outcome => exact ⟨v, outcome, (h past v hbeside).2 outcome ht, hd⟩
  | _ => cases hended

theorem isSome_of_isPast {cursor : Instant} (h : Log.IsPast after es cursor)
    (hes : log.eventsAfter after = .ok es) : ∀ e ∈ es, e.createdAt.next?.isSome = true := by
  intro e he
  rcases h with ⟨rfl, -⟩ | ⟨d, hd, hle, hnext⟩
  · cases he
  · have hwhole (x : Event) (hx : x ∈ es) := ((Log.mem_of_eventsAfter_eq_ok hes).mp hx).1.isWhole
    have hlast := (Instant.next?_isSome_iff (hwhole d hd)).mp (by rw [hnext]; rfl)
    exact (Instant.next?_isSome_iff (hwhole e he)).mpr (Int.lt_of_le_of_lt (hle e he) hlast)

/-- A tick over rows that can be read ends with the size of its batch, leaves the cursor at or
after every event of it and nothing for a further tick, if there is an instant after each of
the events; and only then. -/
theorem ticks_complete_iff {capacity replays : Nat} {start : Instant} {past : List (World × Move)}
    (run : Run Possible (.new capacity replays start) past w)
    (hread : ∀ r ∈ w.log.rows, w.hub.checkpoint.after.micros < r.createdAt →
      ∃ e, r.event = .ok e) :
    ∃ es, w.log.eventsAfter w.hub.checkpoint.after = .ok es ∧
      ((w.Ticks fun outcome v => outcome = .polled es.length ∧
          (∀ e ∈ es, e.createdAt ≤ v.hub.checkpoint.after) ∧
          v.Ticks fun outcome _ => outcome = .polled 0) ↔
        ∀ e ∈ es, e.createdAt.next?.isSome = true) := by
  have hw := tidy_of_run run
  obtain ⟨es, hes⟩ := Log.exists_eventsAfter hread
  refine ⟨es, hes, fun h => ?_, fun hnext => ?_⟩
  · obtain ⟨v, outcome, ⟨rfl, -, -⟩, -, hpast⟩ := h.exists_outcome hw hes
    exact isSome_of_isPast hpast hes
  · refine ticks_of_forall hw hes fun v outcome hv hlog hdeals => ?_
    cases outcome with
    | failed failure => exact hdeals.elim
    | overflowed =>
        obtain ⟨e, he, hnone⟩ := hdeals
        have hsome := hnext e he
        rw [hnone] at hsome
        cases hsome
    | polled count =>
        obtain ⟨rfl, hpast⟩ := hdeals
        refine ⟨rfl, fun e he => hpast.le hes he, ?_⟩
        have hrest : v.log.eventsAfter v.hub.checkpoint.after = .ok [] := by
          rw [hlog]
          exact hpast.eventsAfter_eq hes
        refine ticks_of_forall hv hrest fun u outcome _ _ hdeals => ?_
        cases outcome with
        | failed failure => exact hdeals.elim
        | overflowed =>
            obtain ⟨e, he, -⟩ := hdeals
            cases he
        | polled count => exact congrArg Tick.Outcome.polled hdeals.1

/-- A policy created one microsecond before the last that there is. -/
def beforeLastMicrosecond : Draft :=
  .stamped .policyCreated ⟨Instant.maxSecond, 999998000, by decide⟩

/-- The cursor moves to the last microsecond. -/
theorem ticks_complete_beforeLastMicrosecond :
    let w := (new 8 8 .epoch).applyAll [.append beforeLastMicrosecond, .append (policyAt 1000)]
    w.Ticks fun outcome v => outcome = .polled 2 ∧
      beforeLastMicrosecond.createdAt ≤ v.hub.checkpoint.after ∧
      v.Ticks fun outcome _ => outcome = .polled 0 := by
  intro w
  have follows : Follows Possible (new 8 8 .epoch)
    [.append beforeLastMicrosecond, .append (policyAt 1000)] := by decide +kernel
  have hread : ∀ r ∈ w.log.rows, r.event.toOption.isSome = true := by decide +kernel
  have hfound : (w.log.eventsAfter w.hub.checkpoint.after).toOption =
      some [beforeLastMicrosecond.event 1, (policyAt 1000).event 2] := by decide +kernel
  obtain ⟨es, hes, hiff⟩ := ticks_complete_iff (follows.run .nil) fun r hr _ => by
    have hsome := hread r hr
    cases he : r.event with
    | ok e => exact ⟨e, rfl⟩
    | error error => rw [he] at hsome; cases hsome
  rw [hes] at hfound
  cases hfound
  have hticks := hiff.mpr (by decide +kernel)
  intro past v run
  refine ⟨(hticks past v run).1, fun outcome hk => ?_⟩
  obtain ⟨houtcome, hle, hnext⟩ := (hticks past v run).2 outcome hk
  exact ⟨houtcome, hle _ List.mem_cons_self, hnext⟩

/-- An event in the last microsecond can be read, is broadcast and lets the tick overflow. -/
theorem overflowed_of_inLastMicrosecond :
    let w := (new 8 8 .epoch).applyAll [.append inLastMicrosecond]
    (w.log.eventsAfter w.hub.checkpoint.after).toOption = some [inLastMicrosecond.event 1] ∧
      (∃ past v, Run (Beside 0) (w.apply .startTick) past v ∧
        v.hub.task 0 = .tick (.ended .overflowed) ∧ v.hub.checkpoint = ⟨.epoch, 1, 1⟩) ∧
      ¬ w.Ticks fun outcome _ => outcome = .polled 1 := by
  intro w
  have follows : Follows (Beside 0) (w.apply .startTick)
      ([.advance 0, .answer 0 (.ok [inLastMicrosecond.event 1])] ++
        List.replicate 5 (.advance 0)) := by
    decide +kernel
  refine ⟨by decide +kernel, ⟨_, _, follows.run .nil, rfl, by decide +kernel⟩, fun h => ?_⟩
  cases (h _ _ (follows.run .nil)).2 .overflowed rfl

end World

end EventStream
