import EventStream.Proofs.Delivery.History
import EventStream.Proofs.Delivery.Reading
import EventStream.Proofs.Delivery.Reconcile

/-! What a replay's history leaves behind the mark to which it raises the gate: what had been
announced before the query, or the greatest id in the answer. -/

namespace EventStream

namespace World

/-! ### What is behind the mark -/

/-- What the history of replay `k` has come to in `w`. In `v₀` it read what had been announced, in
`v` its query was answered with `es`; of these it has queued `new`, and has said nothing else. -/
structure Recounted (u : World) (past : List (World × Move)) (w : World) (k : TaskId) (r : Replay)
    (v₀ v : World) (es : List Event) (new : List Message) : Prop where
  read : (v₀, .advance k) ∈ past ∧ v₀.hub.task k = .replay r
  found : (v, .answer k (.ok es)) ∈ past
  said : SaysEvents past k r.connection
  encoded : new = Replay.messagesPast (u.hub.subscriber r.connection).lastEventId es
  queued : (w.hub.subscriber r.connection).messages =
    (u.hub.subscriber r.connection).messages ++ new
  ascending : new.Pairwise (·.id < ·.id)
  gate : (w.hub.subscriber r.connection).lastEventId =
    max (Replay.gateAfter (u.hub.subscriber r.connection).lastEventId es)
      v₀.hub.checkpoint.announced

theorem recounted_of_run {capacity replays : Nat} {start : Instant}
    {earlier past : List (World × Move)} {k : TaskId} {r : Replay}
    {previous : Subscriber.Previous} {cursor after floor : Instant} {u w : World}
    (before : Run Steady (.new capacity replays start) earlier u)
    (hk : u.hub.task k = .replay r) (hr : r.stage = .opening previous cursor)
    (run : Run (Orderly k) u past w)
    (hs : w.hub.task k = .replay { r with stage := .settling after floor }) :
    ∃ v₀ v es, Recounted u past w k r v₀ v es
        (Replay.messagesPast (u.hub.subscriber r.connection).lastEventId es) ∧
      MayAnswer (v.log.eventsAfter cursor) (.ok es) ∧
      v₀.hub.checkpoint.announced ≤ v.log.lastId := by
  rcases reading_of_run before hk hr run with ⟨stage, hpast, hstage⟩ | ⟨hsaid, stage, hk', hrecalls⟩
  · cases hs.symm.trans hpast
    cases hstage
  · cases hs.symm.trans hk'
    obtain ⟨covered, es, ⟨v₀, hread, hr₀, rfl⟩, ⟨v, hfound, hmay, hcovered, hascending⟩,
      hmessages, hgate⟩ := hrecalls
    exact ⟨v₀, v, es, ⟨⟨hread, hr₀⟩, hfound, hsaid, rfl, hmessages,
      Replay.messagesPast_ascending hascending, hgate⟩, hmay, hcovered⟩

/-- Past the gate `id`, `new` is all that the log had after the cursor when it was asked; and what
it has by now, up to the mark, is there or makes no message or does not come after the cursor. -/
structure OwesNothing (asked log : Log) (cursor : Instant) (id mark : Int) (new : List Message) :
    Prop where
  exact : ∀ m, m ∈ new ↔
    ∃ e, asked.Holds e ∧ id < e.id ∧ cursor < e.createdAt ∧ Message.ofEvent? e = some m
  skipped : ∀ e, log.Holds e → id < e.id → e.id ≤ mark →
    (∃ m ∈ new, Message.ofEvent? e = some m) ∨ Message.ofEvent? e = none ∨ e.createdAt ≤ cursor

/-- Of the events past the gate that make a message, the log compares those to the cursor as the
instants compare. -/
def ComparesAlike (log : Log) (cursor : Instant) (id : Int) : Prop :=
  ∀ e, log.Holds e → id < e.id → (Message.ofEvent? e).isSome = true → cursor < e.createdAt →
    cursor.micros < e.createdAt.micros

/-- Only a cursor in a leap second is compared otherwise. -/
theorem comparesAlike_of_nano_lt {cursor : Instant} (h : cursor.nano < 1000000000) (log : Log)
    (id : Int) : ComparesAlike log cursor id :=
  fun _ he _ _ hlt => Instant.micros_lt_of_lt h he.isWhole hlt

section Answered

variable {asked log : Log} {cursor : Instant} {id covered : Int} {es : List Event}

/-- Up to the mark the log has no more than when it was asked, since what had been announced before
was in it by then. -/
theorem holds_of_le_mark (hmay : MayAnswer (asked.eventsAfter cursor) (.ok es))
    (hgrows : asked.Grows log) (hcovered : covered ≤ asked.lastId) {e : Event} (he : log.Holds e)
    (hid : id < e.id) (hmark : e.id ≤ max (Replay.gateAfter id es) covered) : asked.Holds e := by
  have hold : e.id ≤ asked.lastId := by
    rcases Replay.gateAfter_mem id es with heq | ⟨d, hd, heq⟩
    · omega
    · have hle := ((mem_iff_of_mayAnswer hmay).mp hd).1.id_le
      omega
  exact (hgrows.holds_or_lt he).resolve_right (Int.not_lt.mpr hold)

theorem owesNothing_iff (hmay : MayAnswer (asked.eventsAfter cursor) (.ok es))
    (hgrows : asked.Grows log) (hcovered : covered ≤ asked.lastId) :
    OwesNothing asked log cursor id (max (Replay.gateAfter id es) covered)
      (Replay.messagesPast id es) ↔ ComparesAlike asked cursor id := by
  have hmem (e : Event) := mem_iff_of_mayAnswer (e := e) hmay
  constructor
  · intro h e he hid hsome hlt
    obtain ⟨m, hm⟩ := Option.isSome_iff_exists.mp hsome
    obtain ⟨d, hd, -, hdm⟩ := Replay.mem_messagesPast.mp ((h.exact m).mpr ⟨e, he, hid, hlt, hm⟩)
    obtain ⟨hheld, hafter⟩ := (hmem d).mp hd
    have hsame : d.id = e.id := by
      rw [← Message.id_eq_of_ofEvent? hdm, Message.id_eq_of_ofEvent? hm]
    rwa [hheld.eq_of_id_eq he hsame] at hafter
  · intro h
    have hqueued (e : Event) (m : Message) (he : asked.Holds e) (hid : id < e.id)
        (hlt : cursor < e.createdAt) (hm : Message.ofEvent? e = some m) :
        m ∈ Replay.messagesPast id es :=
      Replay.mem_messagesPast.mpr
        ⟨e, (hmem e).mpr ⟨he, h e he hid (by rw [hm]; rfl) hlt⟩, hid, hm⟩
    refine ⟨fun m => ⟨fun hnew => ?_, ?_⟩, fun e he hid hmark => ?_⟩
    · obtain ⟨e, he, hid, hm⟩ := Replay.mem_messagesPast.mp hnew
      obtain ⟨hheld, hafter⟩ := (hmem e).mp he
      exact ⟨e, hheld, hid, Instant.lt_of_micros_lt hheld.isWhole hafter, hm⟩
    · rintro ⟨e, he, hid, hlt, hm⟩
      exact hqueued e m he hid hlt hm
    · have hheld := holds_of_le_mark hmay hgrows hcovered he hid hmark
      by_cases hlt : cursor < e.createdAt
      · cases hm : Message.ofEvent? e with
        | none => exact .inr (.inl rfl)
        | some m => exact .inl ⟨m, hqueued e m hheld hid hlt hm, rfl⟩
      · exact .inr (.inr (Int.not_lt.mp hlt))

end Answered

/-! ### To the mark -/

end World

namespace Replay

/-- The replay is with its history, or has just done with it, and its query can be answered. -/
def Stage.Reads (log : Log) : Stage → Prop
  | opening _ cursor => ∃ es, log.eventsAfter cursor = .ok es
  | asking (.history _ cursor _) => ∃ es, log.eventsAfter cursor = .ok es
  | answered (.history ..) (.ok _) => True
  | delivering (.history ..) .. => True
  | settling .. => True
  | _ => False

def Stage.isSettling : Stage → Bool
  | settling .. => true
  | _ => false

theorem reads_of_next {announced : Int} {request : Subscription} {stage stage' : Stage}
    {s t : Subscriber} {log : Log} (hn : Next announced request stage s stage' t)
    (h : stage.Reads log) (hs : stage.isSettling = false) (hu : stage.IsUnbroken)
    (hc : s.cancelled = false) (hr : ¬ Subscriber.Refuses s t) : stage'.Reads log := by
  cases hn with
  | drop _ hcancel => rw [hc] at hcancel; cases hcancel
  | @take _ purpose => cases purpose <;> exact h
  | @skip _ purpose => cases purpose <;> exact h
  | @stale _ purpose => cases purpose <;> exact h
  | @queue _ purpose => cases purpose <;> exact h
  | refuseHistory ht => exact absurd ht hr
  | @breakHistory _ _ cursor _ newest hf =>
      have hsome : (floorBelow? newest cursor).isSome = true := floorBelow?_isSome hu.newest cursor
      rw [hf] at hsome
      cases hsome
  | ask => exact h
  | closeHistory => trivial
  | settle => cases hs
  | _ => exact h.elim

end Replay

namespace World

/-- Nothing keeps the replay from its history. -/
structure Unhindered (k : TaskId) (r : Replay) (w : World) : Prop where
  uncancelled : (w.hub.subscriber r.connection).cancelled = false
  isOpen : (w.hub.subscriber r.connection).outbound.isOpen = true
  capacity : 0 < (w.hub.subscriber r.connection).outbound.capacity
  stage : ∃ stage, w.hub.task k = .replay { r with stage } ∧ stage.Reads w.log

structure Poised (k : TaskId) (r : Replay) (w : World) : Prop extends Unhindered k r w where
  sound : w.Sound
  unbroken : w.Unbroken

/-- What is left to do for the task, its connection's queue to be drained included. -/
def drainCost (k : TaskId) (c : ConnectionId) (w : World) : Nat :=
  2 * w.taskCost k + if (w.hub.subscriber c).HasRoom then 0 else 1

section Poised

variable {k : TaskId} {r : Replay} {w : World} {stage : Replay.Stage}

theorem drainCost_lt (c : ConnectionId) {m : Move} (h : w.Steps k m) :
    (w.apply m).drainCost k c < w.drainCost k c := by
  have hlt := h.taskCost_lt
  unfold drainCost
  split <;> split <;> omega

/-- The log answers its query. -/
theorem Poised.answer (h : Poised k r w) {purpose : Replay.Purpose}
    (hk : w.hub.task k = .replay { r with stage := .asking purpose }) :
    ∃ m, w.Steps k m ∧ w.Orderly k m ∧ Poised k r (w.apply m) := by
  obtain ⟨stage, hk', hreads⟩ := h.stage
  cases hk.symm.trans hk'
  cases purpose with
  | gap => exact hreads.elim
  | history previous after covered =>
      obtain ⟨es, hes⟩ := hreads
      have hanswers : w.Answers k (.ok es) := by
        refine ⟨after, by rw [hk]; rfl, ?_⟩
        rw [hes]
        exact List.Perm.refl es
      have hsubscriber := congrFun (w.hub.answer_subscriber k (.ok es)) r.connection
      refine ⟨.answer k (.ok es), .answer hanswers, ⟨⟨hanswers, trivial, rfl⟩, fun _ => ?_⟩,
        ⟨?_, ?_, ?_, _, task_answer hk rfl (.ok es), trivial⟩,
        h.sound.answer k (.ok es), unbroken_step h.unbroken (effect_answer hanswers)⟩
      · exact Log.eventsAfter_ascending hes
      · exact (congrArg Subscriber.cancelled hsubscriber).trans h.uncancelled
      · exact (congrArg (·.outbound.isOpen) hsubscriber).trans h.isOpen
      · exact Nat.lt_of_lt_of_eq h.capacity (congrArg (·.outbound.capacity) hsubscriber).symm

/-- It goes on by itself if its frame finds room. -/
theorem Poised.advance (h : Poised k r w) (hk : w.hub.task k = .replay { r with stage })
    (hask : ∀ purpose, stage ≠ .asking purpose) (hs : stage.isSettling = false)
    (hroom : (w.hub.puts? k r.connection).isSome = true →
      (w.hub.subscriber r.connection).HasRoom) :
    w.Steps k (.advance k) ∧ Poised k r (w.apply (.advance k)) := by
  obtain ⟨_, hk', hreads⟩ := h.stage
  cases hk.symm.trans hk'
  have hcan : w.hub.canAdvance k = true := by
    cases stage with
    | asking purpose => exact absurd rfl (hask purpose)
    | opening | answered | delivering => exact Hub.canAdvance_of_isServed hk rfl
    | settling => cases hs
    | _ => exact hreads.elim
  obtain ⟨stage', hn, hk', -⟩ := next_of_canAdvance hk hcan
  have hputs := w.hub.puts_advance k r.connection
  have hkept := hputs.not_cancelled h.uncancelled hroom
  obtain ⟨hopen, hcapacity⟩ := hputs.queue hroom
  refine ⟨.advance hcan, ⟨hkept, hopen.trans h.isOpen,
    Nat.lt_of_lt_of_eq h.capacity hcapacity.symm, stage', hk', ?_⟩,
    h.sound.step fun _ => trivial, unbroken_step h.unbroken (effect h.sound.tidy trivial)⟩
  exact Replay.reads_of_next hn hreads hs (h.unbroken k _ hk) h.uncancelled
    (Replay.not_refuses h.isOpen hkept)

/-- The queue is drained. -/
theorem Poised.receive (h : Poised k r w) :
    Poised k r (w.apply (.receive r.connection none)) ∧
      ((w.apply (.receive r.connection none)).hub.subscriber r.connection).HasRoom ∧
      (w.apply (.receive r.connection none)).taskCost k = w.taskCost k ∧
      w.Possible (.receive r.connection none) := by
  obtain ⟨stage, hk, hreads⟩ := h.stage
  have hpossible : w.Possible (.receive r.connection none) :=
    h.sound.tidy.replays k { r with stage } hk
  have hsub : (w.apply (.receive r.connection none)).hub.subscriber r.connection =
      { w.hub.subscriber r.connection with
        outbound := ((w.hub.subscriber r.connection).outbound.receive none).2 } :=
    update_self ..
  refine ⟨⟨⟨?_, ?_, ?_, stage, hk, hreads⟩, h.sound.step fun _ => hpossible,
    unbroken_step h.unbroken (effect h.sound.tidy hpossible)⟩, ?_, ?_, hpossible⟩
  · rw [hsub]
    exact h.uncancelled
  · rw [hsub]
    exact h.isOpen
  · rw [hsub]
    exact h.capacity
  · rw [hsub]
    refine ⟨h.isOpen, Nat.lt_of_le_of_lt ?_ h.capacity⟩
    simp only [Outbound.receive, Outbound.pending, Option.elim_none, List.length_drop]
    omega
  · have hk' : (w.apply (.receive r.connection none)).hub.task k = .replay { r with stage } := hk
    rw [taskCost_of_replay hk, taskCost_of_replay hk', hsub]
    rfl

theorem Poised.exists_step (h : Poised k r w)
    (hs : ¬ ∃ stage, w.hub.task k = .replay { r with stage } ∧ stage.isSettling = true) :
    ∃ m, (w.Orderly k m ∧ (m = .receive r.connection none ∨ w.Steps k m)) ∧
      Poised k r (w.apply m) ∧
      (w.apply m).drainCost k r.connection < w.drainCost k r.connection := by
  obtain ⟨stage, hk, hreads⟩ := h.stage
  by_cases hask : ∃ purpose, stage = .asking purpose
  · obtain ⟨purpose, rfl⟩ := hask
    obtain ⟨m, hsteps, horderly, hpoised⟩ := h.answer hk
    exact ⟨m, ⟨horderly, .inr hsteps⟩, hpoised, drainCost_lt _ hsteps⟩
  by_cases hroom : (w.hub.puts? k r.connection).isSome = true →
      (w.hub.subscriber r.connection).HasRoom
  · have hsettling : stage.isSettling = false :=
      Bool.eq_false_iff.mpr fun hsettling => hs ⟨stage, hk, hsettling⟩
    obtain ⟨hsteps, hpoised⟩ :=
      h.advance hk (fun purpose heq => hask ⟨purpose, heq⟩) hsettling hroom
    exact ⟨.advance k, ⟨⟨⟨trivial, trivial, rfl⟩, nofun⟩, .inr hsteps⟩, hpoised,
      drainCost_lt _ hsteps⟩
  · obtain ⟨hpoised, hdrained, hcost, hpossible⟩ := h.receive
    refine ⟨.receive r.connection none, ⟨⟨⟨hpossible, trivial, rfl⟩, nofun⟩, .inl rfl⟩, hpoised, ?_⟩
    have hfull : ¬ (w.hub.subscriber r.connection).HasRoom := fun hfits => hroom fun _ => hfits
    unfold drainCost
    rw [hcost, if_pos hdrained, if_neg hfull]
    exact Nat.lt_succ_self _

theorem Poised.exists_run (h : Poised k r w) :
    ∃ past w', Run (fun v m => v.Orderly k m ∧ (m = .receive r.connection none ∨ v.Steps k m))
        w past w' ∧
      ∃ stage, w'.hub.task k = .replay { r with stage } ∧ stage.isSettling = true := by
  obtain ⟨past, w', run, -, hsettling⟩ := exists_run_of_decreasing (Poised k r) _
    (drainCost k r.connection) (fun v hv hs => hv.exists_step hs) h
  exact ⟨past, w', run, hsettling⟩

end Poised

/-! ### From the mark on -/

/-- How many steps task `k` has been let take. -/
def ownSteps (k : TaskId) (past : List (World × Move)) : Nat :=
  past.countP fun p => p.2.advanced? = some k

/-- Replay `r` goes live with nothing but its confirmation to send. -/
def GoesLive (k : TaskId) (r : Replay) (w : World) : Prop :=
  w.hub.puts? k r.connection = some (.subscriptionConfirmed r.request.channel) ∧
    ((w.apply (.advance k)).hub.subscriber r.connection).phase = .live

/-- The history of replay `r` is done, and nothing has been announced past the gate: it is two
steps from its end, or one, or has gone live. -/
inductive Rests (past : List (World × Move)) (k : TaskId) (r : Replay) (covered : Int)
    (w : World) : Prop where
  | settling {cursor floor} (hk : w.hub.task k = .replay { r with stage := .settling cursor floor })
      (hle : covered ≤ (w.hub.subscriber r.connection).lastEventId) (hown : ownSteps k past = 0)
  | reconciling {cursor floor}
      (hk : w.hub.task k = .replay { r with stage := .reconciling cursor floor })
      (hle : covered ≤ (w.hub.subscriber r.connection).lastEventId) (hown : ownSteps k past = 1)
  | live (hk : w.hub.task k = .replay { r with stage := .ended })
      (hlive : ∃ v, (v, .advance k) ∈ past ∧ v.GoesLive k r)

section Rests

variable {past : List (World × Move)} {k : TaskId} {r : Replay} {covered : Int} {w : World}
  {m : Move}

theorem ownSteps_cons_self (w : World) (past : List (World × Move)) :
    ownSteps k ((w, .advance k) :: past) = ownSteps k past + 1 := by
  simp [ownSteps, Move.advanced?]

theorem ownSteps_cons_of_ne (w : World) (past : List (World × Move)) (h : m ≠ .advance k) :
    ownSteps k ((w, m) :: past) = ownSteps k past := by
  have hnot : m.advanced? ≠ some k := fun hm => h (Move.eq_advance hm)
  simp [ownSteps, hnot]

/-- Its own step. -/
theorem Rests.advance (h : Rests past k r covered w) (hann : w.hub.checkpoint.announced ≤ covered)
    (ha : w.Accepts r.connection (.advance k)) :
    Rests ((w, .advance k) :: past) k r covered (w.apply (.advance k)) := by
  cases h with
  | @settling cursor floor hk hle hown =>
      have hcan : w.hub.canAdvance k = true := Hub.canAdvance_of_isServed hk rfl
      obtain ⟨stage, hn, hk', -⟩ := next_of_canAdvance hk hcan
      generalize hs : (w.apply (.advance k)).hub.subscriber r.connection = s at hn
      cases hn with
      | drop hwaiting => cases hwaiting
      | settle =>
          refine .reconciling hk' ?_ (by rw [ownSteps_cons_self, hown])
          rw [hs]
          exact hle
  | @reconciling cursor floor hk hle hown =>
      have hcan : w.hub.canAdvance k = true := Hub.canAdvance_of_isServed hk rfl
      have hbehind : w.hub.checkpoint.announced ≤
          (w.hub.subscriber r.connection).lastEventId := Int.le_trans hann hle
      have hconfirm : w.hub.puts? k r.connection =
          some (.subscriptionConfirmed r.request.channel) := by
        simp [Hub.puts?, hk, Replay.Stage.puts?, Subscriber.Confirms, hbehind]
      have hroom := ha k rfl (by rw [hconfirm]; rfl)
      have hputs := w.hub.puts_advance k r.connection
      rw [hconfirm] at hputs
      obtain ⟨stage, hn, hk', -⟩ := next_of_canAdvance hk hcan
      have hnot := hputs.not_refuses hroom
      change ¬ Subscriber.Refuses _ ((w.apply (.advance k)).hub.subscriber r.connection) at hnot
      generalize hs : (w.apply (.advance k)).hub.subscriber r.connection = s at hn hnot
      cases hn with
      | drop hwaiting => cases hwaiting
      | behind hlt => exact absurd hlt (Int.not_lt.mpr hbehind)
      | goLive => exact .live hk' ⟨w, List.mem_cons_self, hconfirm, by rw [hs]; rfl⟩
      | refuseLive _ hrefuses => exact absurd hrefuses hnot
  | live hk hlive =>
      have hcan : w.hub.canAdvance k = false := by
        simp [Hub.canAdvance, hk, Hub.isCancelled, Hub.isServed, Replay.Stage.isWaiting]
      rw [apply_advance_of_not_canAdvance hcan]
      obtain ⟨v, hv, hlive⟩ := hlive
      exact .live hk ⟨v, List.mem_cons_of_mem _ hv, hlive⟩

/-- What others do. -/
theorem Rests.foreign (h : Rests past k r covered w) (hw : w.Sound) (hm : w.Possible m)
    (hown : m ≠ .advance k) : Rests ((w, m) :: past) k r covered (w.apply m) := by
  have hsilent (hquestion : (w.hub.task k).question? = none) : m.answered? ≠ some k := by
    intro ha
    cases m with
    | answer j a =>
        cases ha
        obtain ⟨cursor, hasked, -⟩ := hm
        rw [hquestion] at hasked
        cases hasked
    | _ => cases ha
  have hsteps := ownSteps_cons_of_ne w past hown
  cases h with
  | settling hk hle hnone =>
      obtain ⟨hk', halike⟩ := hw.stays hk hm hown (hsilent (by rw [hk]; rfl))
      refine .settling hk' ?_ (hsteps.trans hnone)
      rw [(halike rfl).lastEventId]
      exact hle
  | reconciling hk hle hone =>
      obtain ⟨hk', halike⟩ := hw.stays hk hm hown (hsilent (by rw [hk]; rfl))
      refine .reconciling hk' ?_ (hsteps.trans hone)
      rw [(halike rfl).lastEventId]
      exact hle
  | live hk hlive =>
      obtain ⟨hk', -⟩ := hw.stays hk hm hown (hsilent (by rw [hk]; rfl))
      obtain ⟨v, hv, hlive⟩ := hlive
      exact .live hk' ⟨v, List.mem_cons_of_mem _ hv, hlive⟩

theorem Rests.isLagging (h : Rests past k r covered w) : (w.hub.task k).isLagging = false := by
  cases h with
  | settling hk => rw [hk]; rfl
  | reconciling hk => rw [hk]; rfl
  | live hk => rw [hk]; rfl

theorem rests_of_run {u : World} (hu : u.Sound) (h : Rests [] k r covered u)
    (run : Run (fun v m => v.Possible m ∧ v.Accepts r.connection m) u past w)
    (hann : w.hub.checkpoint.announced ≤ covered) :
    w.Sound ∧ Rests past k r covered w ∧ gapQueries k past = 0 := by
  induction run with
  | nil => exact ⟨hu, h, rfl⟩
  | @cons past w m run hm ih =>
      have possible : Run Possible u past w := run.mono fun _ _ hm => hm.1
      have hw := tidy_of_tidy possible hu.tidy
      obtain ⟨hsound, hrests, hgaps⟩ :=
        ih (Int.le_trans (effect hw hm.1).announced_le hann)
      have hann' := Int.le_trans (effect hw hm.1).announced_le hann
      refine ⟨hsound.step fun _ => hm.1, ?_, ?_⟩
      · by_cases hown : m = .advance k
        · subst hown
          exact hrests.advance hann' hm.2
        · exact hrests.foreign hsound hm.1 hown
      · simp [gapQueries, queriesGap, hrests.isLagging] at hgaps ⊢
        exact hgaps

theorem Rests.live_of_two_le (h : Rests past k r covered w) (htwo : 2 ≤ ownSteps k past) :
    (w.hub.task k).isEnded = true ∧ ∃ v, (v, .advance k) ∈ past ∧ v.GoesLive k r := by
  cases h with
  | settling _ _ hown => omega
  | reconciling _ _ hown => omega
  | live hk hlive =>
      rw [hk]
      exact ⟨rfl, hlive⟩

end Rests

/-! ### Main statement -/

/-- Replay `k` owes nothing up to its mark, if the log compares times as instants compare. From
where it opens it gets there unless it is refused or a query fails; and with nothing announced
meanwhile it goes live in two steps, without a gap query. -/
theorem history_owesNothing_iff {capacity replays : Nat} {start : Instant}
    {earlier : List (World × Move)} {k : TaskId} {r : Replay} {previous : Subscriber.Previous}
    {cursor : Instant} {u : World} (before : Run Steady (.new capacity replays start) earlier u)
    (hk : u.hub.task k = .replay r) (hr : r.stage = .opening previous cursor) :
    (∀ past w, Run (Orderly k) u past w → w.Unhindered k r →
      ∃ past' w', Run (fun v m => v.Orderly k m ∧ (m = .receive r.connection none ∨ v.Steps k m))
          w past' w' ∧
        ∃ stage, w'.hub.task k = .replay { r with stage } ∧ stage.isSettling = true) ∧
    ∀ past w after floor, Run (Orderly k) u past w →
      w.hub.task k = .replay { r with stage := .settling after floor } →
      ∃ v₀ v es new, Recounted u past w k r v₀ v es new ∧
        (OwesNothing v.log w.log cursor (u.hub.subscriber r.connection).lastEventId
            (w.hub.subscriber r.connection).lastEventId new ↔
          ComparesAlike v.log cursor (u.hub.subscriber r.connection).lastEventId) ∧
        (cursor.nano < 1000000000 →
          OwesNothing v.log w.log cursor (u.hub.subscriber r.connection).lastEventId
            (w.hub.subscriber r.connection).lastEventId new) ∧
        ∀ past' w', Run (fun v m => v.Possible m ∧ v.Accepts r.connection m) w past' w' →
          w'.hub.checkpoint.announced = v₀.hub.checkpoint.announced →
          gapQueries k past' = 0 ∧ (2 ≤ ownSteps k past' →
            (w'.hub.task k).isEnded = true ∧ ∃ x, (x, .advance k) ∈ past' ∧ x.GoesLive k r) := by
  constructor
  · intro past w run hw
    have possible := possible_of_steady (before.append (run.mono fun _ _ hm => hm.toSteady))
    exact (Poised.mk hw (sound_of_run (possible.mono fun _ _ hm _ => hm))
      (unbroken_of_run possible)).exists_run
  · intro past w after floor run hs
    have steady := before.append (run.mono fun _ _ hm => hm.toSteady)
    have hsound : w.Sound := sound_of_run ((possible_of_steady steady).mono fun _ _ hm _ => hm)
    obtain ⟨v₀, v, es, hrecounted, hmay, hcovered⟩ := recounted_of_run before hk hr run hs
    have hgrows : v.log.Grows w.log :=
      grows_of_visited steady (.inr ⟨_, List.mem_append_left _ hrecounted.found⟩)
    have hiff := @owesNothing_iff _ _ _ (u.hub.subscriber r.connection).lastEventId _ _ hmay hgrows
      hcovered
    rw [← hrecounted.gate] at hiff
    refine ⟨v₀, v, es, _, hrecounted, hiff,
      fun hnano => hiff.mpr (comparesAlike_of_nano_lt hnano _ _), fun past' w' run' hann => ?_⟩
    have hmark : v₀.hub.checkpoint.announced ≤ (w.hub.subscriber r.connection).lastEventId := by
      rw [hrecounted.gate]
      exact Int.le_max_right ..
    obtain ⟨-, hrests, hgaps⟩ :=
      rests_of_run hsound (.settling hs hmark rfl) run' (Int.le_of_eq hann)
    exact ⟨hgaps, hrests.live_of_two_le⟩

/-- A live connection has had what a tick announced. Two events are added, of which the second is
from before the cursor with which the connection subscribes again. -/
def secondReading : List Move :=
  [.append (policyAt 1000), .connect, .startTick, .advance 0,
    .answer 0 (.ok [(policyAt 1000).event 1]), .advance 0, .advance 0, .advance 0,
    .subscribe 0 { channel := .systemEvents }] ++
  List.replicate 5 (.advance 1) ++
  [.append (policyAt 3000), .append (policyAt 500),
    .subscribe 0 { channel := .systemEvents, lastSeen := some (policyAt 800).createdAt }] ++
  List.replicate 4 (.advance 2)

/-- One more is added while the query is outstanding. -/
def lateAnswer : List Move :=
  [.advance 2, .append (policyAt 4000),
    .answer 2 (.ok [(policyAt 1000).event 1, (policyAt 3000).event 2, (policyAt 4000).event 4])] ++
  List.replicate 5 (.advance 2)

def aboutToRead : World := (new 8 8 .epoch).applyAll secondReading

def doneReading : World := aboutToRead.applyAll lateAnswer

/-- The replay of that run, about to open. -/
def secondReader : Replay where
  connection := 0
  request := { channel := .systemEvents, lastSeen := some (policyAt 800).createdAt }
  stage := .opening ⟨.live, true⟩ (policyAt 800).createdAt

/-- The connection has had id 1, and id 3 is older than the cursor. -/
theorem history_owesNothing_of_lateAnswer :
    (aboutToRead.hub.task 2 = .replay secondReader ∧
      (doneReading.hub.subscriber 0).lastEventId = 4 ∧
      doneReading.log.Holds ((policyAt 500).event 3)) ∧
    (∃ past w, Run (fun v m => v.Orderly 2 m ∧ (m = .receive 0 none ∨ v.Steps 2 m))
        aboutToRead past w ∧
      ∃ stage, w.hub.task 2 = .replay { secondReader with stage } ∧ stage.isSettling = true) ∧
    (∃ v₀ v es new, Recounted aboutToRead (aboutToRead.history [] lateAnswer) doneReading 2
        secondReader v₀ v es new ∧ new.map (·.id) = [2, 4] ∧
      OwesNothing v.log doneReading.log (policyAt 800).createdAt 1 4 new) ∧
    ∃ x, (x, .advance 2) ∈ doneReading.history [] [.advance 2, .advance 2] ∧
      x.GoesLive 2 secondReader := by
  have before : Run Steady (new 8 8 .epoch) ((new 8 8 .epoch).history [] secondReading)
      aboutToRead := Follows.run (by decide +kernel) .nil
  have run : Run (Orderly 2) aboutToRead (aboutToRead.history [] lateAnswer) doneReading :=
    Follows.run (by decide +kernel) .nil
  have onward : Run (fun v m => v.Possible m ∧ v.Accepts 0 m) doneReading
      (doneReading.history [] [.advance 2, .advance 2])
      (doneReading.applyAll [.advance 2, .advance 2]) := Follows.run (by decide +kernel) .nil
  have hk : aboutToRead.hub.task 2 = .replay secondReader := rfl
  have hs : doneReading.hub.task 2 = .replay { secondReader with
      stage := .settling (policyAt 800).createdAt (policyAt 3999).createdAt } := rfl
  have hgate : (aboutToRead.hub.subscriber secondReader.connection).lastEventId = 1 := by
    decide +kernel
  have hmark : (doneReading.hub.subscriber secondReader.connection).lastEventId = 4 := by
    decide +kernel
  have hnone : (aboutToRead.hub.subscriber secondReader.connection).messages = [] := by
    decide +kernel
  have hannounced : ∀ p ∈ aboutToRead.history [] lateAnswer, p.1.hub.checkpoint.announced = 1 := by
    decide +kernel
  have hunhindered : aboutToRead.Unhindered 2 secondReader :=
    ⟨by decide +kernel, by decide +kernel, by decide +kernel, secondReader.stage, hk, _, rfl⟩
  obtain ⟨hreads, hsettles⟩ := history_owesNothing_iff before hk rfl
  obtain ⟨v₀, v, es, new, hrecounted, -, howes, hlive⟩ := hsettles _ _ _ _ run hs
  have hann := (hannounced _ hrecounted.read.1).symm
  have hmessages := hrecounted.queued
  rw [hnone, List.nil_append] at hmessages
  rw [hgate, hmark] at howes
  refine ⟨⟨hk, hmark, by decide +kernel⟩, hreads [] _ .nil hunhindered,
    ⟨v₀, v, es, new, hrecounted, ?_, howes (by decide +kernel)⟩,
    ((hlive _ _ onward hann).2 (by decide +kernel)).2⟩
  rw [← hmessages]
  decide +kernel

theorem leapCursor_inRange : Instant.InRange 59 1500000000 := by decide

/-- Halfway through the leap second after 59, for the log half a second past 60. -/
def leapCursor : Instant := ⟨59, 1500000000, leapCursor_inRange⟩

/-- The log has an event of 60.2 when a client subscribes that has seen all up to the leap
second. -/
def leapSubscription : List Move :=
  [.append (policyAt 60200000), .connect,
    .subscribe 0 { channel := .systemEvents, lastSeen := some leapCursor }] ++
  List.replicate 4 (.advance 0)

/-- The log finds nothing after the cursor. -/
def leapReading : List Move :=
  [.advance 0, .answer 0 (.ok []), .advance 0, .advance 0]

/-- The event comes after the cursor and makes a message, and is not queued. -/
theorem not_owesNothing_of_leapCursor :
    let u := (new 8 8 .epoch).applyAll leapSubscription
    let w := u.applyAll leapReading
    let e := (policyAt 60200000).event 1
    Run Steady (new 8 8 .epoch) ((new 8 8 .epoch).history [] leapSubscription) u ∧
      Run (Orderly 0) u (u.history [] leapReading) w ∧
      (∃ previous, u.hub.task 0 = .replay
        ⟨0, { channel := .systemEvents, lastSeen := some leapCursor },
          .opening previous leapCursor⟩) ∧
      (∃ floor, w.hub.task 0 = .replay
        ⟨0, { channel := .systemEvents, lastSeen := some leapCursor },
          .settling leapCursor floor⟩) ∧
      (u.log.Holds e ∧ (u.hub.subscriber 0).lastEventId < e.id ∧ leapCursor < e.createdAt ∧
        (Message.ofEvent? e).isSome = true) ∧
      (w.hub.subscriber 0).messages = [] ∧
      ¬ OwesNothing u.log w.log leapCursor 0 (w.hub.subscriber 0).lastEventId [] := by
  intro u w e
  have hheld : u.log.Holds e := by decide +kernel
  have hlt : leapCursor < e.createdAt := by decide +kernel
  have hsome : (Message.ofEvent? e).isSome = true := by decide +kernel
  refine ⟨Follows.run (by decide +kernel) .nil, Follows.run (by decide +kernel) .nil,
    ⟨_, rfl⟩, ⟨_, rfl⟩, ⟨hheld, by decide +kernel, hlt, hsome⟩, by decide +kernel, fun h => ?_⟩
  obtain ⟨m, hm⟩ := Option.isSome_iff_exists.mp hsome
  exact nomatch (h.exact m).mpr ⟨e, hheld, by decide +kernel, hlt, hm⟩

end World

end EventStream
