import EventStream.Proofs.Delivery.Phases

/-! Which histories have failed. A replay that hears of it is failing until it has told its
client; a replay without a cursor asks for no history. -/

namespace EventStream

namespace Replay

/-- The stages of a replay without a cursor. -/
def Stage.isPlain : Stage → Bool
  | arriving => true
  | awaitingLock => true
  | awaitingPermit => true
  | admitted => true
  | confirming .fresh => true
  | ended => true
  | _ => false

theorem isPlain_of_next {announced : Int} {request : Subscription} {stage stage' : Stage}
    {s t : Subscriber} (hn : Next announced request stage s stage' t)
    (hseen : request.lastSeen = none) (h : stage.isPlain = true) : stage'.isPlain = true := by
  cases hn with
  | begin hr => rw [hseen] at hr; cases hr
  | settle => cases h
  | _ => first | rfl | cases h

theorem progress_of_isDelivering {stage : Stage} (h : stage.isDelivering = true) :
    stage.progress = .underway ∧ stage.isFailing = false := by
  cases stage with
  | delivering => exact ⟨rfl, rfl⟩
  | _ => cases h

theorem isPlain_of_isDelivering {stage : Stage} (h : stage.isDelivering = true) :
    stage.isPlain = false := by
  cases stage with
  | delivering => rfl
  | _ => cases h

end Replay

namespace World

/-- The log has failed to answer when the replay asked for its history. -/
def HistoryFailed (past : List (World × Move)) (k : TaskId) : Prop :=
  ∃ v r previous cursor covered failure, (v, .answer k (.error failure)) ∈ past ∧
    v.hub.task k = .replay r ∧ r.stage = .asking (.history previous cursor covered)

section Cons

variable {w : World} {m : Move} {past : List (World × Move)} {k : TaskId} {r : Replay}

theorem historyFailed_cons : HistoryFailed ((w, m) :: past) k ↔ HistoryFailed past k ∨
    ∃ r previous cursor covered failure, m = .answer k (.error failure) ∧
      w.hub.task k = .replay r ∧ r.stage = .asking (.history previous cursor covered) := by
  constructor
  · rintro ⟨v, r, previous, cursor, covered, failure, hmem, hk, hs⟩
    rcases List.mem_cons.mp hmem with heq | hmem
    · cases heq
      exact .inr ⟨r, previous, cursor, covered, failure, rfl, hk, hs⟩
    · exact .inl ⟨v, r, previous, cursor, covered, failure, hmem, hk, hs⟩
  · rintro (⟨v, r, previous, cursor, covered, failure, hmem, hk, hs⟩ |
      ⟨r, previous, cursor, covered, failure, rfl, hk, hs⟩)
    · exact ⟨v, r, previous, cursor, covered, failure, List.mem_cons_of_mem _ hmem, hk, hs⟩
    · exact ⟨w, r, previous, cursor, covered, failure, List.mem_cons_self, hk, hs⟩

/-- The history of a replay that stays where it is has not failed just now. -/
theorem historyFailed_cons_of_stays (hk : w.hub.task k = .replay r)
    (hk' : (w.apply m).hub.task k = .replay r) :
    HistoryFailed ((w, m) :: past) k ↔ HistoryFailed past k := by
  rw [historyFailed_cons]
  refine or_iff_left ?_
  rintro ⟨q, previous, cursor, covered, failure, rfl, hq, hs⟩
  rw [task_answer hq hs] at hk'
  rw [hk] at hq
  cases hq
  have hstage := congrArg Replay.stage (Task.replay.inj hk')
  rw [hs] at hstage
  cases hstage

theorem historyFailed_cons_of_not_asking (hk : w.hub.task k = .replay r)
    (hs : ∀ purpose, r.stage ≠ .asking purpose) :
    HistoryFailed ((w, m) :: past) k ↔ HistoryFailed past k := by
  rw [historyFailed_cons]
  refine or_iff_left ?_
  rintro ⟨q, previous, cursor, covered, failure, -, hq, hask⟩
  rw [hk] at hq
  cases hq
  exact hs _ hask

theorem historyFailed_advance {j : TaskId} :
    HistoryFailed ((w, .advance j) :: past) k ↔ HistoryFailed past k := by
  simp [historyFailed_cons]

end Cons

/-! ### What a replay knows -/

/-- How far a replay is tells whether its history has failed. -/
structure Knows (past : List (World × Move)) (k : TaskId) (stage : Replay.Stage) : Prop where
  waiting : stage.progress = .waiting → ¬ HistoryFailed past k
  underway : stage.progress = .underway → (HistoryFailed past k ↔ stage.isFailing = true)
  told : stage.progress = .told → HistoryFailed past k

section Step

variable {c : ConnectionId} {w : World} {m : Move} {past : List (World × Move)} {k : TaskId}

theorem Knows.congr {past' : List (World × Move)} {stage : Replay.Stage}
    (h : Knows past k stage) (hiff : HistoryFailed past' k ↔ HistoryFailed past k) :
    Knows past' k stage :=
  ⟨fun hp => by rw [hiff]; exact h.waiting hp, fun hp => by rw [hiff]; exact h.underway hp,
    fun hp => hiff.mpr (h.told hp)⟩

theorem knows_of_underway {stage : Replay.Stage} (hp : stage.progress = .underway)
    (h : HistoryFailed past k ↔ stage.isFailing = true) : Knows past k stage := by
  refine ⟨fun hother => ?_, fun _ => h, fun hother => ?_⟩
  · rw [hp] at hother
    cases hother
  · rw [hp] at hother
    cases hother

theorem Knows.answered {r : Replay} {purpose : Replay.Purpose} (h : Knows past k r.stage)
    (hk : w.hub.task k = .replay r) (hs : r.stage = .asking purpose) (a : Answer) :
    Knows ((w, .answer k a) :: past) k (.answered purpose a) := by
  have hbefore : ¬ HistoryFailed past k := by
    rw [h.underway (by rw [hs]; rfl), hs]
    simp [Replay.Stage.isFailing]
  refine knows_of_underway rfl ?_
  simp only [historyFailed_cons, hbefore, false_or]
  constructor
  · rintro ⟨q, previous, cursor, covered, failure, heq, hq, hask⟩
    cases heq
    rw [hk] at hq
    cases hq
    rw [hs] at hask
    cases hask
    rfl
  · intro hf
    cases purpose with
    | gap => cases a <;> cases hf
    | history previous cursor covered =>
        cases a with
        | ok events => cases hf
        | error failure => exact ⟨r, previous, cursor, covered, failure, rfl, hk, hs⟩

theorem Knows.act {request : Subscription} {put : Option Frame} {stage stage' : Replay.Stage}
    {s t : Subscriber} (h : Knows past k stage) (ha : Replay.Act request put stage s stage' t) :
    Knows past k stage' := by
  cases ha with
  | arrive | lock | grant =>
      exact ⟨fun _ => h.waiting rfl, fun hp => (nomatch hp), fun hp => (nomatch hp)⟩
  | begin hp' hf => exact knows_of_underway hp' (iff_of_false (h.waiting rfl) (by simp [hf]))
  | goOn hp hp' hf => exact knows_of_underway hp' (by rw [hf]; exact h.underway hp)
  | event hd hd' =>
      have hstage := Replay.progress_of_isDelivering hd
      have hstage' := Replay.progress_of_isDelivering hd'
      refine knows_of_underway hstage'.1 ?_
      rw [hstage'.2, ← hstage.2]
      exact h.underway hstage.1
  | confirm => exact ⟨fun hp => (nomatch hp), fun hp => (nomatch hp), fun hp => (nomatch hp)⟩
  | report =>
      exact ⟨fun hp => (nomatch hp), fun hp => (nomatch hp), fun _ => (h.underway rfl).mpr rfl⟩
  | abort => exact ⟨fun hp => (nomatch hp), fun hp => (nomatch hp), fun hp => (nomatch hp)⟩

theorem knows_step (h : ∀ j q, w.hub.task j = .replay q → q.connection = c → Knows past j q.stage)
    (hnew : ¬ HistoryFailed past w.hub.started)
    (hm : Concerns c w (w.apply m) m) {r : Replay} (hk : (w.apply m).hub.task k = .replay r)
    (hc : r.connection = c) : Knows ((w, m) :: past) k r.stage := by
  have hstays (hold : w.hub.task k = .replay r) : Knows ((w, m) :: past) k r.stage :=
    (h k r hold hc).congr (historyFailed_cons_of_stays hold hk)
  cases hm with
  | aside _ _ _ ht => exact hstays ((ht k r hc).mp hk)
  | live _ _ _ _ _ _ ht => exact hstays ((ht k r hc).mp hk)
  | subscribe _ ht =>
      rcases eq_or_of_update_eq ((congrFun ht k).symm.trans hk) with ⟨rfl, heq⟩ | ⟨-, hold⟩
      · cases heq
        refine ⟨fun _ => ?_, fun hp => (nomatch hp), fun hp => (nomatch hp)⟩
        simp [historyFailed_cons, hnew]
      · exact hstays hold
  | answer hj hjc hask _ ht =>
      rcases eq_or_of_update_eq ((congrFun ht k).symm.trans hk) with ⟨rfl, heq⟩ | ⟨-, hold⟩
      · cases heq
        exact (h _ _ hj hjc).answered hj hask _
      · exact hstays hold
  | act hj hjc ha ht =>
      rcases eq_or_of_update_eq ((congrFun ht k).symm.trans hk) with ⟨rfl, heq⟩ | ⟨-, hold⟩
      · cases heq
        exact ((h _ _ hj hjc).act ha).congr historyFailed_advance
      · exact hstays hold

end Step

section Run

variable {capacity replays : Nat} {start : Instant} {past : List (World × Move)} {w : World}
  {k : TaskId} {r : Replay}

theorem lt_started_of_historyFailed (run : Run Possible (.new capacity replays start) past w)
    (h : HistoryFailed past k) : k < w.hub.started := by
  obtain ⟨v, q, -, -, -, failure, hmem, hk, -⟩ := h
  obtain ⟨stage, hk'⟩ := replay_of_visited run (.inr ⟨_, hmem⟩) hk
  exact (tidy_of_run run).lt_started_of_replay hk'

theorem knows_of_run {c : ConnectionId} (run : Run (Hears c) (.new capacity replays start) past w)
    (hk : w.hub.task k = .replay r) (hc : r.connection = c) : Knows past k r.stage := by
  induction run generalizing k r with
  | nil => cases hk
  | cons run hm ih =>
      have hposs := possible_of_hears run
      refine knows_step (fun j q hj hq => ih hj hq) ?_ (concerns_of_run run hm) hk hc
      exact fun h => Nat.lt_irrefl _ (lt_started_of_historyFailed hposs h)

theorem isPlain_of_run (run : Run Possible (.new capacity replays start) past w)
    (hk : w.hub.task k = .replay r) (hseen : r.request.lastSeen = none) :
    r.stage.isPlain = true := by
  induction run generalizing k r with
  | nil => cases hk
  | cons run hm ih =>
      have hcame := (effect (tidy_of_run run) hm).came k
      rw [hk] at hcame
      cases hcame with
      | stays _ hold => exact ih hold hseen
      | subscribes => rfl
      | @answersReplay q purpose a hq hs =>
          have hp := ih hq hseen
          rw [hs] at hp
          cases hp
      | movesReplay hq hn => exact Replay.isPlain_of_next hn hseen (ih hq hseen)

end Run

end World

end EventStream
