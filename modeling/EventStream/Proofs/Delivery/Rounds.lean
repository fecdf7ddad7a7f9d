import EventStream.Proofs.Delivery.Floor
import EventStream.Proofs.World.Cost

/-! Rounds of gap queries. Each round brings the gate past an event, or the floor down to the
cursor, or is the last; so a budget that both of these lower bounds the rounds to come. -/

namespace EventStream

namespace Replay

theorem newest?_concat (done : List Event) (e : Event) :
    Hub.newest? (done ++ [e]) = some (later (Hub.newest? done) e.createdAt) := by
  simp only [Hub.newest?, List.foldl_append, List.foldl_cons, List.foldl_nil]

/-! ### Budgets -/

/-- How many gap queries a replay has to make, under what is known of the log and of what is
announced. -/
structure Budget where
  /-- What may have been announced. -/
  announces : Int → Prop
  /-- How a query for what comes after the instant may be answered. -/
  answers : Instant → Answer → Prop
  /-- With the gate at `id`, so many queries are enough. -/
  covers : (cursor : Instant) → (id : Int) → (floor : Instant) → Nat → Prop
  stamped : ∀ {after events}, answers after (.ok events) →
    ∀ e ∈ events, e.createdAt.prev?.isSome = true
  pos : ∀ {cursor id floor n highWater}, covers cursor id floor n → announces highWater →
    id < highWater → 0 < n
  /-- A round that fills something of the gap is one of them. -/
  fills : ∀ {cursor id floor n highWater events floor'}, covers cursor id floor (n + 1) →
    announces highWater → answers floor (.ok events) →
    id < gateAfter id ((Purpose.gap cursor floor id highWater).wanted events) →
    floorBelow? (Hub.newest? ((Purpose.gap cursor floor id highWater).wanted events)) cursor =
      some floor' →
    covers cursor (gateAfter id ((Purpose.gap cursor floor id highWater).wanted events)) floor' n
  /-- So is a round that fills nothing. -/
  lowers : ∀ {cursor id floor n}, covers cursor id floor (n + 1) → cursor < floor →
    covers cursor id cursor n

namespace Stage

def isLagging : Stage → Bool
  | lagging .. => true
  | _ => false

/-- How far a stage is from the end of its round. -/
def rank : Stage → Nat
  | asking _ => 5
  | answered .. => 4
  | delivering .. => 3
  | reconciling .. => 2
  | lagging .. => 1
  | confirming _ => 1
  | _ => 0

/-- How much of the answer is still to be delivered. -/
def remaining : Stage → Nat
  | delivering _ left _ => left.length
  | _ => 0

/-- A replay that fills gaps, and has `n` more queries to make at most, or that is past that. The
gate of its subscriber stands at `id`. -/
def Within (b : Budget) (n : Nat) (id : Int) : Stage → Prop
  | reconciling cursor floor => b.covers cursor id floor n
  | lagging cursor floor highWater =>
    b.covers cursor id floor n ∧ b.announces highWater ∧ id < highWater
  | asking (.gap cursor floor delivered highWater) =>
    b.covers cursor id floor (n + 1) ∧ b.announces highWater ∧ delivered = id
  | answered (.gap cursor floor delivered highWater) a =>
    b.covers cursor id floor (n + 1) ∧ b.announces highWater ∧ delivered = id ∧
      b.answers floor a
  | delivering (.gap cursor floor delivered highWater) left newest =>
    b.covers cursor delivered floor (n + 1) ∧ b.announces highWater ∧
      ∃ events done, b.answers floor (.ok events) ∧
        (Purpose.gap cursor floor delivered highWater).wanted events = done ++ left ∧
        gateAfter delivered done = id ∧ Hub.newest? done = newest
  | confirming mode => mode = .force
  | ended => True
  | _ => False

end Stage

section Next

variable {b : Budget} {n : Nat} {announced : Int} {request : Subscription} {stage stage' : Stage}
  {s t : Subscriber}

/-- One more event of the answer has been dealt with. -/
theorem within_delivering {cursor floor : Instant} {delivered highWater id id' : Int} {e : Event}
    {rest : List Event} {newest : Option Instant}
    (h : (Stage.delivering (.gap cursor floor delivered highWater) (e :: rest) newest).Within b n
      id) (hid : id' = max id e.id) :
    (Stage.delivering (.gap cursor floor delivered highWater) rest
      (some (later newest e.createdAt))).Within b n id' := by
  obtain ⟨hcovers, hannounces, events, done, hanswers, hwanted, hgate, hnewest⟩ := h
  refine ⟨hcovers, hannounces, events, done ++ [e], hanswers, by simp [hwanted], ?_, ?_⟩
  · rw [gateAfter_concat, hgate, hid]
  · rw [newest?_concat, hnewest]

/-- A step keeps to the budget. -/
theorem within_of_next (hn : Next announced request stage s stage' t)
    (ha : b.announces announced) (h : stage.Within b n s.lastEventId) :
    ∃ n', stage'.Within b n' t.lastEventId ∧ n' + (if stage.isLagging then 1 else 0) = n := by
  cases hn with
  | drop hw =>
      have hlagging : stage.isLagging = false := by
        cases stage <;> first | rfl | cases hw
      exact ⟨n, trivial, by simp [hlagging]⟩
  | arrive | lock | grant | begin | beginFresh | ask | historyFailed | closeHistory | breakHistory
    | refuseHistory | settle | report | abort => exact h.elim
  | @take _ purpose events =>
      cases purpose with
      | history => exact h.elim
      | gap cursor floor delivered highWater =>
          obtain ⟨hcovers, hannounces, rfl, hanswers⟩ := h
          exact ⟨n, ⟨hcovers, hannounces, events, [], hanswers, rfl, rfl, rfl⟩, rfl⟩
  | gapFailed => exact ⟨n, rfl, rfl⟩
  | @skip _ purpose =>
      cases purpose with
      | history => exact h.elim
      | gap => exact ⟨n, within_delivering h rfl, rfl⟩
  | @stale _ purpose _ _ _ _ _ hid =>
      cases purpose with
      | history => exact h.elim
      | gap => exact ⟨n, within_delivering h (Int.max_eq_left hid).symm, rfl⟩
  | @queue _ purpose _ _ _ _ _ hid =>
      cases purpose with
      | history => exact h.elim
      | gap => exact ⟨n, within_delivering h (Int.max_eq_right (Int.le_of_lt hid)).symm, rfl⟩
  | refuseGap => exact ⟨n, trivial, rfl⟩
  | @closeGap _ cursor floor delivered highWater newest floor' hlt hf =>
      obtain ⟨hcovers, hannounces, events, done, hanswers, hwanted, hgate, rfl⟩ := h
      rw [List.append_nil] at hwanted
      subst hwanted
      rw [← hgate] at hlt ⊢
      exact ⟨n, b.fills hcovers hannounces hanswers hlt hf, rfl⟩
  | breakGap => exact ⟨n, trivial, rfl⟩
  | @lower _ cursor floor delivered highWater newest hle hlt =>
      obtain ⟨hcovers, -, events, done, -, -, hgate, -⟩ := h
      have hid : delivered = s.lastEventId := by
        have := le_gateAfter delivered done
        omega
      rw [← hid]
      exact ⟨n, b.lowers hcovers hlt, rfl⟩
  | giveUp => exact ⟨n, rfl, rfl⟩
  | behind hlt => exact ⟨n, ⟨h, ha, hlt⟩, rfl⟩
  | goLive => exact ⟨n, trivial, rfl⟩
  | refuseLive => exact ⟨n, trivial, rfl⟩
  | @lag _ cursor floor highWater =>
      obtain ⟨hcovers, hannounces, hlt⟩ := h
      obtain ⟨n', rfl⟩ : ∃ n', n = n' + 1 :=
        Nat.exists_eq_succ_of_ne_zero (Nat.ne_of_gt (b.pos hcovers hannounces hlt))
      exact ⟨n', ⟨hcovers, hannounces, rfl⟩, rfl⟩
  | confirm => exact ⟨n, trivial, rfl⟩

/-- Short of another query, each step brings the replay nearer to the end of its round. -/
theorem nearer_of_next (hn : Next announced request stage s stage' t)
    (h : stage.Within b n s.lastEventId) (hl : stage.isLagging = false) :
    Prod.Lex (· < ·) (· < ·) (stage'.rank, stage'.remaining) (stage.rank, stage.remaining) := by
  cases hn with
  | drop hw =>
      refine .left _ _ ?_
      cases stage <;> first | exact h.elim | exact Nat.succ_pos _ | cases hw
  | skip | stale | queue => exact .right _ (Nat.lt_succ_self _)
  | arrive | lock | grant | begin | beginFresh | ask | historyFailed | closeHistory | breakHistory
    | refuseHistory | settle | report | abort => exact h.elim
  | lag => cases hl
  | _ => exact .left _ _ (by simp [Stage.rank])

end Next

/-! ### Whatever queries bring -/

/-- The first instant that there is. -/
def earliest : Instant := ⟨Instant.minSecond, 0, by decide⟩

theorem prev?_isSome_iff {t : Instant} : t.prev?.isSome = true ↔ earliest < t.truncate := by
  have hrange := t.inRange
  simp only [Instant.InRange, Instant.minSecond, Instant.maxSecond] at hrange
  simp only [Instant.prev?, Instant.lt_iff_key, Instant.key, Instant.truncate, earliest,
    Instant.minSecond]
  split <;>
    simp only [Instant.ofUnix?_isSome_iff, Instant.InRange, Instant.minSecond,
      Instant.maxSecond] <;> omega

/-- What an answer brings is no older than a query can ask; for times in whole microseconds, it is
later than the first instant. -/
def Stamped : Answer → Prop
  | .ok events => ∀ e ∈ events, earliest < e.createdAt.truncate
  | .error _ => True

/-- Twice as many as there are ids that may be announced: each may come after a query that brings
nothing. -/
def rounds (limit : Int) (cursor : Instant) (id : Int) (floor : Instant) : Nat :=
  2 * (limit - id).toNat - if cursor < floor then 0 else 1

/-- Nothing is announced beyond the limit. -/
def Budget.bounded (limit : Int) : Budget where
  announces announced := announced ≤ limit
  answers _ a := Stamped a
  covers cursor id floor n := rounds limit cursor id floor ≤ n
  stamped h e he := prev?_isSome_iff.mpr (h e he)
  pos := by
    intro cursor id floor n highWater hcovers hlimit hlt
    simp only [rounds] at hcovers
    split at hcovers <;> omega
  fills := by
    intro cursor id floor n highWater events floor' hcovers _ _ hlt _
    simp only [rounds] at hcovers ⊢
    split at hcovers <;> split <;> omega
  lowers := by
    intro cursor id floor n hcovers hlt
    have hself : ¬ cursor < cursor := Int.lt_irrefl _
    simp only [rounds, hlt, hself, ite_true, ite_false] at hcovers ⊢
    omega

/-! ### A log that stays as it is -/

/-- Past the gate nothing that has been announced was created after the instant. -/
def Bare (log : Log) (announced : Int) (id : Int) (after : Instant) : Prop :=
  ∀ e, log.Holds e → id < e.id → e.id ≤ announced → e.createdAt.micros ≤ after.micros

/-- What is known of a gap once some rounds have been made: the first may find anything, but then
the floor has nothing before it, and so has the cursor when it has been asked for. -/
inductive Known (log : Log) (announced : Int) (cursor : Instant) (id : Int) (floor : Instant)
    (n : Nat) : Prop where
  | nothing (h : 5 ≤ n)
  | floor (hfloor : Bare log announced id floor) (h : 4 ≤ n)
  | lowered (heq : floor = cursor) (h : 3 ≤ n)
  | both (hcursor : Bare log announced id cursor) (hfloor : Bare log announced id floor)
      (h : 2 ≤ n)
  | last (heq : floor = cursor) (hcursor : Bare log announced id cursor) (h : 1 ≤ n)

/-- What a query for what comes after the floor has brought of the gap, and what it leaves. -/
theorem bare_of_mayAnswer {log : Log} {announced id : Int} {cursor floor floor' : Instant}
    {events found : List Event} (hanswer : World.MayAnswer (log.eventsAfter floor) (.ok events))
    (hfound : found = (Purpose.gap cursor floor id announced).wanted events)
    (hlt : id < gateAfter id found)
    (hf : floorBelow? (Hub.newest? found) cursor = some floor') :
    ¬ Bare log announced id floor ∧ Bare log announced (gateAfter id found) floor ∧
      Bare log announced (gateAfter id found) floor' := by
  have hmem (e : Event) : e ∈ found ↔
      (log.Holds e ∧ floor.micros < e.createdAt.micros) ∧ id < e.id ∧ e.id ≤ announced := by
    rw [hfound]
    simp only [Purpose.wanted, List.mem_filter, World.mem_iff_of_mayAnswer hanswer,
      decide_eq_true_eq]
  obtain ⟨t, hnewest⟩ : ∃ t, Hub.newest? found = some t := by
    cases hnewest : Hub.newest? found with
    | some t => exact ⟨t, rfl⟩
    | none =>
        rw [Hub.newest?_eq_none hnewest] at hlt
        exact absurd hlt (Int.lt_irrefl _)
  obtain ⟨⟨d, hd, rfl⟩, -⟩ := Hub.newest?_eq_some hnewest
  obtain ⟨⟨hheld, hafter⟩, hid, hle⟩ := (hmem d).mp hd
  have hpast : Bare log announced (gateAfter id found) floor := by
    intro e he hgate hannounced
    by_cases hlater : floor.micros < e.createdAt.micros
    · have := le_gateAfter_of_mem id ((hmem e).mpr ⟨⟨he, hlater⟩, by omega, hannounced⟩)
      omega
    · omega
  have hfloor : d.createdAt.micros - 1 ≤ floor'.micros := by
    rw [hnewest, floorBelow?, Option.map_eq_some_iff] at hf
    obtain ⟨p, hp, rfl⟩ := hf
    obtain ⟨hwhole, hmicros⟩ := Instant.prev?_eq_some hheld.isWhole hp
    rw [← hmicros]
    exact Instant.micros_le_of_le hwhole (Instant.le_max_left p cursor)
  refine ⟨fun hbare => ?_, hpast, fun e he hgate hannounced => ?_⟩
  · have := hbare d hheld hid hle
    omega
  · have := hpast e he hgate hannounced
    omega

/-- The log stays as it is, and so does what has been announced. -/
def Budget.stable (log : Log) (announced : Int) : Budget where
  announces n := n = announced
  answers after a := World.MayAnswer (log.eventsAfter after) a
  covers cursor id floor n := Known log announced cursor id floor n
  stamped := by
    intro after events h e he
    obtain ⟨hheld, hafter⟩ := (World.mem_iff_of_mayAnswer h).mp he
    exact Instant.prev?_isSome hheld.isWhole hafter
  pos := by
    intro cursor id floor n highWater hknown _ _
    cases hknown <;> omega
  fills := by
    rintro cursor id floor n highWater events floor' hknown rfl hanswer hlt hf
    obtain ⟨hsome, hpast, hfloor⟩ := bare_of_mayAnswer hanswer rfl hlt hf
    cases hknown with
    | nothing h => exact .floor hfloor (by omega)
    | floor hbare => exact absurd hbare hsome
    | lowered heq h => exact .both (heq ▸ hpast) hfloor (by omega)
    | both _ hbare => exact absurd hbare hsome
    | last heq hbare => exact absurd (heq ▸ hbare) hsome
  lowers := by
    intro cursor id floor n hknown hlt
    have hne : floor ≠ cursor := fun heq => absurd (heq ▸ hlt) (Int.lt_irrefl _)
    cases hknown with
    | nothing h => exact .lowered rfl (by omega)
    | floor _ h => exact .lowered rfl (by omega)
    | lowered heq => exact absurd heq hne
    | both hcursor _ h => exact .last rfl hcursor (by omega)
    | last heq => exact absurd heq hne

end Replay

end EventStream
