import EventStream.Proofs.Delivery.Announced

/-! What ticks have in hand while one connection is served. A batch has all that the log holds
up to its events and that the cursor has not passed. -/

namespace EventStream

namespace Task

def connection? : Task → Option ConnectionId
  | .replay r => some r.connection
  | .tick _ => none

end Task

namespace Tick.Stage

/-- The batch has been announced. -/
def isAnnounced : Tick.Stage → Bool
  | .picking .. => true
  | .broadcasting .. => true
  | _ => false

/-- The batch is in the order of ids, and what is left to offer is its end. -/
def IsOrdered : Tick.Stage → Prop
  | .broadcasting batch left _ _ => batch.Pairwise (·.id < ·.id) ∧ left <:+ batch
  | stage => stage.batch.Pairwise (·.id < ·.id)

theorem IsOrdered.pairwise {stage : Tick.Stage} (h : stage.IsOrdered) :
    stage.batch.Pairwise (·.id < ·.id) := by
  cases stage with
  | broadcasting => exact h.1
  | _ => exact h

theorem mem_events_of_mem_batch {stage : Tick.Stage} {e : Event} (h : e ∈ stage.batch) :
    e ∈ stage.events := by
  unfold batch at h
  split at h
  · exact h
  · exact h
  · exact h
  · exact List.mem_append_left _ h
  · cases h

end Tick.Stage

namespace Tick

theorem isOrdered_of_next {h : Hub} {stage stage' : Stage} {checkpoint : Checkpoint}
    {subscriber : ConnectionId → Subscriber} (hn : Next h stage stage' checkpoint subscriber)
    (ho : stage.IsOrdered) : stage'.IsOrdered := by
  cases hn with
  | sort =>
      have hne : ∀ a b : Event, a.id < b.id → a.id ≠ b.id := fun a b hlt => by omega
      exact Event.sortById_ascending (List.Pairwise.imp (fun {a b} => hne a b) ho)
  | announce => exact ho
  | announceNone => exact ho
  | pick => exact ho
  | passOver => exact ho
  | fanOut => exact ⟨ho, List.suffix_refl _⟩
  | offer => exact ho
  | offerNone => exact ho
  | mark => exact ⟨ho.1, (List.suffix_cons _ _).trans ho.2⟩
  | _ => exact .nil

/-- A tick announces before it picks, and what it announces is its greatest id. -/
theorem id_le_of_next {h : Hub} {stage stage' : Stage} {checkpoint : Checkpoint}
    {subscriber : ConnectionId → Subscriber} (hn : Next h stage stage' checkpoint subscriber)
    (ho : stage.batch.Pairwise (·.id < ·.id))
    (ha : stage.isAnnounced = true → ∀ x ∈ stage.batch, x.id ≤ h.checkpoint.announced)
    (ha' : stage'.isAnnounced = true) : ∀ x ∈ stage'.batch, x.id ≤ checkpoint.announced := by
  cases hn with
  | @announce batch last hl =>
      intro x hx
      exact Int.le_trans (Event.id_le_of_getLast (ho.imp Int.le_of_lt) hl hx) (Int.le_max_right ..)
  | announceNone hl =>
      intro x hx
      rw [List.getLast?_eq_none_iff.mp hl] at hx
      cases hx
  | pick => exact ha rfl
  | passOver => exact ha rfl
  | fanOut => exact ha rfl
  | offer => exact ha rfl
  | offerNone => exact ha rfl
  | mark => exact ha rfl
  | _ => cases ha'

end Tick

namespace World

/-- What may happen while connection `c` is served its one subscription: the log grows,
checkpoint and queries are left alone, and answers come in the order of ids. -/
structure Serving (c : ConnectionId) (request : Subscription) (w : World) (m : Move) : Prop
    extends Steady w m where
  cursor : m.setsCursor = false
  unmarked : m.isMark = false
  answered : m.isFailure = false
  ordered : m.found.Pairwise (·.id < ·.id)
  untargeted : m.target? ≠ some c
  once : ∀ r ∈ m.request? c,
    r = request ∧ ∀ k < w.hub.started, (w.hub.task k).connection? ≠ some c

instance (c : ConnectionId) (request : Subscription) (w : World) (m : Move) :
    Decidable (w.Serving c request m) :=
  decidable_of_iff (w.Steady m ∧ m.setsCursor = false ∧ m.isMark = false ∧
      m.isFailure = false ∧ m.found.Pairwise (·.id < ·.id) ∧ m.target? ≠ some c ∧
      ∀ r ∈ m.request? c,
        r = request ∧ ∀ k < w.hub.started, (w.hub.task k).connection? ≠ some c)
    ⟨fun ⟨hs, hc, hu, ha, ho, ht, hr⟩ => ⟨hs, hc, hu, ha, ho, ht, hr⟩, fun h =>
      ⟨h.toSteady, h.cursor, h.unmarked, h.answered, h.ordered, h.untargeted, h.once⟩⟩

/-- The cursor stands at the start or at most one microsecond past something announced, and
each batch has all up to its events that the cursor has not passed. -/
structure Swept (start : Instant) (w : World) : Prop where
  cursor : w.hub.checkpoint.after = start ∨ w.hub.checkpoint.after.IsWhole ∧
    ∃ x, w.log.Holds x ∧ x.id ≤ w.hub.checkpoint.announced ∧
      w.hub.checkpoint.after.micros ≤ x.createdAt.micros + 1
  asked : ∀ j after, w.hub.task j = .tick (.asking after) →
    after.micros ≤ w.hub.checkpoint.after.micros
  complete : ∀ j stage, w.hub.task j = .tick stage → ∀ x ∈ stage.batch, ∀ e, w.log.Holds e →
    e.id ≤ x.id → e ∈ stage.batch ∨ e.createdAt.micros ≤ w.hub.checkpoint.after.micros
  ordered : ∀ j stage, w.hub.task j = .tick stage → stage.IsOrdered
  announced : ∀ j stage, w.hub.task j = .tick stage → stage.isAnnounced = true →
    ∀ x ∈ stage.batch, x.id ≤ w.hub.checkpoint.announced

section Step

variable {start : Instant} {w w' : World} {m : Move} {c : ConnectionId} {request : Subscription}

theorem announced_le (hm : w.Steady m) (he : Effect w m w') :
    w.hub.checkpoint.announced ≤ w'.hub.checkpoint.announced := by
  rcases he.announced with heq | ⟨k, batch, last, -, -, -, heq⟩ | ⟨id, rfl⟩
  · exact Int.le_of_eq heq.symm
  · rw [heq]
    exact Int.le_max_left ..
  · cases hm.unannounced

/-- A cursor left to the ticks stays, or it comes to stand just after the newest event of a
batch that has been announced. -/
theorem Swept.after_cases (h : Swept start w) (hm : w.Serving c request m) (he : Effect w m w')
    (hs : w.log.Spaced 2 start) (hheld : ∀ j e, e ∈ (w.hub.task j).events → w.log.Holds e) :
    w'.hub.checkpoint.after = w.hub.checkpoint.after ∨
      ∃ k batch newest after, Closes w w' k batch newest after ∧
        w'.hub.checkpoint.after.IsWhole ∧
        w.hub.checkpoint.after.micros ≤ w'.hub.checkpoint.after.micros ∧
        ∃ d ∈ batch, w.log.Holds d ∧
          w'.hub.checkpoint.after.micros = d.createdAt.micros + 1 := by
  rcases he.after with heq | ⟨k, batch, newest, after, hc⟩ | ⟨t, rfl⟩ | ⟨t, rfl⟩
  · exact .inl heq
  · obtain ⟨live, targets, ht⟩ := hc.stage
    have hbatch : ∀ e ∈ batch, w.log.Holds e := by
      intro e hmem
      apply hheld k
      rw [ht]
      exact List.mem_append_left _ hmem
    obtain ⟨d, hd, -, haw, ham⟩ :=
      Hub.newest?_next hc.latest hc.next fun e hmem => (hbatch e hmem).isWhole
    have hafter : w'.hub.checkpoint.after = (w.hub.checkpoint.advanceTo after).after := by
      rw [hc.hub]
      rfl
    have hmax : (w.hub.checkpoint.advanceTo after).after.micros =
        max w.hub.checkpoint.after.micros after.micros := by
      refine Checkpoint.micros_advanceTo haw ?_
      rcases h.cursor with hstart | ⟨hw, -⟩
      · right
        rw [hstart, ham]
        have := hs.start_lt (hbatch d hd)
        omega
      · exact .inl hw
    rcases Checkpoint.advanceTo_after_eq_or w.hub.checkpoint after with heq | heq
    · exact .inl (hafter.trans heq)
    · rw [heq] at hafter hmax
      rw [hafter]
      exact .inr ⟨k, batch, newest, after, hc, haw, by omega, d, hd, hbatch d hd, ham⟩
  · cases hm.cursor
  · cases hm.cursor

theorem Swept.after_le (h : Swept start w) (hm : w.Serving c request m) (he : Effect w m w')
    (hs : w.log.Spaced 2 start) (hheld : ∀ j e, e ∈ (w.hub.task j).events → w.log.Holds e) :
    w.hub.checkpoint.after.micros ≤ w'.hub.checkpoint.after.micros := by
  rcases h.after_cases hm he hs hheld with heq | ⟨_, _, _, _, _, _, hle, _⟩
  · exact Int.le_of_eq (congrArg Instant.micros heq.symm)
  · exact hle

/-- Batches stay complete: what is added to the log comes after all of them. -/
theorem Swept.complete_step (h : Swept start w) (he : Effect w m w') (hg : w.log.Grows w'.log)
    (hle : w.hub.checkpoint.after.micros ≤ w'.hub.checkpoint.after.micros)
    (hheld : ∀ j e, e ∈ (w.hub.task j).events → w.log.Holds e) {j : TaskId} {stage : Tick.Stage}
    (hj : w'.hub.task j = .tick stage) {x e : Event} (hx : x ∈ stage.batch)
    (hin : w'.log.Holds e) (hid : e.id ≤ x.id) :
    e ∈ stage.batch ∨ e.createdAt.micros ≤ w'.hub.checkpoint.after.micros := by
  have hold : w.log.Holds x → w.log.Holds e := by
    intro hxh
    rcases hg.holds_or_lt hin with hold | hlt
    · exact hold
    · have := hxh.id_le
      omega
  have hbefore : ∀ before, w.hub.task j = .tick before → x ∈ before.batch →
      e ∈ before.batch ∨ e.createdAt.micros ≤ w'.hub.checkpoint.after.micros := by
    intro before ht hxb
    have hxh := hheld j x (by rw [ht]; exact Tick.Stage.mem_events_of_mem_batch hxb)
    exact (h.complete j before ht x hxb e (hold hxh) hid).imp_right fun hc => Int.le_trans hc hle
  have hc := he.came j
  rw [hj] at hc
  cases hc with
  | stays _ ht => exact hbefore stage ht hx
  | startsTick => cases hx
  | @answersTick after a ht ha =>
      cases a with
      | error failure => cases hx
      | ok es =>
          by_cases hlt : after.micros < e.createdAt.micros
          · have hxh := ((mem_iff_of_mayAnswer ha).mp hx).1
            exact .inl ((mem_iff_of_mayAnswer ha).mpr ⟨hold hxh, hlt⟩)
          · have := h.asked j after ht
            exact .inr (by omega)
  | @movesTick before _ _ _ ht hn =>
      have hmem : ∀ e, e ∈ stage.batch ↔ e ∈ before.batch := fun e =>
        Tick.mem_batch_of_next hn (Tick.Stage.isUnderway_of_mem_batch hx)
      rw [hmem e]
      exact hbefore before ht ((hmem x).mp hx)

theorem swept_step (h : Swept start w) (hm : w.Serving c request m) (he : Effect w m w')
    (hg : w.log.Grows w'.log) (hs : w.log.Spaced 2 start)
    (hheld : ∀ j e, e ∈ (w.hub.task j).events → w.log.Holds e) : Swept start w' := by
  have hann := announced_le hm.toSteady he
  have hle := h.after_le hm he hs hheld
  refine ⟨?_, fun j after hj => ?_, fun j stage hj x hx e hin hid =>
    h.complete_step he hg hle hheld hj hx hin hid, fun j stage hj => ?_, fun j stage hj ha => ?_⟩
  · rcases h.after_cases hm he hs hheld with
      heq | ⟨k, batch, newest, after, hc, hw, -, d, hd, hdh, heq⟩
    · rw [heq]
      refine h.cursor.imp_right fun ⟨hw, x, hx, hid, hlt⟩ => ?_
      exact ⟨hw, x, hg.holds hx, Int.le_trans hid hann, hlt⟩
    · obtain ⟨live, targets, ht⟩ := hc.stage
      refine .inr ⟨hw, d, hg.holds hdh, ?_, Int.le_of_eq heq⟩
      exact Int.le_trans (h.announced k _ ht rfl d hd) hann
  · have hc := he.came j
    rw [hj] at hc
    cases hc with
    | stays _ ht => exact Int.le_trans (h.asked j after ht) hle
    | movesTick ht hn =>
        cases hn
        exact hle
  · have hc := he.came j
    rw [hj] at hc
    cases hc with
    | stays _ ht => exact h.ordered j stage ht
    | startsTick => exact .nil
    | @answersTick after a ht ha =>
        cases a with
        | error failure => exact .nil
        | ok es => exact hm.ordered
    | movesTick ht hn => exact Tick.isOrdered_of_next hn (h.ordered j _ ht)
  · have hc := he.came j
    rw [hj] at hc
    cases hc with
    | stays _ ht => exact fun x hx => Int.le_trans (h.announced j stage ht ha x hx) hann
    | startsTick => cases ha
    | answersTick => cases ha
    | movesTick ht hn hw =>
        rw [hw]
        exact Tick.id_le_of_next hn (h.ordered j _ ht).pairwise (h.announced j _ ht) ha

end Step

theorem swept_of_run {capacity replays : Nat} {start : Instant} {past : List (World × Move)}
    {w : World} {c : ConnectionId} {request : Subscription}
    (run : Run (Serving c request) (.new capacity replays start) past w)
    (hs : w.log.Spaced 2 start) : Swept start w := by
  induction run with
  | nil =>
      refine ⟨.inl rfl, ?_, ?_, ?_, ?_⟩
      · intro j after hj
        cases hj
      · intro j stage hj x hx
        cases hj
        cases hx
      · intro j stage hj
        cases hj
        exact .nil
      · intro j stage hj ha
        cases hj
        cases ha
  | cons run hm ih =>
      have hsteady := run.mono (fun _ _ h => h.toSteady)
      have hg := grows_apply hm.appends
      have he := effect (tidy_of_run (possible_of_steady hsteady)) hm.possible
      have hs' := hs.of_grows hg
      exact swept_step (ih hs') hm he hg hs' fun j e => holds_of_mem_events hsteady

end World

end EventStream
