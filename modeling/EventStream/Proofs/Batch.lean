import EventStream.Proofs.Log
import EventStream.Proofs.Tick

/-! A tick's batch in the order of ids, and the latest time in it. -/

namespace EventStream

theorem Message.id_eq_of_ofEvent? {e : Event} {m : Message} (h : Message.ofEvent? e = some m) :
    m.id = e.id := by
  unfold Message.ofEvent? at h
  simp only [bind, Option.bind] at h
  split at h
  · cases h
  · cases h; rfl

namespace Event

/-! ### Sorting -/

theorem insertById_perm (e : Event) (es : List Event) : (insertById e es).Perm (e :: es) := by
  induction es with
  | nil => exact .refl _
  | cons x xs ih =>
      unfold insertById
      split
      · exact .refl _
      · exact (ih.cons x).trans (.swap e x xs)

theorem sortById_perm (es : List Event) : (sortById es).Perm es := by
  induction es with
  | nil => exact .refl _
  | cons e es ih => exact (insertById_perm e (sortById es)).trans (ih.cons e)

@[simp] theorem mem_sortById {e : Event} {es : List Event} : e ∈ sortById es ↔ e ∈ es :=
  (sortById_perm es).mem_iff

theorem insertById_sorted {e : Event} {es : List Event} (h : es.Pairwise (·.id ≤ ·.id)) :
    (insertById e es).Pairwise (·.id ≤ ·.id) := by
  induction es with
  | nil => simp [insertById]
  | cons x xs ih =>
      obtain ⟨hx, hxs⟩ := List.pairwise_cons.mp h
      unfold insertById
      split
      · next hle =>
        refine List.pairwise_cons.mpr ⟨fun y hy => ?_, h⟩
        rcases List.mem_cons.mp hy with rfl | hy
        · exact hle
        · exact Int.le_trans hle (hx y hy)
      · next hle =>
        refine List.pairwise_cons.mpr ⟨fun y hy => ?_, ih hxs⟩
        rcases List.mem_cons.mp ((insertById_perm e xs).mem_iff.mp hy) with rfl | hy
        · omega
        · exact hx y hy

theorem sortById_sorted (es : List Event) : (sortById es).Pairwise (·.id ≤ ·.id) := by
  induction es with
  | nil => exact .nil
  | cons e es ih => exact insertById_sorted ih

/-- The last event of a sorted batch has its greatest id. -/
theorem id_le_of_getLast {batch : List Event} {last : Event} (ho : batch.Pairwise (·.id ≤ ·.id))
    (hl : batch.getLast? = some last) {x : Event} (hx : x ∈ batch) : x.id ≤ last.id := by
  obtain ⟨front, rfl⟩ := List.getLast?_eq_some_iff.mp hl
  rcases List.mem_append.mp hx with hx | hx
  · exact (List.pairwise_append.mp ho).2.2 x hx last (List.mem_singleton_self _)
  · exact Int.le_of_eq (congrArg Event.id (List.mem_singleton.mp hx))

/-- Events of different ids stand in strictly ascending order after sorting. -/
theorem sortById_ascending {es : List Event} (h : es.Pairwise (·.id ≠ ·.id)) :
    (sortById es).Pairwise (·.id < ·.id) := by
  have hne : (sortById es).Pairwise (·.id ≠ ·.id) :=
    h.perm (sortById_perm es).symm fun hab => Ne.symm hab
  exact ((sortById_sorted es).and hne).imp fun hab => by omega

end Event

/-! ### The latest time -/

namespace Hub

theorem foldl_later_spec (batch : List Event) (newest : Option Instant) {t : Instant}
    (h : batch.foldl (fun newest e => some (Replay.later newest e.createdAt)) newest = some t) :
    (newest = some t ∨ ∃ e ∈ batch, e.createdAt = t) ∧
      (∀ u, newest = some u → u ≤ t) ∧ ∀ e ∈ batch, e.createdAt ≤ t := by
  induction batch generalizing newest with
  | nil =>
      refine ⟨.inl h, fun u hu => ?_, by simp⟩
      cases h.symm.trans hu
      exact Int.le_refl _
  | cons x batch ih =>
      obtain ⟨hmem, hacc, hle⟩ := ih _ h
      have hlater := hacc _ rfl
      refine ⟨?_, fun u hu => ?_, fun e he => ?_⟩
      · rcases hmem with hmem | ⟨e, he, het⟩
        · cases hmem
          rcases Replay.later_eq newest x.createdAt with hx | hx
          · exact .inr ⟨x, List.mem_cons_self, hx.symm⟩
          · exact .inl hx
        · exact .inr ⟨e, List.mem_cons_of_mem _ he, het⟩
      · exact Int.le_trans (Replay.later_le newest x.createdAt hu) hlater
      · rcases List.mem_cons.mp he with rfl | he
        · exact Int.le_trans (Replay.le_later newest _) hlater
        · exact hle e he

theorem newest?_eq_some {batch : List Event} {t : Instant} (h : newest? batch = some t) :
    (∃ e ∈ batch, e.createdAt = t) ∧ ∀ e ∈ batch, e.createdAt ≤ t := by
  obtain ⟨hmem, -, hle⟩ := foldl_later_spec batch none h
  refine ⟨?_, hle⟩
  rcases hmem with hmem | hmem
  · cases hmem
  · exact hmem

theorem newest?_eq_none {batch : List Event} (h : newest? batch = none) : batch = [] := by
  cases batch with
  | nil => rfl
  | cons e batch =>
      exfalso
      have hsome : ∀ (es : List Event) (u : Instant),
          es.foldl (fun newest e => some (Replay.later newest e.createdAt)) (some u) ≠ none := by
        intro es
        induction es with
        | nil => simp
        | cons x es ih => intro u; exact ih _
      exact hsome batch _ h

/-- The cursor after a batch of whole times lies one microsecond past its newest event. -/
theorem newest?_next {batch : List Event} {newest after : Instant}
    (h : newest? batch = some newest) (hn : newest.next? = some after)
    (hw : ∀ e ∈ batch, e.createdAt.IsWhole) :
    ∃ d ∈ batch, (∀ e ∈ batch, e.createdAt.micros ≤ d.createdAt.micros) ∧ after.IsWhole ∧
      after.micros = d.createdAt.micros + 1 := by
  obtain ⟨⟨d, hd, rfl⟩, hle⟩ := newest?_eq_some h
  exact ⟨d, hd, fun e he => (Instant.le_iff_micros_le (hw e he) (hw d hd)).mp (hle e he),
    Instant.next?_eq_some (hw d hd) hn⟩

end Hub

/-! ### The batch of a tick -/

namespace Tick.Stage

/-- What a tick has found. -/
def batch : Tick.Stage → List Event
  | .answered (.ok events) => events
  | .announcing batch => batch
  | .picking batch _ _ => batch
  | .broadcasting batch _ _ _ => batch
  | _ => []

def isUnderway : Tick.Stage → Bool
  | .ended _ => false
  | _ => true

theorem isUnderway_of_mem_batch {stage : Tick.Stage} {e : Event} (h : e ∈ stage.batch) :
    stage.isUnderway = true := by
  cases stage with
  | ended => cases h
  | _ => rfl

end Tick.Stage

namespace Tick

/-- A tick that goes on keeps its batch. -/
theorem mem_batch_of_next {h : Hub} {stage stage' : Stage} {checkpoint : Checkpoint}
    {subscriber : ConnectionId → Subscriber} (hn : Next h stage stage' checkpoint subscriber)
    (hu : stage'.isUnderway = true) {e : Event} : e ∈ stage'.batch ↔ e ∈ stage.batch := by
  cases hn with
  | sort => exact Event.mem_sortById
  | fail => cases hu
  | idle => cases hu
  | closeNone => cases hu
  | close => cases hu
  | overflow => cases hu
  | _ => exact Iff.rfl

theorem isUnderway_of_next {h : Hub} {stage stage' : Stage} {checkpoint : Checkpoint}
    {subscriber : ConnectionId → Subscriber} (hn : Next h stage stage' checkpoint subscriber) :
    stage.isUnderway = true := by
  cases hn <;> rfl

end Tick

end EventStream
